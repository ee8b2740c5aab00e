import Uqda.Network.Messages
import Uqda.Bits.Octet
import Uqda.Wire.Tlv

/-!
# The wire format of Bloom filters

The type `bloom` of `third_party/ironwood/network/bloomfilter.go` with `size`, `encode` and
`decode`.  A filter is an array of 128 words of 64 bits.  On the wire there are two arrays
of flags, one bit a word: for the words that are all zeros and for the words that are all
ones.  The other words follow in order.
-/

namespace Uqda.Network

open Uqda.Wire Uqda.Bits

/-! ## Flags -/

/-- One bit for each word of a filter. -/
abbrev Flags := Vector UInt8 16

/-- The mask of a word's flag, `0x80 >> (idx % 8)`. -/
def flagMask (idx : Fin 128) : UInt8 := 0x80 >>> UInt8.ofNat (idx.val % 8)

/-- `flags[idx/8] |= 0x80 >> (idx % 8)`. -/
def Flags.raise (flags : Flags) (idx : Fin 128) : Flags :=
  flags.set (idx.val / 8) (flags[idx.val / 8] ||| flagMask idx)

/-- `flags[idx/8] & (0x80 >> (idx % 8)) != 0`. -/
def Flags.raised (flags : Flags) (idx : Fin 128) : Bool :=
  flags[idx.val / 8] &&& flagMask idx != 0

theorem Flags.raised_eq (flags : Flags) (idx : Fin 128) :
    flags.raised idx = bitOf flags[idx.val / 8] (idx.val % 8) := by
  have small : idx.val % 8 < 8 := Nat.mod_lt _ (by decide)
  have masked : ∀ index, index < 8 → bitOf (flags[idx.val / 8] &&& flagMask idx) index =
      (bitOf flags[idx.val / 8] index && decide (index = idx.val % 8)) := by
    intro index inside
    rw [bitOf_and, flagMask, bitOf_mask small inside]
  rw [Flags.raised, Bool.eq_iff_iff, bne_iff_ne]
  constructor
  · intro nonzero
    by_contra unset
    apply nonzero
    apply eq_of_bitOf_eq
    intro index inside
    rw [masked index inside]
    by_cases here : index = idx.val % 8
    · rw [here, Bool.eq_false_iff.mpr unset]
      simp [bitOf]
    · simp [here, bitOf]
  · intro set zero
    have bit := masked (idx.val % 8) small
    rw [zero, set] at bit
    simp [bitOf] at bit

theorem Flags.raised_raise (flags : Flags) (idx other : Fin 128) :
    (flags.raise idx).raised other = (flags.raised other || decide (other = idx)) := by
  have small : idx.val % 8 < 8 := Nat.mod_lt _ (by decide)
  have small' : other.val % 8 < 8 := Nat.mod_lt _ (by decide)
  rw [Flags.raised_eq, Flags.raised_eq]
  by_cases octet : other.val / 8 = idx.val / 8
  · have value : (flags.raise idx)[other.val / 8] = flags[other.val / 8] ||| flagMask idx := by
      simp [Flags.raise, octet]
    have same : other.val % 8 = idx.val % 8 ↔ other = idx := by
      rw [Fin.ext_iff]
      omega
    rw [value, bitOf_or, flagMask, bitOf_mask small small']
    simp only [same]
  · have value : (flags.raise idx)[other.val / 8] = flags[other.val / 8] := by
      rw [Flags.raise, Vector.getElem_set_ne]
      exact fun same => octet same.symm
    have different : other ≠ idx := fun same => octet (by rw [same])
    rw [value]
    simp [different]

theorem Flags.raised_zero (idx : Fin 128) :
    Flags.raised (Vector.replicate 16 0) idx = false := by
  simp [Flags.raised]

/-! ## Filters -/

/-- The words of a filter with `bloomFilterM` bits. -/
structure Bloom where
  words : Vector UInt64 128
  deriving DecidableEq, Repr

/-- `^uint64(0)`. -/
def allOnes : UInt64 := ~~~0

theorem allOnes_ne_zero : allOnes ≠ 0 := by decide

/-- A word that is neither all zeros nor all ones. -/
def mixed (u : UInt64) : Bool := u != 0 && u != allOnes

theorem mixed_iff {u : UInt64} : mixed u = true ↔ u ≠ 0 ∧ u ≠ allOnes := by
  simp [mixed]

namespace Bloom

/-- The word at an index. -/
def word (b : Bloom) (idx : Fin 128) : UInt64 := b.words[idx]

/-- `bloom.size`. -/
def size (b : Bloom) : Nat :=
  b.words.toList.foldl (fun size u => if u ≠ 0 ∧ u ≠ allOnes then size + 8 else size) (16 + 16)

/-- The variables of the loop in `encode`. -/
structure Scan where
  flags0 : Flags := Vector.replicate 16 0
  flags1 : Flags := Vector.replicate 16 0
  keep : List UInt64 := []

/-- One iteration of the loop in `encode`. -/
def Scan.step (b : Bloom) (scan : Scan) (idx : Fin 128) : Scan :=
  if b.word idx = 0 then { scan with flags0 := scan.flags0.raise idx }
  else if b.word idx = allOnes then { scan with flags1 := scan.flags1.raise idx }
  else { scan with keep := scan.keep ++ [b.word idx] }

/-- `bloom.encode`. -/
def encode (b : Bloom) (out : Bytes) : Option Bytes :=
  let start := out.length
  let scan := (List.finRange 128).foldl (Scan.step b) {}
  let out := out ++ scan.flags0.toList
  let out := out ++ scan.flags1.toList
  let out := scan.keep.foldl (fun out u => out ++ bigEndian 8 u.toNat) out
  checkSize start out b.size

/-- One iteration of the loop in `decode`: the word and the bytes that are left. -/
def chopWord (flags0 flags1 : Flags) (idx : Fin 128) : Chopper UInt64 := fun data =>
  if flags0.raised idx ∧ flags1.raised idx then none
  else if flags0.raised idx then some (0, data)
  else if flags1.raised idx then some (allOnes, data)
  else if data.length ≥ 8 then some (UInt64.ofNat (ofBigEndian (data.take 8)), data.drop 8)
  else none

/-- The loop in `decode`. -/
def chopWords (flags0 flags1 : Flags) : List (Fin 128) → Bytes → Option (List UInt64 × Bytes)
  | [], data => some ([], data)
  | idx :: idxs, data => do
      let (u, data) ← chopWord flags0 flags1 idx data
      let (us, data) ← chopWords flags0 flags1 idxs data
      return (u :: us, data)

/-- `bloom.decode`. -/
def decode (data : Bytes) : Option Bloom := do
  let (flags0, data) ← wireChopSlice 16 data
  let (flags1, data) ← wireChopSlice 16 data
  let us ← noMore (chopWords flags0 flags1 (List.finRange 128) data)
  if size : us.length = 128 then some ⟨⟨us.toArray, size⟩⟩ else none

/-! ## What the encoder writes -/

/-- The flags of the words that are all zeros. -/
def flags0 (b : Bloom) : Flags := ((List.finRange 128).foldl (Scan.step b) {}).flags0

/-- The flags of the words that are all ones. -/
def flags1 (b : Bloom) : Flags := ((List.finRange 128).foldl (Scan.step b) {}).flags1

/-- What is written for one word. -/
def wordBytes (u : UInt64) : Bytes := if mixed u then bigEndian 8 u.toNat else []

/-- What `encode` writes. -/
def bytes (b : Bloom) : Bytes :=
  b.flags0.toList ++ (b.flags1.toList ++ b.words.toList.flatMap wordBytes)

theorem raised_flags0_step (b : Bloom) (scan : Scan) (head idx : Fin 128) :
    (scan.step b head).flags0.raised idx =
      (scan.flags0.raised idx || (decide (idx = head) && b.word idx == 0)) := by
  rw [Scan.step]
  split
  · rename_i zero
    rw [Flags.raised_raise]
    by_cases here : idx = head
    · simp [here, zero]
    · simp [here]
  · rename_i nonzero
    have kept : ∀ scan' : Scan, scan'.flags0 = scan.flags0 → scan'.flags0.raised idx =
        (scan.flags0.raised idx || (decide (idx = head) && b.word idx == 0)) := by
      intro scan' same
      rw [same]
      by_cases here : idx = head
      · simp [here, nonzero]
      · simp [here]
    split
    · exact kept _ rfl
    · exact kept _ rfl

theorem raised_flags1_step (b : Bloom) (scan : Scan) (head idx : Fin 128) :
    (scan.step b head).flags1.raised idx =
      (scan.flags1.raised idx || (decide (idx = head) && b.word idx == allOnes)) := by
  have kept : b.word head ≠ allOnes → ∀ scan' : Scan, scan'.flags1 = scan.flags1 →
      scan'.flags1.raised idx =
        (scan.flags1.raised idx || (decide (idx = head) && b.word idx == allOnes)) := by
    intro other scan' same
    rw [same]
    by_cases here : idx = head
    · subst here
      simp [other]
    · simp [here]
  rw [Scan.step]
  split
  · rename_i zero
    exact kept (by rw [zero]; exact allOnes_ne_zero.symm) _ rfl
  · split
    · rename_i ones
      rw [Flags.raised_raise]
      by_cases here : idx = head
      · simp [here, ones]
      · simp [here]
    · rename_i other
      exact kept other _ rfl

theorem keep_step (b : Bloom) (scan : Scan) (head : Fin 128) :
    (scan.step b head).keep = scan.keep ++ [b.word head].filter mixed := by
  rw [Scan.step]
  split
  · rename_i zero
    simp [zero, mixed]
  · rename_i nonzero
    split
    · rename_i ones
      simp [ones, mixed]
    · rename_i other
      simp [mixed_iff.mpr ⟨nonzero, other⟩]

/-- After the loop the flags tell the words, and the other words are kept in order. -/
theorem scan_spec (b : Bloom) (idxs : List (Fin 128)) (scan : Scan) :
    (∀ idx, (idxs.foldl (Scan.step b) scan).flags0.raised idx =
        (scan.flags0.raised idx || (idxs.contains idx && b.word idx == 0))) ∧
      (∀ idx, (idxs.foldl (Scan.step b) scan).flags1.raised idx =
        (scan.flags1.raised idx || (idxs.contains idx && b.word idx == allOnes))) ∧
      (idxs.foldl (Scan.step b) scan).keep =
        scan.keep ++ (idxs.map b.word).filter mixed := by
  induction idxs generalizing scan with
  | nil => simp
  | cons head idxs ih =>
      obtain ⟨zeros, ones, kept⟩ := ih (scan.step b head)
      rw [List.foldl_cons]
      refine ⟨fun idx => ?_, fun idx => ?_, ?_⟩
      · rw [zeros, raised_flags0_step, Bool.or_assoc, ← Bool.and_or_distrib_right,
          List.contains_cons, @beq_eq_decide _ _ _ _ idx head]
      · rw [ones, raised_flags1_step, Bool.or_assoc, ← Bool.and_or_distrib_right,
          List.contains_cons, @beq_eq_decide _ _ _ _ idx head]
      · rw [kept, keep_step, List.append_assoc, ← List.filter_append, List.singleton_append,
          List.map_cons]

theorem raised_flags0 (b : Bloom) (idx : Fin 128) : b.flags0.raised idx = (b.word idx == 0) := by
  rw [flags0, (scan_spec b _ _).1]
  simp [Flags.raised_zero]

theorem raised_flags1 (b : Bloom) (idx : Fin 128) :
    b.flags1.raised idx = (b.word idx == allOnes) := by
  rw [flags1, (scan_spec b _ _).2.1]
  simp [Flags.raised_zero]

theorem words_eq_map (b : Bloom) :
    b.words.toList = (List.finRange 128).map b.word := by
  apply List.ext_getElem
  · simp
  · intro index inside inside'
    simp [word]

theorem flatMap_wordBytes (us : List UInt64) :
    us.flatMap wordBytes = (us.filter mixed).flatMap fun u => bigEndian 8 u.toNat := by
  induction us with
  | nil => rfl
  | cons u us ih =>
      by_cases isMixed : mixed u
      · simp [wordBytes, isMixed, ih]
      · simp [wordBytes, isMixed, ih]

theorem size_eq (b : Bloom) : b.size = b.bytes.length := by
  have loop : ∀ (us : List UInt64) (start : Nat),
      us.foldl (fun size u => if u ≠ 0 ∧ u ≠ allOnes then size + 8 else size) start =
        start + (us.flatMap wordBytes).length := by
    intro us
    induction us with
    | nil => simp
    | cons u us ih =>
        intro start
        rw [List.foldl_cons, ih, List.flatMap_cons, List.length_append, wordBytes]
        by_cases isMixed : u ≠ 0 ∧ u ≠ allOnes
        · rw [if_pos isMixed, if_pos (mixed_iff.mpr isMixed), length_bigEndian, Nat.add_assoc]
        · rw [if_neg isMixed, if_neg (fun holds => isMixed (mixed_iff.mp holds)), List.length_nil,
            Nat.zero_add]
  rw [size, loop, bytes, List.length_append, List.length_append, Vector.length_toList,
    Vector.length_toList, Nat.add_assoc]

theorem encode_eq (b : Bloom) (out : Bytes) : b.encode out = some (out ++ b.bytes) := by
  have loop : ∀ (us : List UInt64) (out : Bytes),
      us.foldl (fun out u => out ++ bigEndian 8 u.toNat) out =
        out ++ us.flatMap fun u => bigEndian 8 u.toNat := by
    intro us
    induction us with
    | nil => simp
    | cons u us ih =>
        intro out
        simp [ih]
  have kept := (scan_spec b (List.finRange 128) {}).2.2
  rw [← checkSize_append out b.bytes b.size_eq]
  simp only [encode, loop, kept, List.nil_append, bytes, ← words_eq_map, flatMap_wordBytes,
    List.append_assoc, flags0, flags1]

/-! ## Reading filters -/

theorem chopWord_wordBytes (b : Bloom) (idx : Fin 128) (rest : Bytes) :
    chopWord b.flags0 b.flags1 idx (wordBytes (b.word idx) ++ rest) =
      some (b.word idx, rest) := by
  rw [chopWord, raised_flags0, raised_flags1]
  by_cases zero : b.word idx = 0
  · simp [zero, wordBytes, mixed, allOnes_ne_zero.symm]
  · by_cases ones : b.word idx = allOnes
    · simp [ones, wordBytes, mixed, allOnes_ne_zero]
    · have read : ofBigEndian (bigEndian 8 (b.word idx).toNat) = (b.word idx).toNat :=
        ofBigEndian_bigEndian_of_lt (b.word idx).toNat_lt
      simp [zero, ones, wordBytes, mixed_iff.mpr ⟨zero, ones⟩, read]

theorem chopWords_wordBytes (b : Bloom) (idxs : List (Fin 128)) (rest : Bytes) :
    chopWords b.flags0 b.flags1 idxs ((idxs.map b.word).flatMap wordBytes ++ rest) =
      some (idxs.map b.word, rest) := by
  induction idxs with
  | nil => rfl
  | cons idx idxs ih =>
      rw [List.map_cons, List.flatMap_cons, List.append_assoc, chopWords, chopWord_wordBytes]
      simp [ih]

theorem decode_bytes (b : Bloom) : decode b.bytes = some b := by
  have words := chopWords_wordBytes b (List.finRange 128) []
  rw [← words_eq_map, List.append_nil] at words
  have array : b.words.toList.toArray = b.words.toArray := Array.toArray_toList
  simp only [decode, bytes, (chops_slice 16).chop_encode _ trivial, Option.bind_eq_bind,
    Option.bind_some, words, noMore, List.length_nil, ne_eq, not_true_eq_false, if_false,
    Vector.length_toList, dif_pos, array]

theorem of_chopWord {flags0 flags1 : Flags} {idx : Fin 128} {data rest : Bytes} {u : UInt64}
    (chopped : chopWord flags0 flags1 idx data = some (u, rest)) :
    ∃ used, data = used ++ rest ∧ (wordBytes u).length ≤ used.length := by
  rw [chopWord] at chopped
  split at chopped
  · cases chopped
  · split at chopped
    · cases chopped
      exact ⟨[], rfl, Nat.le_of_eq rfl⟩
    · split at chopped
      · cases chopped
        exact ⟨[], rfl, Nat.le_of_eq rfl⟩
      · split at chopped
        · rename_i enough
          cases chopped
          refine ⟨data.take 8, (List.take_append_drop 8 data).symm, ?_⟩
          have eight : (data.take 8).length = 8 := by
            rw [List.length_take]
            omega
          rw [eight, wordBytes]
          split
          · exact Nat.le_of_eq (length_bigEndian 8 _)
          · exact Nat.zero_le 8
        · cases chopped

theorem of_chopWords {flags0 flags1 : Flags} {idxs : List (Fin 128)} {data rest : Bytes}
    {us : List UInt64} (chopped : chopWords flags0 flags1 idxs data = some (us, rest)) :
    us.length = idxs.length ∧
      ∃ used, data = used ++ rest ∧ (us.flatMap wordBytes).length ≤ used.length := by
  induction idxs generalizing data us with
  | nil =>
      cases chopped
      exact ⟨rfl, [], rfl, Nat.le_refl 0⟩
  | cons idx idxs ih =>
      simp only [chopWords, Option.bind_eq_bind, Option.bind_eq_some_iff, Option.pure_def,
        Option.some.injEq, Prod.mk.injEq, Prod.exists] at chopped
      obtain ⟨u, middle, front, us, rest, back, rfl, rfl⟩ := chopped
      obtain ⟨size, used, rfl, shorter⟩ := ih back
      obtain ⟨used', rfl, shorter'⟩ := of_chopWord front
      refine ⟨congrArg Nat.succ size, used' ++ used, by rw [List.append_assoc], ?_⟩
      rw [List.flatMap_cons, List.length_append, List.length_append]
      exact Nat.add_le_add shorter' shorter

/-- The loop in `decode` yields as many words as a filter has, and a filter that is accepted
took at least as many bytes as the encoder would use. -/
theorem of_decode {data : Bytes} {b : Bloom} (read : decode data = some b) :
    b.bytes.length ≤ data.length := by
  simp only [decode, Option.bind_eq_bind, Option.bind_eq_some_iff, Prod.exists] at read
  obtain ⟨zeros, middle, front, ones, middle', front', us, words, found⟩ := read
  split at found
  · rename_i size
    cases found
    obtain ⟨-, used, rfl, first⟩ := (chops_slice 16).of_chop front
    obtain ⟨-, used', rfl, second⟩ := (chops_slice 16).of_chop front'
    rw [noMore.eq_def] at words
    split at words
    · rename_i rest chopped
      split at words
      · cases words
      · cases words
        obtain ⟨-, used'', rfl, shorter⟩ := of_chopWords chopped
        have same : (Vector.mk us.toArray size : Vector UInt64 128).toList = us :=
          List.toList_toArray
        simp only [bytes, List.length_append, Vector.length_toList, same] at first second ⊢
        omega
    · cases words
  · cases found

end Bloom

end Uqda.Network
