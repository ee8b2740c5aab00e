import Uqda.Addressing.Core
import Uqda.Bits.Octet

/-!
# What address derivation computes

The bit loop of `AddrForKey` is a scan of the complemented key as a bit string:
a run of ones, one dropped bit, and the rest regrouped into whole octets.  The
exact result is stated for both shapes a key can have, a run that ends and the
all-zero key, whose counter wraps to zero.
-/

namespace Uqda.Addressing

open Uqda.Bits

/-! ## Byte arrays -/

theorem toList_copyAt_zero {n : Nat} (src : List UInt8) :
    (copyAt (Vector.replicate n 0) 0 src).toList = (src ++ List.replicate n 0).take n := by
  apply List.ext_getElem
  · simp
  · intro i left right
    simp only [Vector.length_toList] at left
    simp only [Vector.getElem_toList, copyAt, Vector.getElem_ofFn, Nat.zero_le, if_true,
      Nat.sub_zero, Fin.getElem_fin, Vector.getElem_replicate, List.getElem_take]
    by_cases inside : i < src.length
    · simp [inside]
    · simp [List.getElem_append_right (Nat.le_of_not_lt inside), inside]

/-- An array of the same size replaces the destination. -/
theorem copyAt_zero_toList {n : Nat} (dst src : Vector UInt8 n) :
    copyAt dst 0 src.toList = src := by
  apply Vector.ext
  intro i bound
  simp [copyAt]

/-- A key of the right length is copied whole. -/
theorem toList_copyAt_key {publicKey : PublicKey} (size : publicKey.length = publicKeySize) :
    (copyAt (Vector.replicate 32 0) 0 publicKey).toList = publicKey := by
  rw [toList_copyAt_zero]
  exact List.take_left' size

/-! ## The scan as a function of the bit string -/

/-- Run the loop body over a bit string. -/
def Scan.feed (scan : Scan) (bits : List Bool) : Scan :=
  bits.foldl (fun scan bit => scan.step bit.toUInt8) scan

@[simp]
theorem Scan.feed_nil (scan : Scan) : scan.feed [] = scan :=
  rfl

@[simp]
theorem Scan.feed_cons (scan : Scan) (bit : Bool) (bits : List Bool) :
    scan.feed (bit :: bits) = (scan.step bit.toUInt8).feed bits :=
  rfl

theorem Scan.feed_append (scan : Scan) (left right : List Bool) :
    scan.feed (left ++ right) = (scan.feed left).feed right := by
  simp [Scan.feed]

/-- Masking and shifting one key bit yields that bit of the octet. -/
theorem mask_eq_bitOf (octet : UInt8) (position : Fin 8) :
    (octet &&& (0x80 >>> UInt8.ofNat position.val)) >>> UInt8.ofNat (7 - position.val) =
      (bitOf octet position.val).toUInt8 := by
  apply eq_of_bitOf_eq
  intro index inside
  rw [bitOf_shiftRight _ (by omega) inside, bitOf_and, bitOf_mask position.isLt (by omega),
    bitOf_toUInt8 _ inside]
  by_cases last : index = 7
  · have here : 7 - (7 - position.val) = position.val := by omega
    simp [last, here]
  · by_cases reached : 7 - position.val ≤ index
    · have elsewhere : index - (7 - position.val) ≠ position.val := by omega
      simp [last, elsewhere]
    · simp [last, reached]

theorem map_keyBit (buf : Vector UInt8 32) :
    (List.finRange (8 * 32)).map (keyBit buf) = (unpack buf.toList).map Bool.toUInt8 := by
  apply List.ext_getElem
  · simp
  · intro i left right
    have bound : i < 256 := by simpa using left
    have bits := getElem?_unpack buf.toList i
    rw [List.getElem?_eq_getElem (by simpa using bound),
      List.getElem?_eq_getElem (by simp; omega), Option.map_some, Option.some.injEq] at bits
    have masked := mask_eq_bitOf (buf[i / 8]) ⟨i % 8, by omega⟩
    simp only [List.getElem_map, List.getElem_finRange, keyBit, Fin.val_cast, bits,
      Vector.getElem_toList]
    exact masked

theorem scanKey_eq_feed (buf : Vector UInt8 32) :
    scanKey buf = ({} : Scan).feed (unpack buf.toList) := by
  rw [scanKey, Scan.feed, ← List.foldl_map, map_keyBit, List.foldl_map]

/-! ## Leading ones -/

theorem Scan.step_run {scan : Scan} (running : scan.done = false) :
    scan.step (true.toUInt8) = { scan with ones := scan.ones + 1 } := by
  have one : true.toUInt8 = 1 := rfl
  simp [Scan.step, running, one]

theorem Scan.step_stop {scan : Scan} (running : scan.done = false) :
    scan.step (false.toUInt8) = { scan with done := true } := by
  have zero : false.toUInt8 = 0 := rfl
  simp [Scan.step, running, zero]

/-- A run of set bits only moves the byte counter, which may wrap. -/
theorem Scan.feed_run {scan : Scan} (running : scan.done = false) (count : Nat) :
    scan.feed (List.replicate count true) =
      { scan with ones := scan.ones + UInt8.ofNat count } := by
  induction count generalizing scan with
  | zero => simp
  | succ count ih =>
      rw [List.replicate_succ, Scan.feed_cons, Scan.step_run running,
        @ih { scan with ones := scan.ones + 1 } running]
      simp only [Scan.mk.injEq, true_and, and_true]
      rw [UInt8.ofNat_add, UInt8.add_assoc, UInt8.add_comm 1]
      rfl

/-! ## Payload octets -/

theorem Scan.step_collect {scan : Scan} (finished : scan.done = true) (bit : Bool) :
    scan.step bit.toUInt8 =
      if scan.nBits + 1 = 8 then
        { scan with
          bits := pushBit scan.bits bit
          nBits := 0
          temp := scan.temp ++ [pushBit scan.bits bit] }
      else { scan with bits := pushBit scan.bits bit, nBits := scan.nBits + 1 } := by
  simp [Scan.step, finished, pushBit]

/-- Fewer than eight bits reach no octet boundary. -/
theorem Scan.feed_short {scan : Scan} (finished : scan.done = true) {bits : List Bool}
    (short : scan.nBits + bits.length < 8) :
    scan.feed bits =
      { scan with
        bits := bits.foldl pushBit scan.bits
        nBits := scan.nBits + bits.length } := by
  induction bits generalizing scan with
  | nil => rfl
  | cons bit bits ih =>
      simp only [List.length_cons] at short
      rw [Scan.feed_cons, Scan.step_collect finished, if_neg (by omega),
        @ih { scan with bits := pushBit scan.bits bit, nBits := scan.nBits + 1 } finished
          (by simp only; omega)]
      simp only [List.foldl_cons, List.length_cons, Scan.mk.injEq, true_and]
      omega

/-- Eight bits from an octet boundary append exactly their octet. -/
theorem Scan.feed_octet {scan : Scan} (finished : scan.done = true) (boundary : scan.nBits = 0)
    {bits : List Bool} (full : bits.length = 8) :
    scan.feed bits =
      { scan with bits := packOctet bits, temp := scan.temp ++ [packOctet bits] } := by
  obtain ⟨init, last, rfl⟩ : ∃ init last, bits = init ++ [last] :=
    ⟨bits.dropLast, bits.getLast (by rintro rfl; simp at full),
      (List.dropLast_append_getLast _).symm⟩
  have initLength : init.length = 7 := by simpa using full
  have filled := foldl_pushBit_eq_packOctet scan.bits full
  rw [List.foldl_append] at filled
  rw [Scan.feed_append, Scan.feed_short finished (by omega), Scan.feed_cons, Scan.feed_nil,
    Scan.step_collect (by exact finished), if_pos (by simp only; omega)]
  simp only [List.foldl_cons, List.foldl_nil] at filled
  simp only [filled, boundary]

/-- After the run has ended the loop regroups the remaining bits into whole
octets and drops the rest. -/
theorem Scan.feed_payload {scan : Scan} (finished : scan.done = true)
    (boundary : scan.nBits = 0) (bits : List Bool) :
    (scan.feed bits).temp = scan.temp ++ pack bits ∧ (scan.feed bits).ones = scan.ones := by
  by_cases short : bits.length < 8
  · rw [Scan.feed_short finished (by omega), pack_of_length_lt short]
    simp
  · have full : (bits.take 8).length = 8 := by simp; omega
    have shorter : (bits.drop 8).length < bits.length := by simp; omega
    have rest := @Scan.feed_payload (scan.feed (bits.take 8))
      (by rw [Scan.feed_octet finished boundary full]; exact finished)
      (by rw [Scan.feed_octet finished boundary full]; exact boundary) (bits.drop 8)
    rw [← Scan.feed_append, List.take_append_drop] at rest
    have regrouped : pack bits = packOctet (bits.take 8) :: pack (bits.drop 8) := by
      match bits, full with
      | b₀ :: b₁ :: b₂ :: b₃ :: b₄ :: b₅ :: b₆ :: b₇ :: tail, _ => rfl
    rw [rest.1, rest.2, Scan.feed_octet finished boundary full, regrouped]
    simp
termination_by bits.length

/-! ## The derived address -/

theorem toList_assemble (ones : UInt8) (payload : List UInt8) :
    (assemble ones payload).toList =
      0x02 :: ones :: (payload ++ List.replicate 14 0).take 14 := by
  apply List.ext_getElem
  · simp
  · intro i left right
    simp only [Vector.length_toList] at left
    simp only [Vector.getElem_toList, assemble]
    match i, left with
    | 0, _ => simp [copyAt, getPrefix]
    | 1, _ => simp [copyAt]
    | i + 2, left =>
        simp only [copyAt, Vector.getElem_ofFn, Fin.getElem_fin, List.getElem_cons_succ,
          List.getElem_take, Nat.add_sub_cancel]
        rw [if_pos (by omega), Vector.getElem_set_ne (by omega) (by omega) (by omega)]
        by_cases inside : i < payload.length
        · simp [inside]
        · rw [List.getElem_append_right (Nat.le_of_not_lt inside), List.getElem_replicate]
          simp [inside, Vector.getElem_ofFn, getPrefix]

theorem addrForKey_eq_assemble {publicKey : PublicKey}
    (size : publicKey.length = publicKeySize) :
    addrForKey publicKey =
      some (assemble (({} : Scan).feed ((unpack publicKey).map (! ·))).ones
        (({} : Scan).feed ((unpack publicKey).map (! ·))).temp) := by
  have complemented :
      ((copyAt (Vector.replicate 32 0) 0 publicKey).map (~~~ ·)).toList =
        publicKey.map (~~~ ·) := by
    rw [Vector.toList_map, toList_copyAt_key size]
  simp only [addrForKey, size, ne_eq, not_true_eq_false, if_false, scanKey_eq_feed,
    complemented, unpack_map_complement, assemble]

/-- A key whose complement starts with `count` ones and then a zero. -/
theorem addrForKey_of_run {publicKey : PublicKey} (size : publicKey.length = publicKeySize)
    {count : Nat} {rest : List Bool}
    (shape : (unpack publicKey).map (! ·) = List.replicate count true ++ false :: rest) :
    addrForKey publicKey = some (assemble (UInt8.ofNat count) (pack rest)) := by
  have run := @Scan.feed_run {} rfl count
  have payload := @Scan.feed_payload
    { ({} : Scan) with ones := 0 + UInt8.ofNat count, done := true } rfl rfl rest
  rw [addrForKey_eq_assemble size, shape, Scan.feed_append, run, Scan.feed_cons,
    Scan.step_stop rfl, payload.1, payload.2]
  simp

/-- The all-zero key: the counter wraps around to zero and no bit is left. -/
theorem addrForKey_of_zero {publicKey : PublicKey} (size : publicKey.length = publicKeySize)
    (shape : (unpack publicKey).map (! ·) = List.replicate 256 true) :
    addrForKey publicKey = some (assemble 0 []) := by
  rw [addrForKey_eq_assemble size, shape, Scan.feed_run rfl]
  rfl

/-- Every bit string is a run of ones, possibly ended by a zero. -/
theorem exists_run (bits : List Bool) :
    (∃ count, bits = List.replicate count true) ∨
      ∃ count rest, bits = List.replicate count true ++ false :: rest := by
  induction bits with
  | nil => exact Or.inl ⟨0, rfl⟩
  | cons bit bits ih =>
      cases bit with
      | false => exact Or.inr ⟨0, bits, rfl⟩
      | true =>
          rcases ih with ⟨count, rfl⟩ | ⟨count, rest, rfl⟩
          · exact Or.inl ⟨count + 1, rfl⟩
          · exact Or.inr ⟨count + 1, rest, rfl⟩

end Uqda.Addressing
