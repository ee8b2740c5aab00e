import Mathlib.Data.List.Basic
import Mathlib.Tactic.Linarith

/-!
# Octet strings as bit strings

An octet is read most significant bit first.  `unpack` spells an octet string
out as bits and `pack` regroups bits into octets, dropping a trailing group of
fewer than eight bits.  Shift registers that receive one bit at a time are
covered by `pushBit`: eight pushes determine the octet whatever it held before.
-/

namespace Uqda

/-- A byte slice. -/
abbrev Bytes := List UInt8

end Uqda

namespace Uqda.Bits

/-- Bit `index` of an octet, counted from the most significant one. -/
def bitOf (octet : UInt8) (index : Nat) : Bool :=
  octet.toBitVec.getMsbD index

/-- The eight bits of an octet, most significant first. -/
def unpackOctet (octet : UInt8) : List Bool :=
  (List.range 8).map (bitOf octet)

/-- The bits of an octet string, most significant bit of each octet first. -/
def unpack (octets : List UInt8) : List Bool :=
  octets.flatMap unpackOctet

/-- Shift one bit into the low end of an octet; the top bit falls off. -/
def pushBit (octet : UInt8) (bit : Bool) : UInt8 :=
  (octet <<< 1) ||| bit.toUInt8

/-- The octet read from a list of bits, most significant first. -/
def packOctet (bits : List Bool) : UInt8 :=
  bits.foldl pushBit 0

/-- Group bits into octets.  A trailing group of fewer than eight bits is
dropped. -/
def pack : List Bool → List UInt8
  | b₀ :: b₁ :: b₂ :: b₃ :: b₄ :: b₅ :: b₆ :: b₇ :: rest =>
      packOctet [b₀, b₁, b₂, b₃, b₄, b₅, b₆, b₇] :: pack rest
  | _ => []

/-- A property of octets can be checked value by value. -/
theorem forall_octet {property : UInt8 → Prop}
    (values : ∀ value : Fin 256, property (UInt8.ofFin value)) (octet : UInt8) :
    property octet :=
  values octet.toFin

/-! ## Single bits -/

theorem bitOf_of_le (octet : UInt8) {index : Nat} (outside : 8 ≤ index) :
    bitOf octet index = false := by
  simp [bitOf, outside]

theorem eq_of_bitOf_eq {left right : UInt8}
    (same : ∀ index, index < 8 → bitOf left index = bitOf right index) : left = right :=
  UInt8.toBitVec_inj.mp (BitVec.eq_of_getMsbD_eq same)

theorem bitOf_or (left right : UInt8) (index : Nat) :
    bitOf (left ||| right) index = (bitOf left index || bitOf right index) := by
  simp [bitOf]

theorem bitOf_and (left right : UInt8) (index : Nat) :
    bitOf (left &&& right) index = (bitOf left index && bitOf right index) := by
  simp [bitOf]

theorem bitOf_shiftLeft (octet : UInt8) {shift : Nat} (small : shift < 8) (index : Nat) :
    bitOf (octet <<< UInt8.ofNat shift) index = bitOf octet (index + shift) := by
  have amount : shift % 256 % 8 = shift := by omega
  simp [bitOf, amount]

theorem bitOf_shiftRight (octet : UInt8) {shift index : Nat} (small : shift < 8)
    (inside : index < 8) :
    bitOf (octet >>> UInt8.ofNat shift) index =
      (decide (shift ≤ index) && bitOf octet (index - shift)) := by
  have amount : shift % 256 % 8 = shift := by omega
  by_cases before : index < shift
  · simp [bitOf, amount, BitVec.getMsbD_ushiftRight, before, Nat.not_le.mpr before]
  · simp [bitOf, amount, BitVec.getMsbD_ushiftRight, before, inside, Nat.not_lt.mp before]

/-- The top bit, if it is set. -/
theorem bitOf_top (bit : Bool) {index : Nat} (inside : index < 8) :
    bitOf (if bit then 0x80 else 0) index = (decide (index = 0) && bit) := by
  cases bit with
  | false => simp [bitOf]
  | true =>
      revert index
      decide

/-- The mask of one bit. -/
theorem bitOf_mask {shift index : Nat} (small : shift < 8) (inside : index < 8) :
    bitOf (0x80 >>> UInt8.ofNat shift) index = decide (index = shift) := by
  have top : bitOf 0x80 (index - shift) = (decide (index - shift = 0) && true) :=
    bitOf_top true (by omega)
  rw [bitOf_shiftRight _ small inside, top, Bool.and_true, ← Bool.decide_and]
  exact decide_eq_decide.mpr (by omega)

/-! ## Octet strings -/

@[simp]
theorem length_unpackOctet (octet : UInt8) : (unpackOctet octet).length = 8 := by
  simp [unpackOctet]

@[simp]
theorem unpack_nil : unpack [] = [] :=
  rfl

@[simp]
theorem unpack_cons (octet : UInt8) (octets : List UInt8) :
    unpack (octet :: octets) = unpackOctet octet ++ unpack octets :=
  rfl

theorem unpack_append (left right : List UInt8) :
    unpack (left ++ right) = unpack left ++ unpack right := by
  simp [unpack]

@[simp]
theorem length_unpack (octets : List UInt8) :
    (unpack octets).length = 8 * octets.length := by
  induction octets with
  | nil => rfl
  | cons octet octets ih => simp [ih]; omega

/-- Bit `index` of an octet string is bit `index % 8` of octet `index / 8`. -/
theorem getElem?_unpack (octets : List UInt8) (index : Nat) :
    (unpack octets)[index]? = (octets[index / 8]?).map (bitOf · (index % 8)) := by
  induction octets generalizing index with
  | nil => simp
  | cons octet octets ih =>
      rw [unpack_cons]
      by_cases inside : index < 8
      · have quotient : index / 8 = 0 := by omega
        have remainder : index % 8 = index := by omega
        rw [List.getElem?_append_left (by simpa using inside), quotient, remainder]
        simp [unpackOctet, inside]
      · have quotient : index / 8 = (index - 8) / 8 + 1 := by omega
        have remainder : index % 8 = (index - 8) % 8 := by omega
        rw [List.getElem?_append_right (by simpa using inside), length_unpackOctet, ih,
          quotient, remainder]
        simp

theorem unpack_replicate_zero (count : Nat) :
    unpack (List.replicate count 0) = List.replicate (8 * count) false := by
  induction count with
  | zero => rfl
  | succ count ih =>
      rw [List.replicate_succ, unpack_cons, ih, show 8 * (count + 1) = 8 + 8 * count by omega,
        List.replicate_add]
      rfl

/-- Complementing every octet complements every bit. -/
theorem unpack_map_complement (octets : List UInt8) :
    unpack (octets.map (~~~ ·)) = (unpack octets).map (! ·) := by
  induction octets with
  | nil => rfl
  | cons octet octets ih =>
      have octetBits : unpackOctet (~~~ octet) = (unpackOctet octet).map (! ·) := by
        simp [unpackOctet, bitOf, List.range_succ]
      simp [ih, octetBits]

theorem unpackOctet_inj {left right : UInt8} :
    unpackOctet left = unpackOctet right ↔ left = right := by
  constructor
  · intro same
    apply eq_of_bitOf_eq
    intro index inside
    have bit := congrArg (·[index]?) same
    simpa [unpackOctet, inside] using bit
  · exact congrArg unpackOctet

/-! ## Eight pushes fill an octet -/

theorem bitOf_toUInt8 (bit : Bool) {index : Nat} (inside : index < 8) :
    bitOf bit.toUInt8 index = (bit && index == 7) := by
  cases bit with
  | false => simp [bitOf]
  | true =>
      revert index
      decide

theorem bitOf_pushBit (octet : UInt8) (bit : Bool) {index : Nat} (inside : index < 8) :
    bitOf (pushBit octet bit) index = (bitOf octet (index + 1) || (bit && index == 7)) := by
  rw [← bitOf_toUInt8 bit inside]
  simp [bitOf, pushBit, BitVec.getMsbD_or, BitVec.getMsbD_shiftLeft]

/-- A push drops the first bit and appends the new one. -/
theorem unpackOctet_pushBit (octet : UInt8) (bit : Bool) :
    unpackOctet (pushBit octet bit) = (unpackOctet octet).tail ++ [bit] := by
  simp [unpackOctet, List.range_succ, bitOf_pushBit, bitOf_of_le]

theorem unpackOctet_foldl_pushBit (octet : UInt8) (bits : List Bool) :
    unpackOctet (bits.foldl pushBit octet) = (unpackOctet octet ++ bits).drop bits.length := by
  induction bits generalizing octet with
  | nil => simp
  | cons bit bits ih =>
      rw [List.foldl_cons, ih, unpackOctet_pushBit]
      simp [unpackOctet, List.range_succ]

/-- Eight pushes show the bits that were pushed. -/
theorem unpackOctet_foldl_pushBit_of_length (octet : UInt8) {bits : List Bool}
    (full : bits.length = 8) : unpackOctet (bits.foldl pushBit octet) = bits := by
  rw [unpackOctet_foldl_pushBit, full, ← length_unpackOctet octet, List.drop_left]

/-- After eight pushes nothing of the previous content is left. -/
theorem foldl_pushBit_eq_packOctet (octet : UInt8) {bits : List Bool}
    (full : bits.length = 8) : bits.foldl pushBit octet = packOctet bits := by
  rw [← unpackOctet_inj, unpackOctet_foldl_pushBit_of_length octet full, packOctet,
    unpackOctet_foldl_pushBit_of_length 0 full]

theorem packOctet_unpackOctet (octet : UInt8) : packOctet (unpackOctet octet) = octet := by
  rw [← unpackOctet_inj, packOctet,
    unpackOctet_foldl_pushBit_of_length 0 (length_unpackOctet octet)]

theorem unpackOctet_packOctet (b₀ b₁ b₂ b₃ b₄ b₅ b₆ b₇ : Bool) :
    unpackOctet (packOctet [b₀, b₁, b₂, b₃, b₄, b₅, b₆, b₇]) =
      [b₀, b₁, b₂, b₃, b₄, b₅, b₆, b₇] :=
  unpackOctet_foldl_pushBit_of_length 0 rfl

/-! ## Regrouping -/

/-- A leading whole octet is regrouped as it was. -/
theorem pack_unpackOctet_append (octet : UInt8) (bits : List Bool) :
    pack (unpackOctet octet ++ bits) = octet :: pack bits := by
  have spelled : packOctet (unpackOctet octet) = octet := packOctet_unpackOctet octet
  simp only [unpackOctet] at spelled ⊢
  simp only [List.range_eq_range', List.range'_succ, List.range'_zero, List.map_cons,
    List.map_nil, List.cons_append, List.nil_append, pack] at spelled ⊢
  rw [spelled]

theorem pack_of_length_lt {bits : List Bool} (short : bits.length < 8) : pack bits = [] := by
  unfold pack
  split
  · simp only [List.length_cons] at short
    omega
  · rfl

/-- Truncating the bits of an octet string keeps exactly its whole octets. -/
theorem pack_take_unpack (octets : List UInt8) (count : Nat) :
    pack ((unpack octets).take count) = octets.take (count / 8) := by
  induction octets generalizing count with
  | nil => simp [pack]
  | cons octet octets ih =>
      by_cases whole : 8 ≤ count
      · obtain ⟨rest, rfl⟩ := Nat.exists_eq_add_of_le whole
        have quotient : (8 + rest) / 8 = rest / 8 + 1 := by omega
        rw [unpack_cons, List.take_append, length_unpackOctet,
          List.take_of_length_le (by simp), Nat.add_sub_cancel_left,
          pack_unpackOctet_append, ih, quotient, List.take_succ_cons]
      · have quotient : count / 8 = 0 := by omega
        have short : ((unpack (octet :: octets)).take count).length < 8 := by
          simp only [List.length_take]
          omega
        rw [pack_of_length_lt short, quotient, List.take_zero]

@[simp]
theorem length_pack (bits : List Bool) : (pack bits).length = bits.length / 8 := by
  fun_induction pack bits with
  | case1 b₀ b₁ b₂ b₃ b₄ b₅ b₆ b₇ rest ih =>
      simp only [List.length_cons, ih]
      omega
  | case2 bits incomplete =>
      have short : bits.length < 8 := by
        by_contra long
        match bits, long with
        | b₀ :: b₁ :: b₂ :: b₃ :: b₄ :: b₅ :: b₆ :: b₇ :: rest, _ =>
            exact incomplete b₀ b₁ b₂ b₃ b₄ b₅ b₆ b₇ rest rfl
        | [], h | [_], h | [_, _], h | [_, _, _], h | [_, _, _, _], h | [_, _, _, _, _], h
        | [_, _, _, _, _, _], h | [_, _, _, _, _, _, _], h => simp at h
      simp only [List.length_nil]
      omega

theorem unpack_inj {left right : List UInt8} : unpack left = unpack right ↔ left = right := by
  constructor
  · intro same
    have lengths := congrArg List.length same
    rw [length_unpack, length_unpack] at lengths
    have octets := congrArg (fun bits => pack (bits.take (8 * left.length))) same
    simp only [pack_take_unpack] at octets
    rwa [List.take_of_length_le (by omega), List.take_of_length_le (by omega)] at octets
  · exact congrArg unpack

/-- Whole octets show the bits that they were grouped from. -/
theorem unpack_take_pack {bits : List Bool} {count : Nat} (enough : 8 * count ≤ bits.length) :
    unpack ((pack bits).take count) = bits.take (8 * count) := by
  induction count generalizing bits with
  | zero => simp
  | succ count ih =>
      match bits, enough with
      | b₀ :: b₁ :: b₂ :: b₃ :: b₄ :: b₅ :: b₆ :: b₇ :: rest, enough =>
          have fewer : 8 * count ≤ rest.length := by
            simp only [List.length_cons] at enough
            omega
          rw [pack, List.take_succ_cons, unpack_cons, unpackOctet_packOctet, ih fewer,
            show 8 * (count + 1) = 8 * count + 8 by omega]
          rfl

end Uqda.Bits
