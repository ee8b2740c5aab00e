import Mathlib.Data.List.Basic
import Mathlib.Tactic.Ring

/-!
# Tagged fields and framed messages

Fixed-width big-endian numbers, fields that carry a 16-bit tag and a 16-bit
length in front of their value, and frames that carry a 16-bit length in front of
their body.

Fields and frames are self-delimiting: from the concatenation of one with
arbitrary further bytes both parts can be recovered.  Hence a byte string is a
sequence of fields in at most one way, and frames can be concatenated without
loss.
-/

namespace Uqda.Wire

/-! ## Big-endian numbers -/

/-- The lowest `width` bytes of a number, highest byte first. -/
def bigEndian : Nat → Nat → List UInt8
  | 0, _ => []
  | width + 1, n => UInt8.ofNat (n / 256 ^ width) :: bigEndian width n

/-- The number with the given bytes, highest byte first. -/
def ofBigEndian : List UInt8 → Nat
  | [] => 0
  | byte :: bytes => byte.toNat * 256 ^ bytes.length + ofBigEndian bytes

@[simp]
theorem length_bigEndian (width n : Nat) : (bigEndian width n).length = width := by
  induction width with
  | zero => rfl
  | succ width ih => simp [bigEndian, ih]

theorem ofBigEndian_lt (bytes : List UInt8) : ofBigEndian bytes < 256 ^ bytes.length := by
  induction bytes with
  | nil => simp [ofBigEndian]
  | cons byte bytes ih =>
      have bound : byte.toNat + 1 ≤ 256 := byte.toNat_lt
      calc
        ofBigEndian (byte :: bytes) < byte.toNat * 256 ^ bytes.length + 256 ^ bytes.length :=
          Nat.add_lt_add_left ih _
        _ = (byte.toNat + 1) * 256 ^ bytes.length := by ring
        _ ≤ 256 * 256 ^ bytes.length := Nat.mul_le_mul_right _ bound
        _ = 256 ^ (byte :: bytes).length := by rw [List.length_cons, pow_succ]; ring

/-- Higher digits do not change the lowest bytes. -/
theorem bigEndian_add_mul (width n k : Nat) :
    bigEndian width (n + k * 256 ^ width) = bigEndian width n := by
  induction width generalizing k with
  | zero => rfl
  | succ width ih =>
      have split : n + k * 256 ^ (width + 1) = n + k * 256 * 256 ^ width := by ring
      have digit : (n + k * 256 * 256 ^ width) / 256 ^ width = n / 256 ^ width + k * 256 :=
        Nat.add_mul_div_right _ _ (Nat.pow_pos (by decide))
      rw [split, bigEndian, bigEndian, ih, digit]
      congr 1
      apply UInt8.toNat_inj.mp
      simp

theorem bigEndian_ofBigEndian (bytes : List UInt8) :
    bigEndian bytes.length (ofBigEndian bytes) = bytes := by
  induction bytes with
  | nil => rfl
  | cons byte bytes ih =>
      have positive : 0 < 256 ^ bytes.length := Nat.pow_pos (by decide)
      rw [List.length_cons, ofBigEndian, bigEndian, Nat.add_comm, bigEndian_add_mul, ih,
        Nat.add_mul_div_right _ _ positive, Nat.div_eq_of_lt (ofBigEndian_lt bytes)]
      simp

theorem ofBigEndian_bigEndian (width n : Nat) :
    ofBigEndian (bigEndian width n) = n % 256 ^ width := by
  induction width with
  | zero => simp [bigEndian, ofBigEndian, Nat.mod_one]
  | succ width ih =>
      have digits : n % 256 ^ (width + 1) =
          n % 256 ^ width + 256 ^ width * (n / 256 ^ width % 256) := by
        rw [pow_succ, Nat.mod_mul]
      rw [bigEndian, ofBigEndian, length_bigEndian, ih, UInt8.toNat_ofNat', digits, Nat.add_comm,
        Nat.mul_comm]

theorem ofBigEndian_bigEndian_of_lt {width n : Nat} (bound : n < 256 ^ width) :
    ofBigEndian (bigEndian width n) = n := by
  rw [ofBigEndian_bigEndian, Nat.mod_eq_of_lt bound]

/-! ## Fields -/

/-- A field whose value is short enough for its length to be written. -/
structure Tlv where
  tag : UInt16
  value : List UInt8
  fits : value.length < 2 ^ 16
  deriving DecidableEq

/-- The tag and the length in two bytes each, and the value. -/
def Tlv.encode (field : Tlv) : List UInt8 :=
  bigEndian 2 field.tag.toNat ++ bigEndian 2 field.value.length ++ field.value

/-- The concatenation of the encodings of a list of fields. -/
def encodeAll (fields : List Tlv) : List UInt8 :=
  fields.flatMap Tlv.encode

@[simp]
theorem Tlv.length_encode (field : Tlv) : field.encode.length = 4 + field.value.length := by
  simp only [Tlv.encode, List.length_append, length_bigEndian]

theorem Tlv.encode_ne_nil (field : Tlv) : field.encode ≠ [] := by
  intro empty
  have size := field.length_encode
  rw [empty, List.length_nil] at size
  omega

@[simp]
theorem encodeAll_nil : encodeAll [] = [] :=
  rfl

@[simp]
theorem encodeAll_cons (field : Tlv) (fields : List Tlv) :
    encodeAll (field :: fields) = field.encode ++ encodeAll fields :=
  List.flatMap_cons

@[simp]
theorem encodeAll_append (first second : List Tlv) :
    encodeAll (first ++ second) = encodeAll first ++ encodeAll second :=
  List.flatMap_append

theorem encodeAll_eq_nil_iff {fields : List Tlv} : encodeAll fields = [] ↔ fields = [] := by
  cases fields with
  | nil => simp
  | cons field fields => simp [field.encode_ne_nil]

/-- A tag and a length can be read back from the front of a field. -/
theorem Tlv.encode_append (field : Tlv) (rest : List UInt8) :
    ofBigEndian ((field.encode ++ rest).take 2) = field.tag.toNat ∧
      ofBigEndian (((field.encode ++ rest).take 4).drop 2) = field.value.length ∧
        (field.encode ++ rest).drop 4 = field.value ++ rest := by
  have tagBound : field.tag.toNat < 256 ^ 2 := field.tag.toNat_lt
  have lengthBound : field.value.length < 256 ^ 2 := field.fits
  refine ⟨?_, ?_, ?_⟩
  · rw [← ofBigEndian_bigEndian_of_lt tagBound]
    simp [Tlv.encode]
  · rw [← ofBigEndian_bigEndian_of_lt lengthBound]
    simp [Tlv.encode, List.take_append]
  · simp [Tlv.encode, List.drop_append]

/-- A field can be split off in one way only. -/
theorem Tlv.encode_append_inj {first second : Tlv} {firstRest secondRest : List UInt8}
    (same : first.encode ++ firstRest = second.encode ++ secondRest) :
    first = second ∧ firstRest = secondRest := by
  obtain ⟨firstTag, firstLength, firstDrop⟩ := first.encode_append firstRest
  obtain ⟨secondTag, secondLength, secondDrop⟩ := second.encode_append secondRest
  rw [same] at firstTag firstLength firstDrop
  have tags : first.tag = second.tag := UInt16.toNat_inj.mp (firstTag.symm.trans secondTag)
  have lengths : first.value.length = second.value.length := firstLength.symm.trans secondLength
  obtain ⟨values, rests⟩ := List.append_inj (firstDrop.symm.trans secondDrop) lengths
  cases first
  cases second
  cases tags
  cases values
  exact ⟨rfl, rests⟩

theorem encodeAll_injective {first second : List Tlv}
    (same : encodeAll first = encodeAll second) : first = second := by
  induction first generalizing second with
  | nil => exact (encodeAll_eq_nil_iff.mp same.symm).symm
  | cons field fields ih =>
      cases second with
      | nil => exact encodeAll_eq_nil_iff.mp same
      | cons other others =>
          rw [encodeAll_cons, encodeAll_cons] at same
          obtain ⟨rfl, rest⟩ := Tlv.encode_append_inj same
          rw [ih rest]

theorem bigEndian_two_ofBigEndian {bytes : List UInt8} (size : bytes.length = 2) :
    bigEndian 2 (ofBigEndian bytes) = bytes := by
  rw [← size, bigEndian_ofBigEndian]

/-- Bytes that announce no more than they hold begin with a field. -/
theorem Tlv.exists_encode_append {bytes : List UInt8} (header : 4 ≤ bytes.length)
    (complete : ofBigEndian ((bytes.take 4).drop 2) ≤ bytes.length - 4) :
    ∃ field rest, bytes = Tlv.encode field ++ rest := by
  obtain ⟨tag, afterTag, tagSize, rfl⟩ : ∃ tag rest, tag.length = 2 ∧ bytes = tag ++ rest :=
    ⟨bytes.take 2, bytes.drop 2, by rw [List.length_take]; omega, by simp⟩
  rw [List.length_append, tagSize] at header complete
  obtain ⟨size, body, sizeSize, rfl⟩ :
      ∃ size rest, size.length = 2 ∧ afterTag = size ++ rest :=
    ⟨afterTag.take 2, afterTag.drop 2, by rw [List.length_take]; omega, by simp⟩
  have announced : ((tag ++ (size ++ body)).take 4).drop 2 = size := by
    simp [List.take_append, tagSize, sizeSize]
  have tagBound : ofBigEndian tag < 2 ^ 16 := by
    have bound := ofBigEndian_lt tag
    rwa [tagSize] at bound
  have sizeBound : ofBigEndian size < 2 ^ 16 := by
    have bound := ofBigEndian_lt size
    rwa [sizeSize] at bound
  have held : (body.take (ofBigEndian size)).length = ofBigEndian size := by
    rw [announced, List.length_append, sizeSize] at complete
    rw [List.length_take]
    omega
  refine ⟨⟨UInt16.ofNat (ofBigEndian tag), body.take (ofBigEndian size),
    held.trans_lt sizeBound⟩, body.drop (ofBigEndian size), ?_⟩
  simp only [Tlv.encode, held, UInt16.toNat_ofNat_of_lt' tagBound,
    bigEndian_two_ofBigEndian tagSize, bigEndian_two_ofBigEndian sizeSize, List.append_assoc,
    List.take_append_drop]

/-! ## Frames -/

/-- A message with its length in front of it. -/
def frame (magic body : List UInt8) : List UInt8 :=
  magic ++ bigEndian 2 body.length ++ body

@[simp]
theorem length_frame (magic body : List UInt8) :
    (frame magic body).length = magic.length + 2 + body.length := by
  simp [frame, Nat.add_assoc]

/-- A frame can be split off in one way only. -/
theorem frame_append_inj {magic first second firstRest secondRest : List UInt8}
    (firstFits : first.length < 2 ^ 16) (secondFits : second.length < 2 ^ 16)
    (same : frame magic first ++ firstRest = frame magic second ++ secondRest) :
    first = second ∧ firstRest = secondRest := by
  simp only [frame, List.append_assoc, List.append_cancel_left_eq] at same
  obtain ⟨headers, bodies⟩ := List.append_inj same (by simp)
  have lengths : first.length = second.length := by
    have read := congrArg ofBigEndian headers
    rwa [ofBigEndian_bigEndian_of_lt firstFits, ofBigEndian_bigEndian_of_lt secondFits] at read
  exact List.append_inj bodies lengths

end Uqda.Wire
