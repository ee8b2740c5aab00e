import Uqda.Multicast.Beacon

/-!
# The beacon codec

The methods of `src/multicast/advertisement.go` on a destination.  `UnmarshalBinary` fills
the fields of its receiver one by one, with slices of the message that the runtime checks
and over the buffers that the receiver already has; here a slice that is out of range is
`none`, and what a rejected message leaves in the receiver is part of the result.

Every message is handled without a fault, a message is accepted exactly when it is as long
as its header declares, and what is accepted is what `MarshalBinary` writes.
-/

namespace Uqda.Multicast

open Uqda.Addressing Uqda.Wire

/-! ## Slices -/

/-- The expression `b[start:stop]`, which faults when the bounds are out of range. -/
def checkedSlice (b : Bytes) (start stop : Nat) : Option Bytes :=
  if start ≤ stop ∧ stop ≤ b.length then some (slice b start stop) else none

/-- `binary.BigEndian.Uint16`, which faults on less than two bytes. -/
def uint16 (b : Bytes) : Option UInt16 :=
  if 2 ≤ b.length then some (UInt16.ofNat (ofBigEndian (b.take 2))) else none

theorem length_slice {b : Bytes} {start stop : Nat} (within : stop ≤ b.length) :
    (slice b start stop).length = stop - start := by
  simp only [slice, List.length_take, List.length_drop]
  omega

theorem slice_zero (b : Bytes) (stop : Nat) : slice b 0 stop = b.take stop :=
  rfl

/-- Adjacent slices make one slice. -/
theorem slice_append_slice (b : Bytes) {start middle stop : Nat} (first : start ≤ middle)
    (second : middle ≤ stop) :
    slice b start middle ++ slice b middle stop = slice b start stop := by
  have whole : stop - start = (middle - start) + (stop - middle) := by omega
  have offset : start + (middle - start) = middle := by omega
  rw [slice, slice, slice, whole, List.take_add, List.drop_drop, offset]

/-- A slice does not see what follows it. -/
theorem slice_append_of_le {b : Bytes} {start stop : Nat} (trailing : Bytes)
    (within : stop ≤ b.length) : slice (b ++ trailing) start stop = slice b start stop := by
  by_cases ordered : start ≤ stop
  · rw [slice, slice, List.drop_append_of_le_length (ordered.trans within),
      List.take_append_of_le_length]
    rw [List.length_drop]
    omega
  · have empty : stop - start = 0 := by omega
    simp [slice, empty]

theorem checkedSlice_of_le {b : Bytes} {start stop : Nat} (ordered : start ≤ stop)
    (within : stop ≤ b.length) : checkedSlice b start stop = some (slice b start stop) :=
  if_pos ⟨ordered, within⟩

/-- A number of two bytes that is in range is read. -/
theorem uint16_slice {b : Bytes} {start : Nat} (within : start + 2 ≤ b.length) :
    uint16 (slice b start (start + 2)) =
      some (UInt16.ofNat (ofBigEndian (slice b start (start + 2)))) := by
  have two : (slice b start (start + 2)).length = 2 := by
    rw [length_slice within]
    omega
  rw [uint16, if_pos two.ge, List.take_of_length_le two.le]

/-- Reading a number of two bytes and writing it again. -/
theorem bigEndian_toNat_slice {b : Bytes} {start : Nat} (within : start + 2 ≤ b.length) :
    bigEndian 2 (UInt16.ofNat (ofBigEndian (slice b start (start + 2)))).toNat =
      slice b start (start + 2) := by
  have two : (slice b start (start + 2)).length = 2 := by
    rw [length_slice within]
    omega
  have bound : ofBigEndian (slice b start (start + 2)) < 65536 := by
    have := ofBigEndian_lt (slice b start (start + 2))
    rwa [two] at this
  rw [UInt16.toNat_ofNat_of_lt' bound, bigEndian_two_ofBigEndian two]

/-! ## The receiver -/

/-- The error of `UnmarshalBinary`. -/
def invalidBeacon : String := "invalid multicast beacon"

/-- `UnmarshalBinary` on the receiver `m`: the error, if there is one, and the receiver
afterwards.  `none` is a fault. -/
def Advertisement.unmarshalBinary (m : Advertisement) (b : Bytes) :
    Option (Except String Unit × Advertisement) := do
  if b.length < headerLen then
    return (.error invalidBeacon, m)
  let majorVersion ← uint16 (← checkedSlice b 0 2)
  let m := { m with majorVersion := majorVersion }
  let minorVersion ← uint16 (← checkedSlice b 2 4)
  let m := { m with minorVersion := minorVersion }
  let publicKey ← checkedSlice b 4 (4 + publicKeySize)
  -- `append` to the empty front of the receiver's own buffer
  let m := { m with publicKey := m.publicKey.take 0 ++ publicKey }
  let port ← uint16 (← checkedSlice b (4 + publicKeySize) (6 + publicKeySize))
  let m := { m with port := port }
  let dl ← uint16 (← checkedSlice b (6 + publicKeySize) (8 + publicKeySize))
  if b.length < headerLen + dl.toNat then
    return (.error invalidBeacon, m)
  let hash ← checkedSlice b headerLen (headerLen + dl.toNat)
  return (.ok (), { m with hash := m.hash.take 0 ++ hash })

/-- The receiver after the fixed part of the message. -/
def Advertisement.withHeader (m : Advertisement) (b : Bytes) : Advertisement where
  majorVersion := UInt16.ofNat (ofBigEndian (slice b 0 2))
  minorVersion := UInt16.ofNat (ofBigEndian (slice b 2 4))
  publicKey := slice b 4 36
  port := UInt16.ofNat (ofBigEndian (slice b 36 38))
  hash := m.hash

/-- The length of the hash that the header declares. -/
def declaredLength (b : Bytes) : Nat := ofBigEndian (slice b 38 40)

theorem toNat_declaredLength {b : Bytes} (header : 40 ≤ b.length) :
    (UInt16.ofNat (ofBigEndian (slice b 38 40))).toNat = declaredLength b := by
  have two : (slice b 38 40).length = 2 := length_slice header
  have bound := ofBigEndian_lt (slice b 38 40)
  rw [two] at bound
  exact UInt16.toNat_ofNat_of_lt' bound

/-- What `UnmarshalBinary` does with each message, for any receiver.  There is no fault. -/
theorem Advertisement.unmarshalBinary_eq (m : Advertisement) (b : Bytes) :
    m.unmarshalBinary b =
      some
        (if b.length < 40 then (.error invalidBeacon, m)
        else if b.length < 40 + declaredLength b then (.error invalidBeacon, m.withHeader b)
        else
          (.ok (), { m.withHeader b with hash := slice b 40 (40 + declaredLength b) })) := by
  by_cases header : b.length < 40
  · simp [Advertisement.unmarshalBinary, headerLen, publicKeySize, header]
  · have long : 40 ≤ b.length := Nat.le_of_not_lt header
    have part : ∀ start stop, start ≤ stop → stop ≤ 40 →
        checkedSlice b start stop = some (slice b start stop) :=
      fun start stop ordered inside => checkedSlice_of_le ordered (inside.trans long)
    have number : ∀ start, start + 2 ≤ 40 →
        uint16 (slice b start (start + 2)) =
          some (UInt16.ofNat (ofBigEndian (slice b start (start + 2)))) :=
      fun start inside => uint16_slice (inside.trans long)
    have major := number 0 (by omega)
    have minor := number 2 (by omega)
    have port := number 36 (by omega)
    have count := number 38 (by omega)
    simp only [Nat.reduceAdd] at major minor port count
    by_cases whole : b.length < 40 + declaredLength b
    · simp [Advertisement.unmarshalBinary, Advertisement.withHeader, headerLen, publicKeySize,
        header, part, major, minor, port, count, whole, toNat_declaredLength long]
    · have hash : checkedSlice b 40 (40 + declaredLength b) =
          some (slice b 40 (40 + declaredLength b)) :=
        checkedSlice_of_le (by omega) (by omega)
      simp [Advertisement.unmarshalBinary, Advertisement.withHeader, headerLen, publicKeySize,
        header, part, major, minor, port, count, whole, hash, toNat_declaredLength long]

/-- The receiver does not matter: a message is accepted as it is by a new one. -/
theorem Advertisement.unmarshalBinary_eq_ok_iff {m adv : Advertisement} {b : Bytes} :
    m.unmarshalBinary b = some (.ok (), adv) ↔ Multicast.unmarshalBinary b = some adv := by
  have fresh : Multicast.unmarshalBinary b =
      if b.length < 40 then none
      else if b.length < 40 + declaredLength b then none
      else some { m.withHeader b with hash := slice b 40 (40 + declaredLength b) } := rfl
  rw [Advertisement.unmarshalBinary_eq, fresh]
  by_cases header : b.length < 40
  · simp [header]
  · by_cases whole : b.length < 40 + declaredLength b
    · simp [header, whole]
    · simp [header, whole]

/-! ## The two directions -/

/-- The fields that were read, written again. -/
theorem marshalBinary_of_accepted {m : Advertisement} {b : Bytes}
    (whole : 40 + declaredLength b ≤ b.length) :
    Advertisement.marshalBinary
        { m.withHeader b with hash := slice b 40 (40 + declaredLength b) } =
      b.take (40 + declaredLength b) := by
  have major := @bigEndian_toNat_slice b 0 (by omega)
  have minor := @bigEndian_toNat_slice b 2 (by omega)
  have port := @bigEndian_toNat_slice b 36 (by omega)
  have count : bigEndian 2 (slice b 40 (40 + declaredLength b)).length = slice b 38 40 := by
    rw [length_slice whole, Nat.add_sub_cancel_left]
    exact bigEndian_two_ofBigEndian (length_slice (by omega))
  simp only [Nat.reduceAdd] at major minor port
  simp only [Advertisement.marshalBinary, Advertisement.withHeader, major, minor, port, count]
  rw [slice_append_slice b (by omega) (by omega), slice_append_slice b (by omega) (by omega),
    slice_append_slice b (by omega) (by omega), slice_append_slice b (by omega) (by omega),
    slice_append_slice b (by omega) (by omega), slice_zero]

/-- A message that starts with a marshalled advertisement is read back into any receiver. -/
theorem Advertisement.unmarshalBinary_marshalBinary_append {m receiver : Advertisement}
    (trailing : Bytes) (size : m.publicKey.length = publicKeySize)
    (short : m.hash.length < 65536) :
    receiver.unmarshalBinary (m.marshalBinary ++ trailing) = some (.ok (), m) := by
  have length : m.marshalBinary.length = 40 + m.hash.length := length_marshalBinary size
  obtain ⟨major, minor, key, port, count, hash⟩ := slices_marshalBinary size
  have part : ∀ start stop, stop ≤ 40 + m.hash.length →
      slice (m.marshalBinary ++ trailing) start stop = slice m.marshalBinary start stop :=
    fun start stop within => slice_append_of_le trailing (length ▸ within)
  simp only [publicKeySize, headerLen, Nat.reduceAdd] at major minor key port count hash
  have declared : declaredLength (m.marshalBinary ++ trailing) = m.hash.length := by
    rw [declaredLength, part 38 40 (by omega), count]
    exact ofBigEndian_bigEndian_of_lt short
  have total : (m.marshalBinary ++ trailing).length = 40 + m.hash.length + trailing.length := by
    rw [List.length_append, length]
  rw [Advertisement.unmarshalBinary_eq, declared, if_neg (by omega), if_neg (by omega)]
  simp only [Advertisement.withHeader, part _ _ (Nat.le_refl _),
    part 0 2 (by omega), part 2 4 (by omega), part 4 36 (by omega), part 36 38 (by omega),
    major, minor, key, port, hash, ofNat_ofBigEndian_bigEndian]

/-- The beacon codec.  An advertisement with a public key and a hash whose length is a number
of 16 bits is read back from its encoding, whatever follows.  Every message is handled
without a fault, it is accepted exactly when its header is complete and its hash is as long
as declared, and what is accepted is the advertisement whose encoding it starts with. -/
theorem unmarshalBinary_marshalBinary_iff :
    (∀ (receiver m : Advertisement) (trailing : Bytes), m.publicKey.length = 32 →
        m.hash.length < 65536 →
          receiver.unmarshalBinary (m.marshalBinary ++ trailing) = some (.ok (), m)) ∧
      ∀ (receiver : Advertisement) (b : Bytes),
        ∃ err after, receiver.unmarshalBinary b = some (err, after) ∧
          (err = .ok () ↔ 40 ≤ b.length ∧ 40 + ofBigEndian (slice b 38 40) ≤ b.length) ∧
          (err = .ok () →
            after.marshalBinary = b.take (40 + ofBigEndian (slice b 38 40))) := by
  refine ⟨fun receiver m trailing size short =>
    Advertisement.unmarshalBinary_marshalBinary_append trailing size short, ?_⟩
  intro receiver b
  rw [Advertisement.unmarshalBinary_eq, ← declaredLength]
  by_cases header : b.length < 40
  · rw [if_pos header]
    refine ⟨_, _, rfl, ?_, by simp⟩
    simp [Nat.not_le.mpr header]
  · rw [if_neg header]
    by_cases whole : b.length < 40 + declaredLength b
    · rw [if_pos whole]
      refine ⟨_, _, rfl, ?_, by simp⟩
      simp [Nat.not_le.mpr whole]
    · rw [if_neg whole]
      have long : 40 + declaredLength b ≤ b.length := Nat.le_of_not_lt whole
      refine ⟨_, _, rfl, ?_, fun _ => marshalBinary_of_accepted long⟩
      simp only [true_iff]
      exact ⟨Nat.le_of_not_lt header, long⟩

/-- An advertisement with a hash of 64 bytes, followed by one byte, over a receiver that was
filled before. -/
theorem unmarshalBinary_marshalBinary_reused :
    let m : Advertisement := ⟨1, 2, List.replicate 32 7, 3, List.replicate 64 8⟩
    let receiver : Advertisement := ⟨9, 9, [1, 2, 3], 9, [4]⟩
    receiver.unmarshalBinary (m.marshalBinary ++ [5]) = some (.ok (), m) :=
  unmarshalBinary_marshalBinary_iff.1 _ _ _ (by decide) (by decide)

end Uqda.Multicast
