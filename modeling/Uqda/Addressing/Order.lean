import Uqda.Addressing.RoundTrip
import Uqda.Bits.Lex
import Mathlib.Data.List.TakeWhile

/-!
# Better keys and higher addresses

`isBetter` of `cmd/genkeys/main.go` prefers the smaller key, because its address
should be the higher one.  A smaller key has a larger complement, hence a longer
run of leading ones, or the same run and a larger payload.  The run is counted in
one byte: all keys but one keep within it, and the all-zero key wraps around to the
lowest address.
-/

namespace Uqda.Addressing

open Uqda.Bits

/-- `isBetter`, `none` for an index out of range. -/
def isBetter : (oldPub newPub : PublicKey) → Option Bool
  | [], _ => some false
  | _ :: _, [] => none
  | old :: oldPub, new :: newPub =>
      if new < old then
        some true
      else if new > old then
        some false
      else
        isBetter oldPub newPub

/-- Of keys of one length the smaller one is better. -/
theorem isBetter_iff {oldPub newPub : PublicKey} (same : oldPub.length = newPub.length) :
    isBetter oldPub newPub = some true ↔ newPub < oldPub := by
  induction oldPub generalizing newPub with
  | nil =>
      obtain rfl := List.length_eq_zero_iff.mp same.symm
      simp [isBetter, List.not_lt_nil]
  | cons old oldPub ih =>
      cases newPub with
      | nil => simp at same
      | cons new newPub =>
          rw [isBetter, List.cons_lt_cons_iff]
          by_cases below : new < old
          · simp [below]
          · by_cases above : new > old
            · have different : new ≠ old := by
                rintro rfl
                exact UInt8.lt_irrefl _ above
              simp [below, above, different]
            · have equal : new = old :=
                UInt8.le_antisymm (UInt8.not_lt.mp above) (UInt8.not_lt.mp below)
              rw [if_neg below, if_neg above, ih (Nat.succ.inj same)]
              simp [equal]

theorem assemble_le_iff {ones other : UInt8} {left right : List UInt8} :
    (assemble ones left).toList ≤ (assemble other right).toList ↔
      ones < other ∨ ones = other ∧
        (left ++ List.replicate 14 0).take 14 ≤ (right ++ List.replicate 14 0).take 14 := by
  rw [toList_assemble, toList_assemble, List.cons_le_cons_iff, List.cons_le_cons_iff]
  simp

/-! ## Keys with a one bit -/

/-- The all-zero key. -/
abbrev zeroKey : PublicKey :=
  List.replicate publicKeySize 0

theorem unpack_zeroKey : unpack zeroKey = List.replicate 256 false := by
  rw [zeroKey, unpack_replicate_zero]
  rfl

/-- Every other key has at most 255 leading zero bits. -/
theorem leadingZeros_le {key : PublicKey} (size : key.length = publicKeySize)
    (nonzero : key ≠ zeroKey) : leadingZeros key ≤ 255 := by
  by_contra many
  have bits : (unpack key).length = 256 := by rw [length_unpack, size]; rfl
  apply nonzero
  rw [← unpack_inj, unpack_zeroKey, List.eq_replicate_iff]
  have all : (unpack key).takeWhile (! ·) = unpack key := by
    apply List.IsPrefix.eq_of_length (List.takeWhile_prefix _)
    have bound := (List.takeWhile_prefix (l := unpack key) (! ·)).length_le
    rw [leadingZeros] at many
    omega
  refine ⟨bits, fun bit member => ?_⟩
  simpa using List.takeWhile_eq_self_iff.mp all bit member

theorem padded_le_padded {left right : List UInt8} (same : left.length = right.length)
    (ordered : left ≤ right) :
    (left ++ List.replicate 14 0).take 14 ≤ (right ++ List.replicate 14 0).take 14 :=
  take_le_take (append_le_append same ordered _) 14

/-- The address of the smaller of two keys is at least as high. -/
theorem exists_addr_le {old new : PublicKey} (oldSize : old.length = publicKeySize)
    (newSize : new.length = publicKeySize) (oldOne : old ≠ zeroKey) (newOne : new ≠ zeroKey)
    (better : new < old) :
    ∃ a b, addrForKey old = some a ∧ addrForKey new = some b ∧ a.toList ≤ b.toList := by
  obtain ⟨oldRest, oldLength, oldShape⟩ :=
    exists_complement oldSize (leadingZeros_le oldSize oldOne)
  obtain ⟨newRest, newLength, newShape⟩ :=
    exists_complement newSize (leadingZeros_le newSize newOne)
  refine ⟨_, _, addrForKey_of_run oldSize oldShape, addrForKey_of_run newSize newShape, ?_⟩
  have below : (unpack old).map (! ·) < (unpack new).map (! ·) := by
    rw [map_not_lt_iff (by rw [length_unpack, length_unpack, oldSize, newSize]),
      unpack_lt_iff (by rw [oldSize, newSize])]
    exact better
  rw [oldShape, newShape] at below
  rw [assemble_le_iff]
  rcases run_lt_run below with fewer | ⟨same, rest⟩
  · have small := leadingZeros_le newSize newOne
    refine .inl ?_
    rw [UInt8.lt_iff_toNat_lt, UInt8.toNat_ofNat_of_lt' (by simp only [UInt8.size]; omega),
      UInt8.toNat_ofNat_of_lt' (by simp only [UInt8.size]; omega)]
    exact fewer
  · have lengths : oldRest.length = newRest.length := by omega
    refine .inr ⟨by rw [same], ?_⟩
    apply padded_le_padded (by rw [length_pack, length_pack, lengths])
    exact pack_le_pack lengths (List.lt_asymm rest)

/-! ## The all-zero key -/

theorem le_zeros_iff {octets : List UInt8} {count : Nat} (size : octets.length = count) :
    octets ≤ List.replicate count 0 ↔ octets = List.replicate count 0 := by
  subst size
  induction octets with
  | nil => simp
  | cons octet octets ih =>
      rw [List.length_cons, List.replicate_succ, List.cons_le_cons_iff, ih, List.cons.injEq]
      exact or_iff_right (UInt8.not_lt.mpr UInt8.zero_le)

/-- The address of a key is no higher than the one the counter wraps around to only
if the key begins with 113 ones. -/
theorem assemble_le_zero_iff {key : PublicKey} {rest : List Bool}
    (shape : (unpack key).map (! ·) =
      List.replicate (leadingZeros key) true ++ false :: rest)
    (length : rest.length = 255 - leadingZeros key) (few : leadingZeros key ≤ 255) :
    (assemble (UInt8.ofNat (leadingZeros key)) (pack rest)).toList ≤ (assemble 0 []).toList ↔
      (unpack key).take 113 = List.replicate 113 true := by
  have bits := unpack_of_complement shape
  rw [assemble_le_iff, or_iff_right (UInt8.not_lt.mpr UInt8.zero_le), List.nil_append,
    List.take_of_length_le (List.length_replicate ..).le, le_zeros_iff (by simp)]
  cases zeros : leadingZeros key with
  | zero =>
      rw [zeros] at bits length
      have shown : (pack rest ++ List.replicate 14 0).take 14 = (pack rest).take 14 := by
        rw [List.take_append_of_le_length]
        rw [length_pack]
        omega
      have front : (unpack key).take 113 = true :: (rest.take 112).map (! ·) := by
        rw [bits, List.map_take]
        rfl
      have ones : List.replicate 113 true = true :: List.replicate 112 true := rfl
      rw [shown, front, ones, ← unpack_inj, unpack_take_pack (by omega), unpack_replicate_zero,
        List.cons.injEq]
      constructor
      · rintro ⟨-, same⟩
        exact ⟨rfl, by rw [same, List.map_replicate]; rfl⟩
      · rintro ⟨-, same⟩
        have complement := congrArg (List.map (! ·)) same
        rw [List.map_map, List.map_replicate] at complement
        simp only [Function.comp_def, Bool.not_not, List.map_id'] at complement
        exact ⟨rfl, complement⟩
  | succ count =>
      rw [zeros] at bits few
      constructor
      · rintro ⟨wrapped, -⟩
        have number := congrArg UInt8.toNat wrapped
        rw [UInt8.toNat_ofNat_of_lt' (by simp only [UInt8.size]; omega)] at number
        exact absurd number (Nat.succ_ne_zero count)
      · intro ones
        rw [bits, List.replicate_succ, List.replicate_succ] at ones
        exact absurd (List.cons.inj ones).1 (by decide)

theorem addrForKey_zeroKey : addrForKey zeroKey = some (assemble 0 []) := by
  apply addrForKey_of_zero rfl
  rw [unpack_zeroKey, List.map_replicate]
  rfl

theorem not_lt_zeroKey {key : PublicKey} (size : key.length = publicKeySize) : ¬key < zeroKey := by
  intro below
  have equal := (le_zeros_iff size).mp (List.le_of_lt below)
  exact List.lt_irrefl _ (equal ▸ below)

/-- The address of a better key is at least as high, unless the better key is the
all-zero one and the other has a zero among its first 113 bits and is not all zero. -/
theorem better_higher_iff {old new : PublicKey} (oldSize : old.length = publicKeySize)
    (newSize : new.length = publicKeySize) :
    ∃ a b, addrForKey old = some a ∧ addrForKey new = some b ∧
      ((isBetter old new = some true → a.toList ≤ b.toList) ↔
        (new = zeroKey → old = zeroKey ∨ (unpack old).take 113 = List.replicate 113 true)) := by
  rw [isBetter_iff (oldSize.trans newSize.symm)]
  by_cases newZero : new = zeroKey
  · subst newZero
    by_cases oldZero : old = zeroKey
    · subst oldZero
      refine ⟨_, _, addrForKey_zeroKey, addrForKey_zeroKey, ?_⟩
      exact iff_of_true (fun _ => List.le_refl _) fun _ => .inl rfl
    · have few := leadingZeros_le oldSize oldZero
      obtain ⟨rest, length, shape⟩ := exists_complement oldSize few
      refine ⟨_, _, addrForKey_of_run oldSize shape, addrForKey_zeroKey, ?_⟩
      have smaller : zeroKey < old := by
        by_contra above
        exact oldZero ((le_zeros_iff oldSize).mp above)
      rw [assemble_le_zero_iff shape length few]
      simp only [smaller, oldZero, false_or, forall_const]
  · obtain ⟨_, _, -, oldAddr⟩ := exists_assemble oldSize
    obtain ⟨_, _, -, newAddr⟩ := exists_assemble newSize
    refine ⟨_, _, oldAddr, newAddr, iff_of_true (fun better => ?_) fun same => absurd same newZero⟩
    have oldOne : old ≠ zeroKey := by
      rintro rfl
      exact not_lt_zeroKey newSize better
    obtain ⟨a, b, fromOld, fromNew, ordered⟩ :=
      exists_addr_le oldSize newSize oldOne newZero better
    obtain rfl := Option.some.inj (oldAddr.symm.trans fromOld)
    obtain rfl := Option.some.inj (newAddr.symm.trans fromNew)
    exact ordered

/-- A key with two leading zero bits is improved on by one with eight. -/
theorem better_higher_eightZeros :
    ∃ a b, addrForKey (List.replicate 32 0x20) = some a ∧
      addrForKey (0x00 :: List.replicate 31 0xff) = some b ∧
      isBetter (List.replicate 32 0x20) (0x00 :: List.replicate 31 0xff) = some true ∧
      a.toList ≤ b.toList := by
  have better : isBetter (List.replicate 32 0x20) (0x00 :: List.replicate 31 0xff) = some true := by
    decide
  obtain ⟨a, b, old, new, exact⟩ := @better_higher_iff (List.replicate 32 0x20)
    (0x00 :: List.replicate 31 0xff) rfl rfl
  exact ⟨a, b, old, new, better, exact.mpr (fun same => absurd same (by decide)) better⟩

/-- The all-zero key is better than a key with a single one bit and has a lower
address. -/
theorem zeroKey_better_lower :
    isBetter (List.replicate 31 0 ++ [1]) zeroKey = some true ∧
      ∃ a b, addrForKey (List.replicate 31 0 ++ [1]) = some a ∧ addrForKey zeroKey = some b ∧
        ¬a.toList ≤ b.toList := by
  have better : isBetter (List.replicate 31 0 ++ [1]) zeroKey = some true := by
    decide
  obtain ⟨rest, length, shape⟩ := @exists_complement (List.replicate 31 0 ++ [1]) rfl
    (by decide +kernel)
  refine ⟨better, _, _, addrForKey_of_run rfl shape, addrForKey_zeroKey, ?_⟩
  rw [assemble_le_zero_iff shape length (by decide +kernel)]
  decide +kernel

end Uqda.Addressing
