import Uqda.Bits.Octet
import Mathlib.Data.Bool.Basic

/-!
# Lexicographic order

Lists are compared from the front, and `false` is below `true`.  For bit lists of
one length this is the order of the numbers that they spell, so octet strings of
one length are ordered as their bits are.
-/

namespace Uqda.Bits

section Order

variable {α : Type} [LT α]

/-- Lists with fronts of one length are compared by the fronts first. -/
theorem append_lt_append_iff {front other left right : List α}
    (same : front.length = other.length) [Std.Irrefl (· < · : α → α → Prop)] :
    front ++ left < other ++ right ↔ front < other ∨ front = other ∧ left < right := by
  induction front generalizing other with
  | nil =>
      obtain rfl := List.length_eq_zero_iff.mp same.symm
      simp
  | cons first front ih =>
      cases other with
      | nil => simp at same
      | cons second other =>
          have tails := ih (Nat.succ.inj same)
          simp only [List.cons_append, List.cons_lt_cons_iff, tails, List.cons.injEq]
          constructor
          · rintro (below | ⟨rfl, below | ⟨rfl, below⟩⟩)
            · exact .inl (.inl below)
            · exact .inl (.inr ⟨rfl, below⟩)
            · exact .inr ⟨⟨rfl, rfl⟩, below⟩
          · rintro ((below | ⟨rfl, below⟩) | ⟨⟨rfl, rfl⟩, below⟩)
            · exact .inl below
            · exact .inr ⟨rfl, .inl below⟩
            · exact .inr ⟨rfl, .inr ⟨rfl, below⟩⟩

variable [Std.Asymm (· < · : α → α → Prop)]

/-- A common end keeps the order. -/
theorem append_le_append {left right : List α} (same : left.length = right.length)
    (ordered : left ≤ right) (back : List α) : left ++ back ≤ right ++ back := by
  intro above
  rcases (append_lt_append_iff same.symm).mp above with below | ⟨-, below⟩
  · exact ordered below
  · exact List.lt_irrefl back below

variable [Std.Trichotomous (· < · : α → α → Prop)]

/-- Cutting off the ends keeps the order. -/
theorem take_le_take {left right : List α} (ordered : left ≤ right) (count : Nat) :
    left.take count ≤ right.take count := by
  induction left generalizing right count with
  | nil =>
      rw [List.take_nil]
      exact List.nil_le _
  | cons first left ih =>
      cases right with
      | nil => exact absurd ordered (by simp)
      | cons second right =>
          cases count with
          | zero => exact List.nil_le _
          | succ count =>
              rw [List.take_succ_cons, List.take_succ_cons, List.cons_le_cons_iff]
              rcases List.cons_le_cons_iff.mp ordered with below | ⟨rfl, tails⟩
              · exact .inl below
              · exact .inr ⟨rfl, ih tails count⟩

end Order

/-! ## Bits and octets -/

/-- The number that bits spell, most significant first. -/
def ofBits : List Bool → Nat
  | [] => 0
  | bit :: bits => bit.toNat * 2 ^ bits.length + ofBits bits

theorem ofBits_lt (bits : List Bool) : ofBits bits < 2 ^ bits.length := by
  induction bits with
  | nil => exact Nat.one_pos
  | cons bit bits ih =>
      have carry : bit.toNat ≤ 1 := Bool.toNat_le bit
      rw [ofBits, List.length_cons, Nat.pow_succ]
      nlinarith

theorem lt_iff_ofBits_lt {left right : List Bool} (same : left.length = right.length) :
    left < right ↔ ofBits left < ofBits right := by
  induction left generalizing right with
  | nil =>
      obtain rfl := List.length_eq_zero_iff.mp same.symm
      simp
  | cons bit left ih =>
      cases right with
      | nil => simp at same
      | cons other right =>
          have lengths := Nat.succ.inj same
          have leftBound := ofBits_lt left
          have rightBound := ofBits_lt right
          rw [lengths] at leftBound
          rw [List.cons_lt_cons_iff, ih lengths, ofBits, ofBits, lengths]
          cases bit <;> cases other <;> simp [Bool.lt_iff] <;> omega

theorem unpackOctet_lt_iff (left right : UInt8) :
    unpackOctet left < unpackOctet right ↔ left < right := by
  have spelled : ∀ octet, ofBits (unpackOctet octet) = octet.toNat :=
    forall_octet (by decide +kernel)
  rw [lt_iff_ofBits_lt (by simp), spelled, spelled, UInt8.lt_iff_toNat_lt]

/-- Octet strings of one length are ordered as their bits are. -/
theorem unpack_lt_iff {left right : List UInt8} (same : left.length = right.length) :
    unpack left < unpack right ↔ left < right := by
  induction left generalizing right with
  | nil =>
      obtain rfl := List.length_eq_zero_iff.mp same.symm
      simp
  | cons octet left ih =>
      cases right with
      | nil => simp at same
      | cons other right =>
          rw [unpack_cons, unpack_cons, append_lt_append_iff (by simp), unpackOctet_lt_iff,
            unpackOctet_inj, ih (Nat.succ.inj same), List.cons_lt_cons_iff]

/-- Grouping bits into octets keeps the order. -/
theorem pack_le_pack {left right : List Bool} (same : left.length = right.length)
    (ordered : ¬right < left) : pack left ≤ pack right := by
  have shown : ∀ bits : List Bool, unpack (pack bits) = bits.take (8 * (bits.length / 8)) := by
    intro bits
    rw [← unpack_take_pack (by omega), List.take_of_length_le (length_pack bits).le]
  intro above
  rw [← unpack_lt_iff (by rw [length_pack, length_pack, same]), shown, shown, same] at above
  exact take_le_take ordered _ above

/-- Complementing the bits turns the order around. -/
theorem map_not_lt_iff {left right : List Bool} (same : left.length = right.length) :
    left.map (! ·) < right.map (! ·) ↔ right < left := by
  induction left generalizing right with
  | nil =>
      obtain rfl := List.length_eq_zero_iff.mp same.symm
      simp
  | cons bit left ih =>
      cases right with
      | nil => simp at same
      | cons other right =>
          rw [List.map_cons, List.map_cons, List.cons_lt_cons_iff, List.cons_lt_cons_iff,
            ih (Nat.succ.inj same)]
          cases bit <;> cases other <;> simp [Bool.lt_iff]

/-- Runs of ones are compared by their lengths first. -/
theorem run_lt_run {short long : Nat} {left right : List Bool}
    (below : List.replicate short true ++ false :: left <
      List.replicate long true ++ false :: right) :
    short < long ∨ short = long ∧ left < right := by
  induction short generalizing long with
  | zero =>
      cases long with
      | zero => simpa [List.cons_lt_cons_iff] using below
      | succ long => exact .inl (Nat.succ_pos long)
  | succ short ih =>
      cases long with
      | zero => simp [List.replicate_succ, List.cons_lt_cons_iff, Bool.lt_iff] at below
      | succ long =>
          simp only [List.replicate_succ, List.cons_append, List.cons_lt_cons_iff] at below
          rcases below with above | ⟨-, below⟩
          · exact absurd above (by decide)
          · rcases ih below with fewer | ⟨rfl, rest⟩
            · exact .inl (Nat.succ_lt_succ fewer)
            · exact .inr ⟨rfl, rest⟩

end Uqda.Bits
