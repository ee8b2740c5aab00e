import Mathlib.Data.List.Basic
import Mathlib.Logic.Function.Basic

/-!
# Tables and heaps

A finite map is a function to `Option`: insertion and deletion are
`Function.update` with `some` and `none`.  A heap is a list of cells: a pointer
is an index, allocation appends, and `List.set` and `List.modify` write.
-/

namespace Uqda.Store

universe u v

variable {κ : Type u} {α : Type v} [DecidableEq κ]

/-- What a table holds after one entry was written or deleted. -/
theorem update_eq_some_iff {table : κ → Option α} {slot other : κ} {entry : Option α}
    {found : α} :
    Function.update table slot entry other = some found ↔
      (other = slot ∧ entry = some found) ∨ (other ≠ slot ∧ table other = some found) := by
  by_cases equal : other = slot
  · subst equal
    simp
  · simp [equal]

/-- Deleting an entry only removes. -/
theorem eq_some_of_update_none {table : κ → Option α} {slot other : κ} {found : α}
    (stored : Function.update table slot none other = some found) :
    table other = some found := by
  rcases update_eq_some_iff.mp stored with ⟨-, absent⟩ | ⟨-, stored⟩
  · cases absent
  · exact stored

/-! ## Heaps -/

variable {cells : List α} {pointer other : Nat} {found : α}

/-- What a heap holds after an allocation. -/
theorem getElem?_concat_eq_some_iff {cell : α} :
    (cells ++ [cell])[other]? = some found ↔
      (other = cells.length ∧ cell = found) ∨ cells[other]? = some found := by
  by_cases atEnd : other = cells.length
  · simp [atEnd]
  · rw [List.getElem?_append]
    split
    · simp [atEnd]
    · have empty : ¬ other - cells.length = 0 := by omega
      simp_all

/-- What a heap holds after an allocated cell was overwritten. -/
theorem getElem?_set_eq_some_iff {old new : α} (present : cells[pointer]? = some old) :
    (cells.set pointer new)[other]? = some found ↔
      (other = pointer ∧ new = found) ∨ (other ≠ pointer ∧ cells[other]? = some found) := by
  obtain ⟨inside, -⟩ := List.getElem?_eq_some_iff.mp present
  by_cases equal : other = pointer
  · subst equal
    simp [List.getElem?_set_self inside]
  · simp [List.getElem?_set_ne (Ne.symm equal), equal]

/-- What a heap holds after a cell was modified. -/
theorem getElem?_modify_eq_some_iff {write : α → α} :
    (cells.modify pointer write)[other]? = some found ↔
      (other = pointer ∧ ∃ old, cells[pointer]? = some old ∧ write old = found) ∨
        (other ≠ pointer ∧ cells[other]? = some found) := by
  by_cases equal : other = pointer
  · subst equal
    simp
  · simp [equal, Ne.symm equal]

end Uqda.Store
