import Mathlib.Data.List.Basic
import Mathlib.Order.Nat

/-!
# Distances in a tree of coordinates

A node of a rooted tree is the list of the branches that lead from the root to it.  The
distance between two nodes is the length of the way up to their last common ancestor and down
again.  Every node but the destination itself has a neighbour, its parent or the child on the
way to the destination, that is nearer by one.
-/

namespace Uqda.Graph

variable {α : Type} [DecidableEq α]

/-- The number of branches that two coordinates share. -/
def shared : List α → List α → Nat
  | a :: as, b :: bs => if a = b then shared as bs + 1 else 0
  | _, _ => 0

/-- The distance between two nodes. -/
def treeDist (a b : List α) : Nat :=
  a.length + b.length - 2 * shared a b

theorem shared_le_left (a b : List α) : shared a b ≤ a.length := by
  induction a generalizing b with
  | nil => exact Nat.zero_le _
  | cons x a ih =>
      cases b with
      | nil => exact Nat.zero_le _
      | cons y b =>
          rw [shared]
          split
          · exact Nat.succ_le_succ (ih b)
          · exact Nat.zero_le _

theorem shared_le_right (a b : List α) : shared a b ≤ b.length := by
  induction a generalizing b with
  | nil => exact Nat.zero_le _
  | cons x a ih =>
      cases b with
      | nil => exact Nat.zero_le _
      | cons y b =>
          rw [shared]
          split
          · exact Nat.succ_le_succ (ih b)
          · exact Nat.zero_le _

@[simp]
theorem shared_append (a b : List α) : shared a (a ++ b) = a.length := by
  induction a with
  | nil => cases b <;> rfl
  | cons x a ih => simp [shared, ih]

@[simp]
theorem treeDist_self (a : List α) : treeDist a a = 0 := by
  have all := shared_append a []
  rw [List.append_nil] at all
  rw [treeDist, all]
  omega

/-- Downwards the way is what is missing. -/
theorem treeDist_append (a b : List α) : treeDist a (a ++ b) = b.length := by
  rw [treeDist, shared_append, List.length_append]
  omega

/-- A coordinate leads to another one, or leaves the way to it at its last branch. -/
theorem isPrefix_or_exists_concat (a b : List α) :
    (∃ rest, b = a ++ rest) ∨
      ∃ init last, a = init ++ [last] ∧ treeDist a b = treeDist init b + 1 := by
  induction a generalizing b with
  | nil => exact .inl ⟨b, rfl⟩
  | cons x a ih =>
      cases b with
      | nil =>
          have nonempty : x :: a ≠ [] := List.cons_ne_nil x a
          refine .inr ⟨(x :: a).dropLast, (x :: a).getLast nonempty,
            (List.dropLast_append_getLast nonempty).symm, ?_⟩
          have none : ∀ c : List α, shared c [] = 0 := fun c => by cases c <;> rfl
          simp only [treeDist, none, List.length_dropLast, List.length_cons, List.length_nil]
          omega
      | cons y b =>
          by_cases same : x = y
          · subst same
            rcases ih b with ⟨rest, rfl⟩ | ⟨init, last, rfl, nearer⟩
            · exact .inl ⟨rest, rfl⟩
            · refine .inr ⟨x :: init, last, rfl, ?_⟩
              have longer := shared_le_right (init ++ [last]) b
              have shorter := shared_le_right init b
              have longer' := shared_le_left (init ++ [last]) b
              have shorter' := shared_le_left init b
              simp only [treeDist, shared, if_true, List.length_cons] at nearer ⊢
              omega
          · have nonempty : x :: a ≠ [] := List.cons_ne_nil x a
            refine .inr ⟨(x :: a).dropLast, (x :: a).getLast nonempty,
              (List.dropLast_append_getLast nonempty).symm, ?_⟩
            have none : shared (x :: a).dropLast (y :: b) = 0 := by
              cases a with
              | nil => rfl
              | cons z a => simp [shared, same]
            simp only [treeDist, none, List.length_dropLast, List.length_cons]
            rw [shared, if_neg same]
            omega

/-- Unless it is the destination, a node's parent or a child of it is nearer by one. -/
theorem exists_nearer {a b : List α} (different : a ≠ b) :
    (∃ init last, a = init ++ [last] ∧ treeDist a b = treeDist init b + 1) ∨
      ∃ next rest, b = a ++ [next] ++ rest ∧ treeDist a b = treeDist (a ++ [next]) b + 1 := by
  rcases isPrefix_or_exists_concat a b with ⟨rest, rfl⟩ | upwards
  · cases rest with
    | nil => exact absurd (List.append_nil a).symm different
    | cons next rest =>
        refine .inr ⟨next, rest, by simp, ?_⟩
        rw [treeDist_append, ← List.singleton_append, ← List.append_assoc, treeDist_append,
          List.length_append, List.length_singleton]
        omega
  · exact .inl upwards

end Uqda.Graph
