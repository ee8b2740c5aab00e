import Mathlib.Data.List.Sort

/-!
# Comparators and stable sorting

A comparator returns a number whose sign says which of two elements comes first.  It is
often a chain of differences, and a difference in a fixed-width type or a truncated one may
have the wrong sign.  The order that a comparator is meant to have is a function to
`Ordering`; the comparator agrees with it on two elements if it has its sign.

On the elements of a list, a comparator is a strict weak ordering and sorts every
arrangement of them in the order that is meant exactly if it agrees with it everywhere.
-/

namespace Uqda.Sorting

open List

universe u v

variable {α : Type u} {β : Type v}

/-- `slices.SortStableFunc`: a stable sort by a comparator that is a strict weak ordering. -/
def sortStableFunc (l : List α) (cmp : α → α → Int) : List α :=
  l.insertionSort fun a b => cmp a b ≤ 0

/-- The comparator is a strict weak ordering of the elements. -/
structure StrictWeakOrdering (cmp : α → α → Int) (l : List α) : Prop where
  opposite : ∀ a ∈ l, ∀ b ∈ l, cmp a b < 0 ∧ 0 < cmp b a ∨ 0 < cmp a b ∧ cmp b a < 0 ∨
    cmp a b = 0 ∧ cmp b a = 0
  less_trans : ∀ a ∈ l, ∀ b ∈ l, ∀ c ∈ l, cmp a b < 0 → cmp b c < 0 → cmp a c < 0
  equal_trans : ∀ a ∈ l, ∀ b ∈ l, ∀ c ∈ l, cmp a b = 0 → cmp b c = 0 → cmp a c = 0

/-- The comparator has the sign that is meant. -/
def Agrees (cmp : α → α → Int) (order : α → α → Ordering) (a b : α) : Prop :=
  compare (cmp a b) 0 = order a b

/-- The elements stand in the order that is meant. -/
def InOrder (order : α → α → Ordering) (l : List α) : Prop :=
  l.Pairwise fun a b => (order a b).isLE

/-! ## Chains -/

/-- A comparator that returns a value if its elements differ in a first key, and goes on
otherwise, agrees with the lexicographic order if the value has the right sign and what
follows agrees on elements with the same key. -/
theorem compare_ite_eq_then_iff {differ : Prop} [Decidable differ] {value next : Int}
    {first rest : Ordering} (differ_iff : differ ↔ first ≠ .eq) :
    compare (if differ then value else next) 0 = first.then rest ↔
      (first ≠ .eq → compare value 0 = first) ∧ (first = .eq → compare next 0 = rest) := by
  by_cases same : first = .eq
  · subst same
    rw [if_neg (fun differs => differ_iff.mp differs rfl)]
    simp
  · rw [if_pos (differ_iff.mpr same)]
    cases first <;> simp_all

theorem compare_eq_iff {value : Int} {sign : Ordering} :
    compare value 0 = sign ↔
      (sign = .lt ∧ value < 0 ∨ sign = .eq ∧ value = 0 ∨ sign = .gt ∧ 0 < value) := by
  cases sign
  · simp [Int.compare_eq_lt]
  · simp
  · simp [Int.compare_eq_gt]

/-! ## Agreement -/

section Agreement

variable {cmp : α → α → Int} {order : α → α → Ordering} {a b : α}

theorem Agrees.neg_iff (agrees : Agrees cmp order a b) : cmp a b < 0 ↔ order a b = .lt := by
  rw [← agrees, Int.compare_eq_lt]

theorem Agrees.zero_iff (agrees : Agrees cmp order a b) : cmp a b = 0 ↔ order a b = .eq := by
  rw [← agrees, Std.compare_eq_iff_eq]

theorem Agrees.pos_iff (agrees : Agrees cmp order a b) : 0 < cmp a b ↔ order a b = .gt := by
  rw [← agrees, Int.compare_eq_gt]

theorem Agrees.nonpos_iff (agrees : Agrees cmp order a b) :
    cmp a b ≤ 0 ↔ (order a b).isLE := by
  rw [← Int.not_lt, agrees.pos_iff]
  cases order a b <;> simp

variable [Std.TransCmp order] {l : List α}

theorem strictWeakOrdering_of_agrees (agrees : ∀ a ∈ l, ∀ b ∈ l, Agrees cmp order a b) :
    StrictWeakOrdering cmp l where
  opposite a left b right := by
    have swap : order b a = (order a b).swap := Std.OrientedCmp.eq_swap
    rw [(agrees a left b right).neg_iff, (agrees a left b right).zero_iff,
      (agrees a left b right).pos_iff, (agrees b right a left).neg_iff,
      (agrees b right a left).zero_iff, (agrees b right a left).pos_iff, swap]
    cases order a b <;> simp
  less_trans a left b middle c right := by
    rw [(agrees a left b middle).neg_iff, (agrees b middle c right).neg_iff,
      (agrees a left c right).neg_iff]
    exact Std.TransCmp.lt_trans
  equal_trans a left b middle c right := by
    rw [(agrees a left b middle).zero_iff, (agrees b middle c right).zero_iff,
      (agrees a left c right).zero_iff]
    exact Std.TransCmp.eq_trans

/-- A comparator that agrees everywhere sorts in the order that is meant. -/
theorem inOrder_sortStableFunc (agrees : ∀ a ∈ l, ∀ b ∈ l, Agrees cmp order a b) :
    InOrder order (sortStableFunc l cmp) := by
  have same : sortStableFunc l cmp = l.insertionSort fun a b => (order a b).isLE := by
    simpa [sortStableFunc] using
      map_insertionSort (fun a b => cmp a b ≤ 0) (fun a b => (order a b).isLE) id l
        fun a left b right => (agrees a left b right).nonpos_iff
  have : Std.Total fun a b => ((order a b).isLE : Prop) := ⟨fun a b => by
    have swap : order b a = (order a b).swap := Std.OrientedCmp.eq_swap
    rw [swap]
    cases order a b <;> simp⟩
  have : IsTrans α fun a b => ((order a b).isLE : Prop) :=
    ⟨fun _ _ _ => Std.TransCmp.isLE_trans⟩
  rw [same]
  exact pairwise_insertionSort _ l

end Agreement

/-! ## Exactness -/

section Exact

variable {cmp : α → α → Int} {order : α → α → Ordering} [Std.TransCmp order]
  {f : β → α} {l : List β}

theorem exists_perm_cons_cons {a b : β} (first : a ∈ l) (second : b ∈ l) (differ : a ≠ b) :
    ∃ rest, (a :: b :: rest).Perm l := by
  obtain ⟨front, back, rfl⟩ := append_of_mem first
  have other : b ∈ front ++ back := by simpa [Ne.symm differ] using second
  obtain ⟨rest, same⟩ : ∃ rest, (b :: rest).Perm (front ++ back) := by
    obtain ⟨before, after, split⟩ := append_of_mem other
    exact ⟨before ++ after, split ▸ perm_middle.symm⟩
  exact ⟨rest, (same.cons a).trans perm_middle.symm⟩

/-- If every arrangement is sorted in the order that is meant, an element that comes first
compares as less. -/
theorem neg_of_arrangements (weak : StrictWeakOrdering cmp (l.map f))
    (sorts : ∀ arrangement : List β, arrangement.Perm l →
      InOrder order (sortStableFunc (arrangement.map f) cmp))
    {a b : β} (first : a ∈ l) (second : b ∈ l) (meant : order (f a) (f b) = .lt) :
    cmp (f a) (f b) < 0 := by
  by_contra notLess
  have differ : b ≠ a := by
    rintro rfl
    have level : order (f b) (f b) = .eq := Std.ReflCmp.compare_self
    rw [level] at meant
    cases meant
  obtain ⟨rest, arranged⟩ := exists_perm_cons_cons second first differ
  have back : cmp (f b) (f a) ≤ 0 := by
    rcases weak.opposite _ (mem_map_of_mem first) _ (mem_map_of_mem second) with h | h | h <;>
      omega
  -- a stable sort leaves the two as they are
  have kept : [f b, f a] <+ sortStableFunc ((b :: a :: rest).map f) cmp :=
    pair_sublist_insertionSort back (by simp)
  have wrong := pairwise_pair.mp ((sorts _ arranged).sublist kept)
  have swap : order (f b) (f a) = (order (f a) (f b)).swap := Std.OrientedCmp.eq_swap
  rw [swap, meant] at wrong
  cases wrong

/-- A comparator is a strict weak ordering of the elements and sorts every arrangement of them
in the order that is meant exactly if it agrees with the order on any two of them. -/
theorem sorts_iff_agrees (level : ∀ a b, order a b = .eq → cmp a b = 0) :
    (StrictWeakOrdering cmp (l.map f) ∧ ∀ arrangement : List β, arrangement.Perm l →
        InOrder order (sortStableFunc (arrangement.map f) cmp)) ↔
      ∀ a ∈ l, ∀ b ∈ l, Agrees cmp order (f a) (f b) := by
  constructor
  · rintro ⟨weak, sorts⟩ a first b second
    rw [Agrees, compare_eq_iff]
    cases meant : order (f a) (f b) with
    | lt => exact .inl ⟨rfl, neg_of_arrangements weak sorts first second meant⟩
    | eq => exact .inr (.inl ⟨rfl, level _ _ meant⟩)
    | gt =>
        have swap : order (f b) (f a) = (order (f a) (f b)).swap := Std.OrientedCmp.eq_swap
        have less := neg_of_arrangements weak sorts second first (swap.trans (meant ▸ rfl))
        refine .inr (.inr ⟨rfl, ?_⟩)
        rcases weak.opposite _ (mem_map_of_mem first) _ (mem_map_of_mem second) with h | h | h <;>
          omega
  · intro agrees
    have everywhere : ∀ arrangement : List β, arrangement.Perm l →
        ∀ a ∈ arrangement.map f, ∀ b ∈ arrangement.map f, Agrees cmp order a b := by
      intro arrangement same a left b right
      obtain ⟨first, member, rfl⟩ := mem_map.mp left
      obtain ⟨second, other, rfl⟩ := mem_map.mp right
      exact agrees first (same.mem_iff.mp member) second (same.mem_iff.mp other)
    exact ⟨strictWeakOrdering_of_agrees (everywhere l (.refl l)),
      fun arrangement same => inOrder_sortStableFunc (everywhere arrangement same)⟩

end Exact

end Uqda.Sorting
