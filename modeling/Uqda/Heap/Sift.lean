import Mathlib.Data.List.Perm.Basic
import Mathlib.Order.Lattice
import Mathlib.Order.Nat

/-!
# Binary heaps in a list

The functions `up`, `down`, `Fix` and `Remove` of Go's package `container/heap`, on a list
whose elements are compared by a key.  An element may have no key: comparing it, like reading
past the end of the list, is a fault, here `none`.

What the sifts do depends on the keys alone, so their order arguments are about functions from
positions to keys.  Both keep the order of all pairs of parent and child off one position, and
the children of that position in order with its parent.
-/

namespace Uqda.Heap

variable {α κ : Type} [LinearOrder κ]

/-! ## The functions of the package -/

section Functions

variable (key : α → Option κ)

/-- The key at a position. -/
def keyAt (h : List α) (i : Nat) : Option κ := (h[i]?).bind key

/-- `h.Less(i, j)`. -/
def less (h : List α) (i j : Nat) : Option Bool :=
  (keyAt key h i).bind fun a => (keyAt key h j).map fun b => decide (a < b)

/-- `h.Swap(i, j)`. -/
def swap (h : List α) (i j : Nat) : Option (List α) :=
  (h[i]?).bind fun a => (h[j]?).map fun b => (h.set i b).set j a

/-- The parent of a position.  The root counts as its own parent. -/
def parent (i : Nat) : Nat := (i - 1) / 2

/-- `up(h, j)`. -/
def up (h : List α) (j : Nat) : Option (List α) :=
  if j = 0 then some h
  else
    (less key h j (parent j)).bind fun smaller =>
      if smaller then (swap h (parent j) j).bind fun h => up h (parent j) else some h
termination_by j
decreasing_by
  rw [parent]
  omega

/-- `down(h, i, n)`: the heap, and the position where the element ends up. -/
def down (h : List α) (i n : Nat) : Option (List α × Nat) :=
  if 2 * i + 1 ≥ n then some (h, i)
  else
    (if 2 * i + 2 < n then less key h (2 * i + 2) (2 * i + 1) else some false).bind fun right =>
      (less key h (if right then 2 * i + 2 else 2 * i + 1) i).bind fun smaller =>
        if smaller then
          (swap h i (if right then 2 * i + 2 else 2 * i + 1)).bind fun h =>
            down h (if right then 2 * i + 2 else 2 * i + 1) n
        else some (h, i)
termination_by n - i
decreasing_by
  split
  · omega
  · omega

/-- `if !down(h, i, n) { up(h, i) }`. -/
def sift (h : List α) (i n : Nat) : Option (List α) :=
  (down key h i n).bind fun (h, place) => if place > i then some h else up key h i

/-- `heap.Fix(h, i)`. -/
def fix (h : List α) (i : Nat) : Option (List α) := sift key h i h.length

/-- `heap.Remove(h, i)`: the heap that is left, and the element that was removed. -/
def remove (h : List α) (i : Nat) : Option (List α × α) :=
  let n := h.length - 1
  (if n ≠ i then (swap h i n).bind fun h => sift key h i n else some h).bind fun h =>
    (h[n]?).map fun a => (h.take n, a)

end Functions

/-! ## Orders of keys -/

/-- Every position below `n` is in order with its parent. -/
def Heaped (k : Nat → κ) (n : Nat) : Prop :=
  ∀ i, 0 < i → i < n → k (parent i) ≤ k i

/-- In order off one position, and the children of that position with its parent. -/
structure HeapedOff (k : Nat → κ) (hole n : Nat) : Prop where
  off : ∀ i, 0 < i → i < n → i ≠ hole → parent i ≠ hole → k (parent i) ≤ k i
  grand : ∀ i, 0 < i → i < n → parent i = hole → 0 < hole → k (parent hole) ≤ k i

/-- The position is in order with its children. -/
def AboveChildren (k : Nat → κ) (hole n : Nat) : Prop :=
  ∀ i, 0 < i → i < n → parent i = hole → k hole ≤ k i

/-- The position is in order with its parent. -/
def BelowParent (k : Nat → κ) (hole : Nat) : Prop :=
  0 < hole → k (parent hole) ≤ k hole

/-- The keys after two positions were swapped. -/
def exchange (k : Nat → κ) (i j m : Nat) : κ :=
  if m = i then k j else if m = j then k i else k m

omit [LinearOrder κ] in
@[simp]
theorem exchange_left (k : Nat → κ) (i j : Nat) : exchange k i j i = k j :=
  if_pos rfl

omit [LinearOrder κ] in
@[simp]
theorem exchange_right (k : Nat → κ) (i j : Nat) : exchange k i j j = k i := by
  rw [exchange]
  split
  · rename_i same
    rw [same]
  · rw [if_pos rfl]

omit [LinearOrder κ] in
theorem exchange_of_ne (k : Nat → κ) {i j m : Nat} (first : m ≠ i) (second : m ≠ j) :
    exchange k i j m = k m := by
  rw [exchange, if_neg first, if_neg second]

theorem parent_lt {i : Nat} (positive : 0 < i) : parent i < i := by
  rw [parent]
  omega

theorem parent_eq_iff {i p : Nat} (positive : 0 < i) :
    parent i = p ↔ i = 2 * p + 1 ∨ i = 2 * p + 2 := by
  rw [parent]
  omega

variable {k : Nat → κ} {hole n : Nat}

theorem HeapedOff.heaped (off : HeapedOff k hole n) (above : AboveChildren k hole n)
    (below : BelowParent k hole) : Heaped k n := by
  intro i positive inside
  by_cases here : i = hole
  · subst here
    exact below positive
  · by_cases child : parent i = hole
    · rw [child]
      exact above i positive inside child
    · exact off.off i positive inside here child

theorem Heaped.heapedOff (heaped : Heaped k n) (inside : hole < n) : HeapedOff k hole n where
  off i positive bound _ _ := heaped i positive bound
  grand i positive bound child root :=
    (heaped hole root inside).trans (child ▸ heaped i positive bound)

/-- The root has the least key. -/
theorem Heaped.root_le (heaped : Heaped k n) {i : Nat} (inside : i < n) : k 0 ≤ k i := by
  induction i using Nat.strongRecOn with
  | ind i ih =>
      by_cases root : i = 0
      · rw [root]
      · have positive : 0 < i := Nat.pos_of_ne_zero root
        have less := parent_lt positive
        exact (ih (parent i) less (less.trans inside)).trans (heaped i positive inside)

/-- Moving up: after the swap with the parent only the parent's position can be out of order. -/
theorem HeapedOff.moveUp (off : HeapedOff k hole n) (positive : 0 < hole) (inside : hole < n)
    (smaller : k hole < k (parent hole)) :
    HeapedOff (exchange k (parent hole) hole) (parent hole) n ∧
      AboveChildren (exchange k (parent hole) hole) (parent hole) n := by
  have less := parent_lt positive
  have upper : 0 < parent hole → k (parent (parent hole)) ≤ k (parent hole) := by
    intro root
    have further := parent_lt root
    exact off.off _ root (by omega) (by omega) (by omega)
  have sibling : ∀ i, 0 < i → i < n → parent i = parent hole → i ≠ hole →
      k (parent hole) ≤ k i := by
    intro i first bound same other
    rw [← same]
    exact off.off i first bound other (by omega)
  refine ⟨⟨?_, ?_⟩, ?_⟩
  · intro i first bound other child
    by_cases here : i = hole
    · exact absurd (congrArg parent here) child
    · rw [exchange_of_ne k other here]
      by_cases below : parent i = hole
      · rw [below, exchange_right]
        exact off.grand i first bound below positive
      · rw [exchange_of_ne k child below]
        exact off.off i first bound here below
  · intro i first bound child root
    have further := parent_lt root
    rw [exchange_of_ne k (by omega : parent (parent hole) ≠ parent hole)
      (by omega : parent (parent hole) ≠ hole)]
    by_cases here : i = hole
    · rw [here, exchange_right]
      exact upper root
    · have lower := parent_lt first
      rw [exchange_of_ne k (by omega) here]
      exact (upper root).trans (sibling i first bound child here)
  · intro i first bound child
    rw [exchange_left]
    by_cases here : i = hole
    · rw [here, exchange_right]
      exact smaller.le
    · have lower := parent_lt first
      rw [exchange_of_ne k (by omega) here]
      exact smaller.le.trans (sibling i first bound child here)

/-- Moving down: after the swap with the smaller child only the child's position can be out of
order, with its own children. -/
theorem HeapedOff.moveDown (off : HeapedOff k hole n) {child : Nat} (positive : 0 < child)
    (isChild : parent child = hole) (inside : child < n)
    (least : ∀ i, 0 < i → i < n → parent i = hole → k child ≤ k i) (smaller : k child < k hole) :
    HeapedOff (exchange k hole child) child n ∧ BelowParent (exchange k hole child) child := by
  have less := parent_lt positive
  rw [isChild] at less
  refine ⟨⟨?_, ?_⟩, ?_⟩
  · intro i first bound other under
    have lower := parent_lt first
    by_cases here : i = hole
    · subst here
      rw [exchange_left, exchange_of_ne k (by omega) under]
      exact off.grand child positive inside isChild first
    · rw [exchange_of_ne k here other]
      by_cases sibling : parent i = hole
      · rw [sibling, exchange_left]
        exact least i first bound sibling
      · rw [exchange_of_ne k sibling under]
        exact off.off i first bound here sibling
  · intro i first bound under _
    have lower := parent_lt first
    rw [isChild, exchange_left, exchange_of_ne k (by omega) (by omega), ← under]
    exact off.off i first bound (by omega) (by omega)
  · intro _
    rw [isChild, exchange_left, exchange_right]
    exact smaller.le

/-! ## Lists and their keys -/

/-- The keys at the positions below `n`. -/
def Keys (key : α → Option κ) (h : List α) (k : Nat → κ) (n : Nat) : Prop :=
  ∀ i, i < n → keyAt key h i = some (k i)

/-- The same elements, and nothing has changed from position `n` on. -/
structure Sifted (n : Nat) (h h' : List α) : Prop where
  perm : h'.Perm h
  rest : ∀ m, n ≤ m → h'[m]? = h[m]?

theorem Sifted.refl (n : Nat) (h : List α) : Sifted n h h :=
  ⟨.refl h, fun _ _ => rfl⟩

theorem Sifted.trans {h₁ h₂ h₃ : List α} (first : Sifted n h₁ h₂) (second : Sifted n h₂ h₃) :
    Sifted n h₁ h₃ :=
  ⟨second.perm.trans first.perm, fun m past => (second.rest m past).trans (first.rest m past)⟩

variable {key : α → Option κ} {h : List α}

theorem Keys.less (keys : Keys key h k n) {i j : Nat} (first : i < n) (second : j < n) :
    less key h i j = some (decide (k i < k j)) := by
  rw [Heap.less, keys i first, keys j second, Option.bind_some, Option.map_some]

omit [LinearOrder κ] in
theorem Keys.length_le (keys : Keys key h k n) : n ≤ h.length := by
  by_contra short
  have missing := keys h.length (Nat.not_le.mp short)
  rw [keyAt, List.getElem?_eq_none (Nat.le_refl _)] at missing
  cases missing

omit [LinearOrder κ] in
/-- A swap succeeds inside the list, and exchanges the keys. -/
theorem swap_spec {i j : Nat} (different : i ≠ j) (first : i < h.length) (second : j < h.length) :
    ∃ h', swap h i j = some h' ∧ h'.Perm h ∧ h'[i]? = h[j]? ∧ h'[j]? = h[i]? ∧
      ∀ m, m ≠ i → m ≠ j → h'[m]? = h[m]? := by
  refine ⟨(h.set i h[j]).set j h[i], ?_, ?_, ?_, ?_, ?_⟩
  · rw [swap, List.getElem?_eq_getElem first, List.getElem?_eq_getElem second]
    rfl
  · exact List.set_set_perm first second
  · rw [List.getElem?_set_ne different.symm, List.getElem?_set_self first,
      List.getElem?_eq_getElem second]
  · rw [List.getElem?_set_self (by rwa [List.length_set]), List.getElem?_eq_getElem first]
  · intro m other other'
    rw [List.getElem?_set_ne other'.symm, List.getElem?_set_ne other.symm]

omit [LinearOrder κ] in
/-- A swap below `n` of a list with keys. -/
theorem Keys.swap (keys : Keys key h k n) {i j : Nat} (different : i ≠ j) (first : i < n)
    (second : j < n) :
    ∃ h', Heap.swap h i j = some h' ∧ Sifted n h h' ∧ Keys key h' (exchange k i j) n := by
  have length := keys.length_le
  obtain ⟨h', swapped, perm, atFirst, atSecond, others⟩ :=
    swap_spec different (first.trans_le length) (second.trans_le length)
  refine ⟨h', swapped, ⟨perm, fun m past => others m (by omega) (by omega)⟩, fun m inside => ?_⟩
  rw [keyAt]
  by_cases here : m = i
  · rw [here, atFirst, exchange_left]
    exact keys j second
  · by_cases there : m = j
    · rw [there, atSecond, exchange_right]
      exact keys i first
    · rw [others m here there, exchange_of_ne k here there]
      exact keys m inside

/-! ## The sifts -/

/-- Sifting up from a position that is in order with its children. -/
theorem up_spec (keys : Keys key h k n) (inside : hole < n) (off : HeapedOff k hole n)
    (above : AboveChildren k hole n) :
    ∃ h' k', up key h hole = some h' ∧ Sifted n h h' ∧ Keys key h' k' n ∧ Heaped k' n := by
  induction hole using Nat.strongRecOn generalizing h k with
  | ind hole ih =>
      rw [up]
      by_cases root : hole = 0
      · rw [if_pos root]
        refine ⟨h, k, rfl, .refl n h, keys, off.heaped above ?_⟩
        intro positive
        omega
      · have positive : 0 < hole := Nat.pos_of_ne_zero root
        have lower := parent_lt positive
        rw [if_neg root, keys.less inside (lower.trans inside), Option.bind_some]
        by_cases smaller : k hole < k (parent hole)
        · obtain ⟨h', swapped, sifted, keys'⟩ :=
            keys.swap lower.ne (lower.trans inside) inside
          obtain ⟨off', above'⟩ := off.moveUp positive inside smaller
          obtain ⟨h'', k'', done, sifted', result⟩ :=
            ih (parent hole) lower keys' (lower.trans inside) off' above'
          refine ⟨h'', k'', ?_, sifted.trans sifted', result⟩
          rw [decide_eq_true smaller, if_pos rfl, swapped, Option.bind_some, done]
        · refine ⟨h, k, ?_, .refl n h, keys, off.heaped above fun _ => not_lt.mp smaller⟩
          rw [decide_eq_false smaller, if_neg Bool.false_ne_true]

/-- The child that `down` compares with its parent. -/
theorem exists_leastChild (keys : Keys key h k n) (hasChild : 2 * hole + 1 < n) :
    ∃ right : Bool,
      (if 2 * hole + 2 < n then less key h (2 * hole + 2) (2 * hole + 1) else some false) =
          some right ∧
        (if right then 2 * hole + 2 else 2 * hole + 1) < n ∧
        ∀ i, 0 < i → i < n → parent i = hole →
          k (if right then 2 * hole + 2 else 2 * hole + 1) ≤ k i := by
  have either : ∀ i, 0 < i → parent i = hole → i = 2 * hole + 1 ∨ i = 2 * hole + 2 :=
    fun i positive child => (parent_eq_iff positive).mp child
  by_cases both : 2 * hole + 2 < n
  · refine ⟨decide (k (2 * hole + 2) < k (2 * hole + 1)), ?_, ?_, ?_⟩
    · rw [if_pos both, keys.less both hasChild]
    · split
      · exact both
      · exact hasChild
    · intro i positive inside child
      by_cases smaller : k (2 * hole + 2) < k (2 * hole + 1)
      · rw [decide_eq_true smaller, if_pos rfl]
        rcases either i positive child with rfl | rfl
        · exact smaller.le
        · exact le_rfl
      · rw [decide_eq_false smaller, if_neg Bool.false_ne_true]
        rcases either i positive child with rfl | rfl
        · exact le_rfl
        · exact not_lt.mp smaller
  · refine ⟨false, if_neg both, hasChild, ?_⟩
    intro i positive inside child
    rcases either i positive child with rfl | rfl
    · exact le_rfl
    · exact absurd inside both

/-- One round of `down`: it stops, with the position in order with its children, or it goes on
from the smaller child. -/
theorem down_step (keys : Keys key h k n) (inside : hole < n) (off : HeapedOff k hole n) :
    (down key h hole n = some (h, hole) ∧ AboveChildren k hole n) ∨
      ∃ child h', hole < child ∧ child < n ∧ down key h hole n = down key h' child n ∧
        Sifted n h h' ∧ Keys key h' (exchange k hole child) n ∧
        HeapedOff (exchange k hole child) child n ∧ BelowParent (exchange k hole child) child := by
  by_cases leaf : 2 * hole + 1 ≥ n
  · refine .inl ⟨by rw [down, if_pos leaf], fun i positive bound child => ?_⟩
    rcases (parent_eq_iff positive).mp child with rfl | rfl
    · omega
    · omega
  · obtain ⟨right, chosen, bound, least⟩ := exists_leastChild keys (Nat.not_le.mp leaf)
    rw [down, if_neg leaf, chosen, Option.bind_some]
    generalize isChild : (if right then 2 * hole + 2 else 2 * hole + 1) = child at bound least ⊢
    have place : child = 2 * hole + 1 ∨ child = 2 * hole + 2 := by
      rw [← isChild]
      cases right with
      | true => exact .inr rfl
      | false => exact .inl rfl
    have positive : 0 < child := by omega
    rw [keys.less bound inside, Option.bind_some]
    by_cases smaller : k child < k hole
    · obtain ⟨h', swapped, sifted, keys'⟩ := keys.swap (by omega) inside bound
      obtain ⟨off', below⟩ := off.moveDown positive ((parent_eq_iff positive).mpr place) bound
        least smaller
      refine .inr ⟨child, h', by omega, bound, ?_, sifted, keys', off', below⟩
      rw [decide_eq_true smaller, if_pos rfl, swapped, Option.bind_some]
    · refine .inl ⟨?_, fun i first within under => ?_⟩
      · rw [decide_eq_false smaller, if_neg Bool.false_ne_true]
      · exact (not_lt.mp smaller).trans (least i first within under)

/-- Sifting down from a position that is in order with its parent. -/
theorem down_spec (keys : Keys key h k n) (inside : hole < n) (off : HeapedOff k hole n)
    (below : BelowParent k hole) :
    ∃ h' k' place, down key h hole n = some (h', place) ∧ hole ≤ place ∧ Sifted n h h' ∧
      Keys key h' k' n ∧ Heaped k' n := by
  induction left : n - hole using Nat.strongRecOn generalizing h k hole with
  | ind left ih =>
      rcases down_step keys inside off with ⟨done, above⟩ | ⟨child, h', more, bound, next, sifted,
        keys', off', below'⟩
      · exact ⟨h, k, hole, done, le_rfl, .refl n h, keys, off.heaped above below⟩
      · obtain ⟨h'', k'', place, done, further, sifted', result⟩ :=
          ih (n - child) (by omega) keys' bound off' below' rfl
        exact ⟨h'', k'', place, next.trans done, more.le.trans further, sifted.trans sifted',
          result⟩

/-- Sifting a position that may be out of order in either direction. -/
theorem sift_spec (keys : Keys key h k n) (inside : hole < n) (off : HeapedOff k hole n) :
    ∃ h' k', sift key h hole n = some h' ∧ Sifted n h h' ∧ Keys key h' k' n ∧ Heaped k' n := by
  rcases down_step keys inside off with ⟨done, above⟩ | ⟨child, h', more, bound, next, sifted,
    keys', off', below'⟩
  · obtain ⟨h', k', lifted, result⟩ := up_spec keys inside off above
    refine ⟨h', k', ?_, result⟩
    rw [sift, done, Option.bind_some]
    exact (if_neg (Nat.lt_irrefl hole)).trans lifted
  · obtain ⟨h'', k'', place, lowered, further, sifted', result⟩ :=
      down_spec keys' bound off' below'
    refine ⟨h'', k'', ?_, sifted.trans sifted', result⟩
    rw [sift, next, lowered, Option.bind_some]
    exact if_pos (more.trans_le further)

/-! ## Heaps -/

/-- Every element has a key, and none has a smaller one than its parent. -/
def IsHeap (key : α → Option κ) (h : List α) : Prop :=
  ∃ k, Keys key h k h.length ∧ Heaped k h.length

theorem isHeap_nil (key : α → Option κ) [Inhabited κ] : IsHeap key [] :=
  ⟨fun _ => default, fun _ inside => absurd inside (Nat.not_lt_zero _),
    fun _ _ inside => absurd inside (Nat.not_lt_zero _)⟩

theorem IsHeap.exists_key (heap : IsHeap key h) {a : α} (element : a ∈ h) :
    ∃ x, key a = some x := by
  obtain ⟨k, keys, -⟩ := heap
  obtain ⟨i, inside, rfl⟩ := List.mem_iff_getElem.mp element
  have found := keys i inside
  rw [keyAt, List.getElem?_eq_getElem inside] at found
  exact ⟨k i, found⟩

/-- The first element has the least key. -/
theorem IsHeap.head_le {b : α} {x y : κ} (heap : IsHeap key h) (least : h.head?.bind key = some x)
    (element : b ∈ h) (other : key b = some y) : x ≤ y := by
  obtain ⟨k, keys, heaped⟩ := heap
  obtain ⟨i, inside, rfl⟩ := List.mem_iff_getElem.mp element
  have root := keys 0 (Nat.zero_lt_of_lt inside)
  have found := keys i inside
  rw [keyAt, ← List.head?_eq_getElem?, least, Option.some.injEq] at root
  rw [keyAt, List.getElem?_eq_getElem inside, Option.bind_some, other, Option.some.injEq] at found
  rw [root, found]
  exact heaped.root_le inside

/-- An element whose key is not smaller than any other can be appended. -/
theorem IsHeap.concat {a : α} {x : κ} (heap : IsHeap key h) (isKey : key a = some x)
    (greatest : ∀ b ∈ h, ∀ y, key b = some y → y ≤ x) : IsHeap key (h ++ [a]) := by
  obtain ⟨k, keys, heaped⟩ := heap
  have bounded : ∀ i, i < h.length → k i ≤ x := by
    intro i inside
    have found := keys i inside
    rw [keyAt, List.getElem?_eq_getElem inside] at found
    exact greatest _ (List.getElem_mem inside) _ found
  refine ⟨Function.update k h.length x, ?_, ?_⟩
  · intro i inside
    rw [List.length_append, List.length_singleton] at inside
    rw [keyAt]
    by_cases before : i < h.length
    · rw [List.getElem?_append_left before, Function.update_of_ne before.ne]
      exact keys i before
    · have last : i = h.length := by omega
      rw [last, List.getElem?_concat_length, Function.update_self]
      exact isKey
  · intro i positive inside
    rw [List.length_append, List.length_singleton] at inside
    have lower := parent_lt positive
    rw [Function.update_of_ne (by omega : parent i ≠ h.length)]
    by_cases before : i < h.length
    · rw [Function.update_of_ne before.ne]
      exact heaped i positive before
    · have last : i = h.length := by omega
      rw [last, Function.update_self, ← last]
      exact bounded _ (by omega)

omit [LinearOrder κ] in
/-- The keys after one element was overwritten. -/
theorem Keys.set (keys : Keys key h k n) {a : α} {x : κ} (inside : hole < n)
    (isKey : key a = some x) : Keys key (h.set hole a) (Function.update k hole x) n := by
  intro i bound
  rw [keyAt]
  by_cases here : i = hole
  · rw [here, List.getElem?_set_self (inside.trans_le keys.length_le), Function.update_self]
    exact isKey
  · rw [List.getElem?_set_ne (Ne.symm here), Function.update_of_ne here]
    exact keys i bound

/-- The order off a position does not depend on the key there. -/
theorem HeapedOff.congr {k' : Nat → κ} (off : HeapedOff k hole n)
    (same : ∀ i, i < n → i ≠ hole → k' i = k i) : HeapedOff k' hole n where
  off i positive inside other child := by
    have lower := parent_lt positive
    rw [same i inside other, same _ (lower.trans inside) child]
    exact off.off i positive inside other child
  grand i positive inside child root := by
    have lower := parent_lt positive
    have further := parent_lt root
    rw [same i inside (by omega), same _ (by omega) (by omega)]
    exact off.grand i positive inside child root

/-- An element can be overwritten by one with the same key. -/
theorem IsHeap.set_of_key_eq {a : α} (heap : IsHeap key h) (inside : hole < h.length)
    (same : key a = keyAt key h hole) : IsHeap key (h.set hole a) := by
  obtain ⟨k, keys, heaped⟩ := heap
  rw [keys hole inside] at same
  have keys' := keys.set inside same
  rw [Function.update_eq_self] at keys'
  rw [IsHeap, List.length_set]
  exact ⟨k, keys', heaped⟩

theorem IsHeap.take {m : Nat} (heap : IsHeap key h) : IsHeap key (h.take m) := by
  obtain ⟨k, keys, heaped⟩ := heap
  have shorter : (h.take m).length ≤ h.length := List.length_take_le' m h
  refine ⟨k, fun i inside => ?_,
    fun i positive inside => heaped i positive (inside.trans_le shorter)⟩
  have within : i < m := by
    rw [List.length_take] at inside
    omega
  rw [keyAt, List.getElem?_take_of_lt within]
  exact keys i (inside.trans_le shorter)

/-- `Fix` after an element was overwritten. -/
theorem fix_set {a : α} {x : κ} (heap : IsHeap key h) (inside : hole < h.length)
    (isKey : key a = some x) :
    ∃ h', fix key (h.set hole a) hole = some h' ∧ h'.Perm (h.set hole a) ∧ IsHeap key h' := by
  obtain ⟨k, keys, heaped⟩ := heap
  have off : HeapedOff (Function.update k hole x) hole h.length :=
    (heaped.heapedOff inside).congr fun i _ other => Function.update_of_ne other _ _
  obtain ⟨h', k', sifted, same, keys', heaped'⟩ := sift_spec (keys.set inside isKey) inside off
  have length := same.perm.length_eq
  rw [List.length_set] at length
  refine ⟨h', ?_, same.perm, k', ?_, ?_⟩
  · rw [fix, List.length_set, sifted]
  · rwa [length]
  · rwa [length]

/-- `Remove` after the element to remove was overwritten, possibly by one without a key. -/
theorem remove_set {a : α} (heap : IsHeap key h) (inside : hole < h.length) :
    ∃ h', remove key (h.set hole a) hole = some (h', a) ∧ h'.Perm (h.eraseIdx hole) ∧
      IsHeap key h' := by
  obtain ⟨n, length⟩ : ∃ n, h.length = n + 1 := ⟨h.length - 1, by omega⟩
  by_cases last : n = hole
  · -- the element to remove is the last one already
    refine ⟨h.take n, ?_, ?_, heap.take⟩
    · simp only [remove, List.length_set, length, Nat.add_sub_cancel, last, ne_eq,
        not_true_eq_false, if_false, Option.bind_some, List.getElem?_set_self inside,
        Option.map_some, List.take_set_of_le (Nat.le_refl hole)]
    · have past : h.length ≤ hole + 1 := by omega
      rw [← last, List.eraseIdx_eq_take_drop_succ, List.drop_eq_nil_of_le (by omega),
        List.append_nil]
  · obtain ⟨k, keys, heaped⟩ := heap
    have before : hole < n := by omega
    have whole : (h.set hole a).length = n + 1 := by rw [List.length_set, length]
    obtain ⟨h₁, swapped, perm, atHole, atEnd, others⟩ :=
      @swap_spec α (h.set hole a) hole n (by omega) (by omega) (by omega)
    have keys₁ : Keys key h₁ (Function.update k hole (k n)) n := by
      intro i bound
      rw [keyAt]
      by_cases here : i = hole
      · rw [here, atHole, Function.update_self, List.getElem?_set_ne (by omega)]
        exact keys n (by omega)
      · rw [others i here (by omega), Function.update_of_ne here,
          List.getElem?_set_ne (Ne.symm here)]
        exact keys i (by omega)
    have below : Heaped k n := fun i positive bound => heaped i positive (by omega)
    have off : HeapedOff (Function.update k hole (k n)) hole n :=
      (below.heapedOff before).congr fun i _ other => Function.update_of_ne other _ _
    obtain ⟨h₂, k₂, sifted, same, keys₂, heaped₂⟩ := sift_spec keys₁ before off
    have removed : h₂[n]? = some a := by
      rw [same.rest n (Nat.le_refl n), atEnd, List.getElem?_set_self inside]
    have length₂ : h₂.length = n + 1 := by
      rw [same.perm.length_eq, perm.length_eq, whole]
    have split : h₂ = h₂.take n ++ [a] := by
      rw [← List.take_append_drop n h₂, List.take_left' (by rw [List.length_take]; omega)]
      congr 1
      rw [List.drop_eq_getElem_cons (by omega), List.drop_eq_nil_of_le (by omega)]
      rw [List.getElem?_eq_getElem (by omega), Option.some.injEq] at removed
      rw [removed]
    refine ⟨h₂.take n, ?_, ?_, k₂, ?_, ?_⟩
    · simp only [remove, whole, Nat.add_sub_cancel, ne_eq, last, not_false_eq_true, if_true,
        swapped, Option.bind_some, sifted, removed, Option.map_some]
    · have all : (h₂.take n ++ [a]).Perm (a :: h.eraseIdx hole) := by
        rw [← split]
        exact same.perm.trans (perm.trans (List.set_perm_cons_eraseIdx inside a))
      exact ((List.perm_append_singleton a _).symm.trans all).cons_inv
    · have size : (h₂.take n).length = n := by rw [List.length_take]; omega
      rw [size]
      intro i bound
      rw [keyAt, List.getElem?_take_of_lt bound]
      exact keys₂ i bound
    · have size : (h₂.take n).length = n := by rw [List.length_take]; omega
      rwa [size]

end Uqda.Heap
