import Uqda.Heap.Sift
import Uqda.Store.Keyed
import Mathlib.Algebra.BigOperators.Group.List.Basic
import Mathlib.Algebra.GroupWithZero.Nat

/-!
# Heaps of keyed loads

A bundle is a heap of entries with different keys and a running total of their sizes.  An
entry can be appended when it is the latest, overwritten by a larger one, overwritten by a
smaller one and sifted, or removed.  Each operation keeps the bundle, and the entries of the
other keys stay what they are.
-/

namespace Uqda.Heap

open Uqda.Store

variable {α κ τ : Type} [LinearOrder τ] {key : α → κ} {time : α → Option τ}
  {size : α → Nat} {valid : α → Prop}

/-- A heap by time of valid entries with different keys, whose sizes add up to the total. -/
structure Bundle (key : α → κ) (time : α → Option τ) (size : α → Nat) (valid : α → Prop)
    (entries : List α) (total : Nat) : Prop where
  unique : Unique key entries
  heap : IsHeap time entries
  total_eq : total = (entries.map size).sum
  each : ∀ entry ∈ entries, valid entry

variable {entries : List α} {total index : Nat} {old new : α}

theorem Bundle.empty [Inhabited τ] : Bundle key time size valid [] 0 :=
  ⟨List.nodup_nil, isHeap_nil time, rfl, List.forall_mem_nil _⟩

theorem Bundle.mono {weaker : α → Prop} (bundle : Bundle key time size valid entries total)
    (weaken : ∀ entry, valid entry → weaker entry) : Bundle key time size weaker entries total :=
  { bundle with each := fun entry element => weaken entry (bundle.each entry element) }

/-- An entry and the others add up to the total. -/
theorem Bundle.total_eq_add (bundle : Bundle key time size valid entries total)
    (present : entries[index]? = some old) :
    total = size old + ((entries.eraseIdx index).map size).sum := by
  obtain ⟨inside, rfl⟩ := List.getElem?_eq_some_iff.mp present
  rw [bundle.total_eq, ← ((List.getElem_cons_eraseIdx_perm inside).map size).sum_eq, List.map_cons,
    List.sum_cons]

theorem sum_map_set (inside : index < entries.length) :
    ((entries.set index new).map size).sum =
      size new + ((entries.eraseIdx index).map size).sum := by
  rw [((List.set_perm_cons_eraseIdx inside new).map size).sum_eq, List.map_cons, List.sum_cons]

theorem forall_mem_set (each : ∀ entry ∈ entries, valid entry) (isValid : valid new) :
    ∀ entry ∈ entries.set index new, valid entry := by
  intro entry element
  rcases List.mem_or_eq_of_mem_set element with before | rfl
  · exact each entry before
  · exact isValid

/-- Appending an entry that is not earlier than any other. -/
theorem Bundle.concat {latest : τ} (bundle : Bundle key time size valid entries total)
    (isValid : valid new) (absent : ∀ entry ∈ entries, key entry ≠ key new)
    (isTime : time new = some latest)
    (greatest : ∀ entry ∈ entries, ∀ earlier, time entry = some earlier → earlier ≤ latest) :
    Bundle key time size valid (entries ++ [new]) (total + size new) where
  unique := bundle.unique.concat absent
  heap := bundle.heap.concat isTime greatest
  total_eq := by
    rw [bundle.total_eq, List.map_append, List.sum_append, List.map_singleton, List.sum_singleton]
  each := by
    intro entry element
    rcases List.mem_append.mp element with before | last
    · exact bundle.each entry before
    · rw [List.mem_singleton.mp last]
      exact isValid

/-- Overwriting an entry by a larger one of the same time. -/
theorem Bundle.grow {more : Nat} (bundle : Bundle key time size valid entries total)
    (present : entries[index]? = some old) (isValid : valid new) (sameKey : key new = key old)
    (sameTime : time new = time old) (larger : size new = size old + more) :
    Bundle key time size valid (entries.set index new) (total + more) where
  unique := bundle.unique.set present sameKey
  heap := by
    obtain ⟨inside, -⟩ := List.getElem?_eq_some_iff.mp present
    apply bundle.heap.set_of_key_eq inside
    rw [keyAt, present, Option.bind_some, sameTime]
  total_eq := by
    obtain ⟨inside, -⟩ := List.getElem?_eq_some_iff.mp present
    rw [sum_map_set inside, bundle.total_eq_add present, larger]
    omega
  each := forall_mem_set bundle.each isValid

/-- If every entry has a size, a bundle is empty exactly when its total is zero. -/
theorem Bundle.total_pos_iff (bundle : Bundle key time size valid entries total)
    (positive : ∀ entry, valid entry → 0 < size entry) : 0 < total ↔ entries ≠ [] := by
  rw [bundle.total_eq]
  cases entries with
  | nil => simp
  | cons entry entries =>
      have first := positive entry (bundle.each entry List.mem_cons_self)
      rw [List.map_cons, List.sum_cons]
      simp only [ne_eq, reduceCtorEq, not_false_eq_true, iff_true]
      omega

variable [DecidableEq κ]

/-- Overwriting an entry by a smaller one, and sifting it. -/
theorem Bundle.fix {less : Nat} {later : τ} (bundle : Bundle key time size valid entries total)
    (present : entries[index]? = some old) (isValid : valid new) (sameKey : key new = key old)
    (isTime : time new = some later) (smaller : size old = size new + less) :
    ∃ entries', Heap.fix time (entries.set index new) index = some entries' ∧
      Bundle key time size valid entries' (total - less) ∧ less ≤ total ∧
      ∀ slot, lookup key entries' slot =
        if slot = key old then some new else lookup key entries slot := by
  obtain ⟨inside, -⟩ := List.getElem?_eq_some_iff.mp present
  obtain ⟨entries', fixed, permuted, heap⟩ := fix_set bundle.heap inside isTime
  have unique := bundle.unique.set present sameKey
  have sum := bundle.total_eq_add present
  refine ⟨entries', fixed, ⟨unique.perm permuted, heap, ?_, ?_⟩, by omega, fun slot => ?_⟩
  · rw [(permuted.map size).sum_eq, sum_map_set inside]
    omega
  · intro entry element
    exact forall_mem_set bundle.each isValid entry (permuted.mem_iff.mp element)
  · rw [lookup_perm unique permuted, lookup_set bundle.unique present sameKey, sameKey]

/-- Removing an entry.  It may have been overwritten before. -/
theorem Bundle.remove (bundle : Bundle key time size valid entries total)
    (present : entries[index]? = some old) (junk : α) :
    ∃ entries', Heap.remove time (entries.set index junk) index = some (entries', junk) ∧
      Bundle key time size valid entries' (total - size old) ∧ size old ≤ total ∧
      ∀ slot, lookup key entries' slot =
        if slot = key old then none else lookup key entries slot := by
  obtain ⟨inside, -⟩ := List.getElem?_eq_some_iff.mp present
  obtain ⟨entries', removed, permuted, heap⟩ := @remove_set α τ _ index time entries junk
    bundle.heap inside
  have sum := bundle.total_eq_add present
  refine ⟨entries', removed, ⟨(bundle.unique.eraseIdx index).perm permuted, heap, ?_, ?_⟩,
    by omega, fun slot => ?_⟩
  · rw [(permuted.map size).sum_eq]
    omega
  · intro entry element
    exact bundle.each entry (List.mem_of_mem_eraseIdx (permuted.mem_iff.mp element))
  · rw [lookup_perm (bundle.unique.eraseIdx index) permuted, lookup_eraseIdx bundle.unique present]

/-- Changing the entry of a key, or appending a fresh one that is the latest. -/
theorem Bundle.upsert {latest : τ} {more : Nat}
    (bundle : Bundle key time size valid entries total) (slot : κ) (fresh : α) (change : α → α)
    (isKey : key (change fresh) = slot)
    (isTime : time (change fresh) = some latest) (isSize : size (change fresh) = more)
    (isValid : valid (change fresh))
    (greatest : ∀ entry ∈ entries, ∀ earlier, time entry = some earlier → earlier ≤ latest)
    (kept : ∀ entry ∈ entries, key (change entry) = key entry ∧ time (change entry) = time entry ∧
      size (change entry) = size entry + more)
    (keptValid : ∀ entry ∈ entries, key entry = slot → valid (change entry)) :
    Bundle key time size valid (Store.upsert key entries slot fresh change) (total + more) := by
  rcases upsert_cases key entries slot fresh change with
    ⟨absent, isUpsert⟩ | ⟨index, entry, present, isEntry, isUpsert⟩
  · rw [isUpsert, ← isSize]
    exact bundle.concat isValid (by rwa [isKey]) isTime greatest
  · have element := List.mem_of_getElem? present
    obtain ⟨sameKey, sameTime, larger⟩ := kept entry element
    rw [isUpsert]
    exact bundle.grow present (keptValid entry element isEntry) sameKey sameTime larger

end Uqda.Heap
