import Mathlib.Data.List.Nodup
import Mathlib.Data.List.Perm.Basic

/-!
# Lists with one entry a key

A list whose entries have different keys is a finite map, whatever the order of its entries.
`lookup` finds the entry of a key; the lemmas say what it finds after the list was permuted,
or an entry was appended, overwritten or erased.
-/

namespace Uqda.Store

variable {α κ : Type} [DecidableEq κ] {key : α → κ}

/-- The entry of a key. -/
def lookup (key : α → κ) (entries : List α) (slot : κ) : Option α :=
  entries.find? fun entry => decide (key entry = slot)

/-- No two entries have the same key. -/
def Unique (key : α → κ) (entries : List α) : Prop :=
  (entries.map key).Nodup

omit [DecidableEq κ] in
theorem Unique.perm {entries entries' : List α} (unique : Unique key entries)
    (permuted : entries'.Perm entries) : Unique key entries' :=
  (permuted.map key).nodup_iff.mpr unique

omit [DecidableEq κ] in
theorem Unique.eq_of_mem {entries : List α} {first second : α} (unique : Unique key entries)
    (isFirst : first ∈ entries) (isSecond : second ∈ entries) (same : key first = key second) :
    first = second :=
  List.inj_on_of_nodup_map unique isFirst isSecond same

theorem key_of_lookup {entries : List α} {slot : κ} {found : α}
    (looked : lookup key entries slot = some found) : key found = slot := by
  have matched := List.find?_some looked
  exact of_decide_eq_true matched

theorem lookup_eq_some_iff {entries : List α} {slot : κ} {found : α}
    (unique : Unique key entries) :
    lookup key entries slot = some found ↔ found ∈ entries ∧ key found = slot := by
  constructor
  · intro looked
    exact ⟨List.mem_of_find?_eq_some looked, key_of_lookup looked⟩
  · rintro ⟨entry, isKey⟩
    have some : (lookup key entries slot).isSome := by
      rw [lookup, List.find?_isSome]
      exact ⟨found, entry, decide_eq_true isKey⟩
    obtain ⟨other, looked⟩ := Option.isSome_iff_exists.mp some
    rw [looked, unique.eq_of_mem (List.mem_of_find?_eq_some looked) entry
      ((key_of_lookup looked).trans isKey.symm)]

theorem lookup_eq_none_iff {entries : List α} {slot : κ} :
    lookup key entries slot = none ↔ ∀ entry ∈ entries, key entry ≠ slot := by
  rw [lookup, List.find?_eq_none]
  simp

theorem lookup_of_getElem? {entries : List α} {index : Nat} {entry : α}
    (unique : Unique key entries) (present : entries[index]? = some entry) :
    lookup key entries (key entry) = some entry :=
  (lookup_eq_some_iff unique).mpr ⟨List.mem_of_getElem? present, rfl⟩

/-- Two lists of unique keys with the same entries are the same map. -/
theorem lookup_congr {entries entries' : List α} (unique : Unique key entries)
    (unique' : Unique key entries') {slot : κ}
    (same : ∀ entry, key entry = slot → (entry ∈ entries' ↔ entry ∈ entries)) :
    lookup key entries' slot = lookup key entries slot := by
  apply Option.ext
  intro found
  rw [lookup_eq_some_iff unique', lookup_eq_some_iff unique]
  constructor
  · rintro ⟨entry, isKey⟩
    exact ⟨(same found isKey).mp entry, isKey⟩
  · rintro ⟨entry, isKey⟩
    exact ⟨(same found isKey).mpr entry, isKey⟩

theorem lookup_perm {entries entries' : List α} (unique : Unique key entries)
    (permuted : entries'.Perm entries) (slot : κ) :
    lookup key entries' slot = lookup key entries slot :=
  lookup_congr unique (unique.perm permuted) fun _ _ => permuted.mem_iff

omit [DecidableEq κ] in
theorem Unique.concat {entries : List α} {new : α} (unique : Unique key entries)
    (absent : ∀ entry ∈ entries, key entry ≠ key new) : Unique key (entries ++ [new]) := by
  rw [Unique, List.map_append, List.map_singleton, List.nodup_append]
  refine ⟨unique, List.nodup_singleton _, ?_⟩
  intro slot isOld slot' isNew
  obtain ⟨entry, isEntry, rfl⟩ := List.mem_map.mp isOld
  rw [List.mem_singleton.mp isNew]
  exact absent entry isEntry

theorem lookup_concat {entries : List α} {new : α} (unique : Unique key entries)
    (absent : ∀ entry ∈ entries, key entry ≠ key new) (slot : κ) :
    lookup key (entries ++ [new]) slot =
      if slot = key new then some new else lookup key entries slot := by
  have unique' := unique.concat absent
  split
  · rename_i isNew
    exact (lookup_eq_some_iff unique').mpr ⟨List.mem_append_right _ List.mem_cons_self, isNew.symm⟩
  · rename_i other
    apply lookup_congr unique unique'
    intro entry isKey
    rw [List.mem_append, List.mem_singleton]
    constructor
    · rintro (old | rfl)
      · exact old
      · exact absurd isKey.symm other
    · exact Or.inl

omit [DecidableEq κ] in
/-- Overwriting an entry by one with the same key. -/
theorem map_set_of_key_eq {entries : List α} {index : Nat} {old new : α}
    (present : entries[index]? = some old) (same : key new = key old) :
    (entries.set index new).map key = entries.map key := by
  obtain ⟨inside, rfl⟩ := List.getElem?_eq_some_iff.mp present
  rw [List.map_set, same]
  apply List.ext_getElem?
  intro other
  by_cases here : other = index
  · rw [here, List.getElem?_set_self (by rwa [List.length_map]), List.getElem?_map,
      List.getElem?_eq_getElem inside, Option.map_some]
  · rw [List.getElem?_set_ne (Ne.symm here)]

omit [DecidableEq κ] in
theorem Unique.set {entries : List α} {index : Nat} {old new : α} (unique : Unique key entries)
    (present : entries[index]? = some old) (same : key new = key old) :
    Unique key (entries.set index new) := by
  rw [Unique, map_set_of_key_eq present same]
  exact unique

omit [DecidableEq κ] in
theorem Unique.eraseIdx {entries : List α} (unique : Unique key entries) (index : Nat) :
    Unique key (entries.eraseIdx index) :=
  unique.sublist ((List.eraseIdx_sublist entries index).map key)

omit [DecidableEq κ] in
/-- The entries that are left are those of other keys. -/
theorem mem_eraseIdx_iff {entries : List α} {index : Nat} {old entry : α}
    (unique : Unique key entries) (present : entries[index]? = some old) :
    entry ∈ entries.eraseIdx index ↔ entry ∈ entries ∧ key entry ≠ key old := by
  obtain ⟨inside, rfl⟩ := List.getElem?_eq_some_iff.mp present
  have split := List.getElem_cons_eraseIdx_perm inside
  have distinct := unique.perm split
  rw [Unique, List.map_cons, List.nodup_cons] at distinct
  rw [← split.mem_iff, List.mem_cons]
  constructor
  · intro left
    exact ⟨.inr left, fun same => distinct.1 (same ▸ List.mem_map_of_mem left)⟩
  · rintro ⟨rfl | left, other⟩
    · exact absurd rfl other
    · exact left

theorem lookup_eraseIdx {entries : List α} {index : Nat} {old : α} (unique : Unique key entries)
    (present : entries[index]? = some old) (slot : κ) :
    lookup key (entries.eraseIdx index) slot =
      if slot = key old then none else lookup key entries slot := by
  split
  · rename_i isOld
    rw [lookup_eq_none_iff]
    intro entry left isKey
    exact ((mem_eraseIdx_iff unique present).mp left).2 (isKey.trans isOld)
  · rename_i other
    apply lookup_congr unique (unique.eraseIdx index)
    intro entry isKey
    rw [mem_eraseIdx_iff unique present, and_iff_left]
    exact fun same => other (isKey.symm.trans same)

theorem lookup_set {entries : List α} {index : Nat} {old new : α} (unique : Unique key entries)
    (present : entries[index]? = some old) (same : key new = key old) (slot : κ) :
    lookup key (entries.set index new) slot =
      if slot = key new then some new else lookup key entries slot := by
  obtain ⟨inside, -⟩ := List.getElem?_eq_some_iff.mp present
  have permuted := List.set_perm_cons_eraseIdx inside new
  have unique' := unique.set present same
  split
  · rename_i isNew
    exact (lookup_eq_some_iff unique').mpr ⟨List.mem_set inside new, isNew.symm⟩
  · rename_i other
    apply lookup_congr unique unique'
    intro entry isKey
    rw [permuted.mem_iff, List.mem_cons, mem_eraseIdx_iff unique present, ← same]
    constructor
    · rintro (rfl | ⟨left, -⟩)
      · exact absurd isKey.symm other
      · exact left
    · intro left
      exact .inr ⟨left, fun isOld => other (isKey.symm.trans isOld)⟩

/-! ## Changing the entry of a key -/

/-- Change the entry of the key, or append a fresh entry with the change made. -/
def upsert (key : α → κ) (entries : List α) (slot : κ) (fresh : α) (change : α → α) : List α :=
  match entries.findIdx? fun entry => key entry = slot with
  | none => entries ++ [change fresh]
  | some index => entries.modify index change

variable {entries : List α}

/-- The two ways in which a change is made. -/
theorem upsert_cases (key : α → κ) (entries : List α) (slot : κ) (fresh : α) (change : α → α) :
    ((∀ entry ∈ entries, key entry ≠ slot) ∧
        upsert key entries slot fresh change = entries ++ [change fresh]) ∨
      ∃ index entry, entries[index]? = some entry ∧ key entry = slot ∧
        upsert key entries slot fresh change = entries.set index (change entry) := by
  cases searched : entries.findIdx? (fun entry => key entry = slot) with
  | none =>
      refine .inl ⟨fun entry element => ?_, by rw [upsert, searched]⟩
      exact of_decide_eq_false (List.findIdx?_eq_none_iff.mp searched entry element)
  | some index =>
      obtain ⟨inside, isKey, -⟩ := List.findIdx?_eq_some_iff_getElem.mp searched
      have present : entries[index]? = some entries[index] := List.getElem?_eq_getElem inside
      refine .inr ⟨index, entries[index], present, of_decide_eq_true isKey, ?_⟩
      simp only [upsert, searched, List.modify_eq_set_getElem?, present]
      rfl

theorem lookup_upsert (unique : Unique key entries) (slot : κ) (fresh : α) (change : α → α)
    (isFresh : key (change fresh) = slot)
    (kept : ∀ entry ∈ entries, key (change entry) = key entry) (slot' : κ) :
    lookup key (upsert key entries slot fresh change) slot' =
      if slot' = slot then some (change ((lookup key entries slot).getD fresh))
      else lookup key entries slot' := by
  rcases upsert_cases key entries slot fresh change with
    ⟨absent, isUpsert⟩ | ⟨index, entry, present, isKey, isUpsert⟩
  · rw [isUpsert, lookup_concat unique (by rwa [isFresh]), isFresh, lookup_eq_none_iff.mpr absent,
      Option.getD_none]
  · have sameKey := kept entry (List.mem_of_getElem? present)
    rw [isUpsert, lookup_set unique present sameKey, sameKey, isKey, ← isKey,
      lookup_of_getElem? unique present, Option.getD_some]

theorem upsert_ne_nil (key : α → κ) (entries : List α) (slot : κ) (fresh : α) (change : α → α) :
    upsert key entries slot fresh change ≠ [] := by
  rcases upsert_cases key entries slot fresh change with
    ⟨-, isUpsert⟩ | ⟨index, entry, present, -, isUpsert⟩
  · rw [isUpsert]
    exact List.append_ne_nil_of_right_ne_nil _ (List.cons_ne_nil _ [])
  · rw [isUpsert, Ne, List.set_eq_nil_iff]
    rintro rfl
    cases present

/-- A change leaves the first entry in its place. -/
theorem head?_upsert {first : α} {rest : List α} (isCons : entries = first :: rest)
    (key : α → κ) (slot : κ) (fresh : α) (change : α → α) :
    (upsert key entries slot fresh change).head? = some first ∨
      (upsert key entries slot fresh change).head? = some (change first) := by
  subst isCons
  rcases upsert_cases key (first :: rest) slot fresh change with
    ⟨-, isUpsert⟩ | ⟨index, entry, present, -, isUpsert⟩
  · rw [isUpsert]
    exact .inl rfl
  · rw [isUpsert]
    cases index with
    | zero =>
        cases present
        exact .inr rfl
    | succ index => exact .inl rfl

end Uqda.Store
