import Mathlib.Data.List.AList
import Mathlib.Data.List.Sort

/-!
# Maps that can be ranged over

A finite map is an association list without repeated keys.  The order of the entries stands for
the order in which a loop over the map meets them.  `reorder` puts them into any other order: what
is proved of a map whose entries are reordered now and then is proved of every such loop.
-/

namespace Uqda.Store

universe u v

/-- A finite map. -/
abbrev Map (κ : Type u) (α : Type v) := AList fun _ : κ => α

namespace Map

variable {κ : Type u} {α : Type v} {β : Type v} [DecidableEq κ]

/-- The entries in the order of the loop. -/
def toList (m : Map κ α) : List (κ × α) := m.entries.map fun entry => (entry.1, entry.2)

/-- Change all values. -/
def mapValues (change : α → β) (m : Map κ α) : Map κ β :=
  ⟨m.entries.map fun entry => ⟨entry.1, change entry.2⟩, by
    have keys :
        (m.entries.map fun entry => (⟨entry.1, change entry.2⟩ : Sigma fun _ : κ => β)).keys =
          m.entries.keys := by
      rw [List.keys, List.keys, List.map_map]
      rfl
    rw [List.NodupKeys, keys]
    exact m.nodupKeys⟩

omit [DecidableEq κ] in
theorem nodupKeys_insertionSort (before : κ → κ → Bool) (m : Map κ α) :
    (m.entries.insertionSort fun entry other => before entry.1 other.1 = true).NodupKeys :=
  (List.perm_nodupKeys (List.perm_insertionSort _ m.entries)).mpr m.nodupKeys

/-- The same entries in another order. -/
def reorder (before : κ → κ → Bool) (m : Map κ α) : Map κ α :=
  ⟨m.entries.insertionSort fun entry other => before entry.1 other.1 = true,
    nodupKeys_insertionSort before m⟩

theorem mem_toList {m : Map κ α} {key : κ} {value : α} :
    (key, value) ∈ m.toList ↔ m.lookup key = some value := by
  rw [← Option.mem_def, AList.mem_lookup_iff, toList, List.mem_map]
  constructor
  · rintro ⟨⟨key, value⟩, present, same⟩
    cases same
    exact present
  · intro present
    exact ⟨⟨key, value⟩, present, rfl⟩

theorem mem_keys_iff {m : Map κ α} {key : κ} :
    key ∈ m.keys ↔ ∃ value, m.lookup key = some value := by
  rw [← AList.mem_keys, ← AList.lookup_isSome, Option.isSome_iff_exists]

theorem mem_iff {m : Map κ α} {key : κ} : key ∈ m ↔ ∃ value, m.lookup key = some value := by
  rw [AList.mem_keys, mem_keys_iff]

theorem mem_of_lookup {m : Map κ α} {key : κ} {value : α} (found : m.lookup key = some value) :
    key ∈ m :=
  mem_iff.mpr ⟨value, found⟩

theorem lookup_eq_none_iff {m : Map κ α} {key : κ} : m.lookup key = none ↔ key ∉ m.keys := by
  rw [AList.lookup_eq_none, AList.mem_keys]

@[simp]
theorem lookup_empty (key : κ) : (∅ : Map κ α).lookup key = none :=
  AList.lookup_empty key

theorem lookup_insert_eq (m : Map κ α) (key other : κ) (value : α) :
    (m.insert key value).lookup other = if other = key then some value else m.lookup other := by
  split
  · rename_i same
    rw [same, AList.lookup_insert]
  · rename_i different
    rw [AList.lookup_insert_ne different]

theorem lookup_erase_eq (m : Map κ α) (key other : κ) :
    (m.erase key).lookup other = if other = key then none else m.lookup other := by
  split
  · rename_i same
    rw [same, AList.lookup_erase]
  · rename_i different
    rw [AList.lookup_erase_ne different]

@[simp]
theorem lookup_mapValues (change : α → β) (m : Map κ α) (key : κ) :
    (m.mapValues change).lookup key = (m.lookup key).map change := by
  have present : ∀ value : β, (m.mapValues change).lookup key = some value ↔
      (m.lookup key).map change = some value := by
    intro value
    rw [← Option.mem_def, AList.mem_lookup_iff, Option.map_eq_some_iff, mapValues, List.mem_map]
    constructor
    · rintro ⟨⟨key, value⟩, present, same⟩
      cases same
      exact ⟨value, AList.mem_lookup_iff.mpr present, rfl⟩
    · rintro ⟨value, found, rfl⟩
      exact ⟨⟨key, value⟩, AList.mem_lookup_iff.mp found, rfl⟩
  exact Option.ext present

@[simp]
theorem mem_mapValues (change : α → β) (m : Map κ α) (key : κ) :
    key ∈ m.mapValues change ↔ key ∈ m := by
  rw [mem_iff, mem_iff, lookup_mapValues]
  constructor
  · rintro ⟨value, found⟩
    obtain ⟨old, found, -⟩ := Option.map_eq_some_iff.mp found
    exact ⟨old, found⟩
  · rintro ⟨value, found⟩
    exact ⟨change value, by rw [found]; rfl⟩

@[simp]
theorem lookup_reorder (before : κ → κ → Bool) (m : Map κ α) (key : κ) :
    (m.reorder before).lookup key = m.lookup key :=
  AList.perm_lookup (List.perm_insertionSort _ m.entries)

omit [DecidableEq κ] in
@[simp]
theorem mem_reorder (before : κ → κ → Bool) (m : Map κ α) (key : κ) :
    key ∈ m.reorder before ↔ key ∈ m :=
  AList.mem_of_perm (List.perm_insertionSort _ m.entries)

/-- Writing an entry that is there adds no key. -/
theorem mem_insert_of_mem {m : Map κ α} {key other : κ} (present : key ∈ m) (value : α) :
    other ∈ m.insert key value ↔ other ∈ m := by
  rw [AList.mem_insert]
  constructor
  · rintro (rfl | present')
    · exact present
    · exact present'
  · exact .inr

end Map

end Uqda.Store
