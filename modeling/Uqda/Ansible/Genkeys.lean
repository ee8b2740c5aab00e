import Uqda.Addressing.Order
import Uqda.Sorting.Passes

/-!
# Key sets for many hosts

The embedding of the search in `contrib/ansible/genkeys.go`.  One key set more than there are
hosts is generated and sorted from worst to best; each further one takes the place of the
worst and is moved to its own place.

The move ends at the first key set that is not worse.  That is an insertion into a sorted
list, but `sortKeySetArray` is made of the same moves from the front of a list that need not
be sorted.  It sorts exactly the lists in which the keys first get worse, one after the other,
and from then on never get worse again.
-/

namespace Uqda.Ansible

open Uqda.Addressing Uqda.Sorting

/-- `keySet`.  The public key has the size of an Ed25519 key. -/
structure KeySet where
  priv : List UInt8
  pub : PublicKey
  ip : String
  size : pub.length = publicKeySize

/-! ## The source -/

/-- The loop of `bubbleUpTo` from the index `i` on, with `count` iterations to go.  `none` is
an index out of range. -/
def bubbleFrom (sets : List KeySet) (i : Nat) : Nat → Option (List KeySet)
  | 0 => some sets
  | count + 1 =>
      match sets[i]?, sets[i + 1]? with
      | some current, some next =>
          match isBetter next.pub current.pub with
          | none => none
          | some true => bubbleFrom ((sets.set i next).set (i + 1) current) (i + 1) count
          | some false => some sets
      | _, _ => none

/-- `bubbleUpTo`. -/
def bubbleUpTo (sets : List KeySet) (num : Nat) : Option (List KeySet) :=
  bubbleFrom sets 0 (sets.length - num - 1)

/-- `sortKeySetArray`. -/
def sortKeySetArray (sets : List KeySet) : Option (List KeySet) :=
  (List.range sets.length).foldlM bubbleUpTo sets

/-- The key sets that are generated before the search. -/
def firstKeys (numHosts : Nat) (newKey : Nat → KeySet) : List KeySet :=
  (List.range (numHosts + 1)).map newKey

/-- The search in `main`.  The generated key sets are numbered. -/
def search (numHosts keyTries : Nat) (newKey : Nat → KeySet) : Option (List KeySet) := do
  let keys ← sortKeySetArray (firstKeys numHosts newKey)
  (List.range (keyTries - numHosts - 1)).foldlM
    (fun keys i => bubbleUpTo (keys.set 0 (newKey (numHosts + 1 + i))) 0) keys

/-! ## From worst to best -/

/-- The first key set may stand before the second: its public key is not better. -/
def KeySet.Precedes (first second : KeySet) : Prop :=
  isBetter second.pub first.pub ≠ some true

instance : DecidableRel KeySet.Precedes := fun first second =>
  inferInstanceAs (Decidable (isBetter second.pub first.pub ≠ some true))

theorem KeySet.precedes_iff {first second : KeySet} :
    first.Precedes second ↔ second.pub ≤ first.pub := by
  rw [KeySet.Precedes, Ne, isBetter_iff (second.size.trans first.size.symm), List.not_lt]

instance : Std.Total KeySet.Precedes where
  total first second := by
    rw [KeySet.precedes_iff, KeySet.precedes_iff]
    exact List.le_total _ _

instance : IsTrans KeySet KeySet.Precedes where
  trans first second third := by
    simp only [KeySet.precedes_iff]
    exact fun below further => List.le_trans further below

/-- Two public keys of one size can be compared. -/
theorem isBetter_ne_none {oldPub newPub : PublicKey} (same : oldPub.length = newPub.length) :
    isBetter oldPub newPub ≠ none := by
  induction oldPub generalizing newPub with
  | nil => simp [isBetter]
  | cons old oldPub ih =>
      cases newPub with
      | nil => cases same
      | cons new newPub =>
          rw [isBetter]
          split
          · simp
          · split
            · simp
            · exact ih (Nat.succ.inj same)

theorem isBetter_eq (current next : KeySet) :
    isBetter next.pub current.pub = some (!decide (current.Precedes next)) := by
  have comparable := isBetter_ne_none (next.size.trans current.size.symm)
  cases compared : isBetter next.pub current.pub with
  | none => exact absurd compared comparable
  | some better => cases better <;> simp [KeySet.Precedes, compared]

/-- The key sets that are kept are the best of those generated. -/
def KeepsBest (numHosts keyTries : Nat) (newKey : Nat → KeySet) : Prop :=
  ∃ keys, search numHosts keyTries newKey = some keys ∧ keys.length = numHosts + 1 ∧
    Last KeySet.Precedes keys.tail ((List.range keyTries).map newKey)

/-! ## The source in terms of passes -/

theorem bubbleFrom_append (done sets : List KeySet) {count : Nat}
    (inside : count + 1 ≤ sets.length) :
    bubbleFrom (done ++ sets) done.length count =
      some (done ++ Sorting.pass KeySet.Precedes count sets) := by
  induction count generalizing done sets with
  | zero => rfl
  | succ count ih =>
      rcases sets with _ | ⟨current, _ | ⟨next, rest⟩⟩
      · simp at inside
      · simp at inside
      · have here : (done ++ current :: next :: rest)[done.length]? = some current := by simp
        have after : (done ++ current :: next :: rest)[done.length + 1]? = some next := by
          simp
        have swapped : ((done ++ current :: next :: rest).set done.length next).set
            (done.length + 1) current = (done ++ [next]) ++ current :: rest := by
          simp
        rw [bubbleFrom, here, after, Sorting.pass]
        simp only [isBetter_eq]
        by_cases ordered : current.Precedes next
        · simp [ordered]
        · have moved := ih (done ++ [next]) (current :: rest) (by simpa using inside)
          rw [List.length_append, List.length_singleton] at moved
          simp only [ordered, decide_false, Bool.not_false, if_false, swapped, moved]
          rw [List.append_assoc, List.singleton_append]

theorem bubbleUpTo_eq (sets : List KeySet) (num : Nat) :
    bubbleUpTo sets num = some (Sorting.pass KeySet.Precedes (sets.length - num - 1) sets) := by
  rcases sets with _ | ⟨first, sets⟩
  · simp [bubbleUpTo, bubbleFrom, Sorting.pass]
  · exact bubbleFrom_append [] (first :: sets) (by simp only [List.length_cons]; omega)

theorem sortKeySetArray_eq (sets : List KeySet) :
    sortKeySetArray sets = some (passes KeySet.Precedes sets.length sets) := by
  have from_ : ∀ count start (sets : List KeySet), start + count = sets.length →
      (List.range' start count).foldlM bubbleUpTo sets =
        some (passes KeySet.Precedes count sets) := by
    intro count
    induction count with
    | zero => exact fun start sets _ => rfl
    | succ count ih =>
        intro start sets whole
        have left : sets.length - start - 1 = count := by omega
        have same := (perm_pass KeySet.Precedes count sets).length_eq
        rw [List.range'_succ, List.foldlM_cons, bubbleUpTo_eq, left]
        exact ih (start + 1) _ (by omega)
  rw [sortKeySetArray, List.range_eq_range']
  exact from_ sets.length 0 sets (by omega)

theorem foldlM_bubbleUpTo {ι : Type} (new : ι → KeySet) (order : List ι) (keys : List KeySet) :
    order.foldlM (fun keys i => bubbleUpTo (keys.set 0 (new i)) 0) keys =
      some ((order.map new).foldl (feed KeySet.Precedes) keys) := by
  induction order generalizing keys with
  | nil => rfl
  | cons i order ih =>
      rw [List.foldlM_cons, bubbleUpTo_eq, List.length_set]
      exact ih _

@[simp]
theorem length_firstKeys (numHosts : Nat) (newKey : Nat → KeySet) :
    (firstKeys numHosts newKey).length = numHosts + 1 := by
  simp [firstKeys]

/-- The key sets that are generated in the search. -/
def furtherKeys (numHosts keyTries : Nat) (newKey : Nat → KeySet) : List KeySet :=
  (List.range (keyTries - numHosts - 1)).map fun i => newKey (numHosts + 1 + i)

theorem firstKeys_append_furtherKeys {numHosts keyTries : Nat} (enough : numHosts < keyTries)
    (newKey : Nat → KeySet) :
    firstKeys numHosts newKey ++ furtherKeys numHosts keyTries newKey =
      (List.range keyTries).map newKey := by
  have split : keyTries = (numHosts + 1) + (keyTries - numHosts - 1) := by omega
  conv_rhs => rw [split, List.range_add]
  simp [firstKeys, furtherKeys, Function.comp_def]

/-- The search arranges the first key sets by passes from the front, and then feeds. -/
theorem search_eq (numHosts keyTries : Nat) (newKey : Nat → KeySet) :
    ∃ worst keys, (worst :: keys).Perm (firstKeys numHosts newKey) ∧
      sortKeySetArray (firstKeys numHosts newKey) = some (worst :: keys) ∧
      search numHosts keyTries newKey =
        some ((furtherKeys numHosts keyTries newKey).foldl (feed KeySet.Precedes)
          (worst :: keys)) := by
  have same := perm_passes KeySet.Precedes (numHosts + 1) (firstKeys numHosts newKey)
  have arranged := sortKeySetArray_eq (firstKeys numHosts newKey)
  rw [length_firstKeys] at arranged
  obtain ⟨worst, keys, shape⟩ := List.exists_cons_of_length_eq_add_one
    (same.length_eq.trans (length_firstKeys numHosts newKey))
  rw [shape] at same arranged
  refine ⟨worst, keys, same, arranged, ?_⟩
  rw [search, arranged]
  exact foldlM_bubbleUpTo (fun i => newKey (numHosts + 1 + i)) _ _

/-- When the first key sets are sorted, as a whole and behind the worst. -/
theorem sortKeySetArray_pairwise_iff {sets arranged : List KeySet}
    (ended : sortKeySetArray sets = some arranged) :
    (arranged.Pairwise KeySet.Precedes ↔ RisesThenSorted KeySet.Precedes sets) ∧
      (arranged.tail.Pairwise KeySet.Precedes ↔ RisesThenSorted KeySet.Precedes sets) := by
  rw [sortKeySetArray_eq] at ended
  cases ended
  exact pairwise_passes_iff KeySet.Precedes sets

/-! ## What is kept -/

section Keep

variable {numHosts keyTries : Nat} {newKey : Nat → KeySet}

/-- With first key sets that are sorted, the best are kept. -/
theorem keepsBest_of_risesThenSorted (enough : numHosts < keyTries)
    (shape : RisesThenSorted KeySet.Precedes (firstKeys numHosts newKey)) :
    KeepsBest numHosts keyTries newKey := by
  obtain ⟨worst, keys, same, arranged, ended⟩ := search_eq numHosts keyTries newKey
  have sorted := (sortKeySetArray_pairwise_iff arranged).1.mpr shape
  refine ⟨_, ended, ?_, ?_⟩
  · rw [length_foldl_feed, same.length_eq, length_firstKeys]
  · rw [← firstKeys_append_furtherKeys enough]
    exact last_foldl_feed (last_of_pairwise sorted same) sorted.tail _

/-- The one key set that is not kept is no better than those that are. -/
theorem KeepsBest.precedes (keeps : KeepsBest numHosts keyTries newKey)
    (enough : numHosts < keyTries) {worst : KeySet} {keys : List KeySet}
    (ended : search numHosts keyTries newKey = some (worst :: keys)) :
    ∀ key ∈ keys, worst.Precedes key := by
  intro key member
  obtain ⟨_, same, -, last⟩ := keeps
  cases ended.symm.trans same
  obtain ⟨first, rest, generated, -, fed⟩ := search_eq numHosts keyTries newKey
  obtain ⟨lost, together⟩ :=
    exists_perm_foldl_feed KeySet.Precedes first rest (furtherKeys numHosts keyTries newKey)
  rw [← Option.some.inj (ended.symm.trans fed)] at together
  rw [← firstKeys_append_furtherKeys enough] at last
  have whole : (keys ++ worst :: lost).Perm
      (firstKeys numHosts newKey ++ furtherKeys numHosts keyTries newKey) :=
    List.perm_middle.trans (together.trans (generated.append_right _))
  exact last.rel whole List.mem_cons_self member

/-- A key set with the all-zero key, which is best. -/
def bestKey : KeySet :=
  ⟨[], zeroKey, "", List.length_replicate⟩

theorem precedes_bestKey (key : KeySet) : key.Precedes bestKey := by
  rw [KeySet.precedes_iff, ← List.not_lt]
  intro below
  have equal : key.pub = zeroKey := (le_zeros_iff key.size).mp (List.le_of_lt below)
  exact List.lt_irrefl _ (equal ▸ below)

/-- If the first key sets are of another shape, there are further ones with which the search
loses one of the best. -/
theorem exists_not_keepsBest
    (other : ¬RisesThenSorted KeySet.Precedes (firstKeys numHosts newKey)) :
    ∃ keyTries later, numHosts < keyTries ∧ (∀ i ≤ numHosts, later i = newKey i) ∧
      ¬KeepsBest numHosts keyTries later := by
  let later : Nat → KeySet := fun i => if i ≤ numHosts then newKey i else bestKey
  have agree : ∀ i ≤ numHosts, later i = newKey i := fun i early => if_pos early
  have first : firstKeys numHosts later = firstKeys numHosts newKey :=
    List.map_congr_left fun i member => agree i (Nat.lt_succ_iff.mp (List.mem_range.mp member))
  have further : ∀ count, furtherKeys numHosts (numHosts + 1 + count) later =
      List.replicate count bestKey := by
    intro count
    rw [furtherKeys, List.map_congr_left (g := fun _ => bestKey) fun i _ => if_neg (by omega)]
    have left : numHosts + 1 + count - numHosts - 1 = count := by omega
    rw [left, List.map_const', List.length_range]
  obtain ⟨worst, keys, -, arranged, -⟩ := search_eq numHosts 0 later
  rw [← first] at other
  have unsorted : ¬keys.Pairwise KeySet.Precedes :=
    mt (sortKeySetArray_pairwise_iff arranged).2.mp other
  obtain ⟨count, front, kept, reached, element, member, late⟩ :=
    exists_foldl_feed_replicate precedes_bestKey (a := worst) unsorted
  refine ⟨numHosts + 1 + count, later, by omega, agree, fun keeps => late ?_⟩
  obtain ⟨_, _, -, again, ended⟩ := search_eq numHosts (numHosts + 1 + count) later
  cases arranged.symm.trans again
  rw [further, reached] at ended
  exact keeps.precedes (by omega) ended element member

end Keep

/-! ## The generator -/

/-- The generator is right about a sequence of key sets: the best of them are kept, the first
ones are sorted from worst to best, and a key set that takes the place of the worst comes to
its place among others that are sorted. -/
structure Correct (numHosts keyTries : Nat) (newKey : Nat → KeySet) : Prop where
  keeps : KeepsBest numHosts keyTries newKey
  sorts : ∃ sets, sortKeySetArray (firstKeys numHosts newKey) = some sets ∧
    sets.Perm (firstKeys numHosts newKey) ∧ sets.Pairwise KeySet.Precedes
  inserts : ∀ (keys : List KeySet) (new : KeySet), keys.tail.Pairwise KeySet.Precedes →
    ∃ sets, bubbleUpTo (keys.set 0 new) 0 = some sets ∧ sets.Perm (keys.set 0 new) ∧
      sets.Pairwise KeySet.Precedes

/-- The generator is right about a sequence of key sets exactly if the first of them, one more
than there are hosts, get worse up to some point, each worse than the one before, and from
then on never get worse.  The same is the condition for the best to be kept whatever is
generated afterwards. -/
theorem genkeys_correct_iff (numHosts keyTries : Nat) (newKey : Nat → KeySet)
    (enough : numHosts < keyTries) :
    (Correct numHosts keyTries newKey ↔
        RisesThenSorted KeySet.Precedes (firstKeys numHosts newKey)) ∧
      ((∀ laterTries later, numHosts < laterTries → (∀ i ≤ numHosts, later i = newKey i) →
          KeepsBest numHosts laterTries later) ↔
        RisesThenSorted KeySet.Precedes (firstKeys numHosts newKey)) := by
  obtain ⟨worst, keys, same, arranged, -⟩ := search_eq numHosts keyTries newKey
  refine ⟨⟨fun correct => ?_, fun shape => ⟨?_, ?_, fun keys new sorted => ?_⟩⟩,
    fun always => ?_, fun shape laterTries later more agree => ?_⟩
  · obtain ⟨sets, ended, -, sorted⟩ := correct.sorts
    exact (sortKeySetArray_pairwise_iff ended).1.mp sorted
  · exact keepsBest_of_risesThenSorted enough shape
  · exact ⟨_, arranged, same, (sortKeySetArray_pairwise_iff arranged).1.mpr shape⟩
  · rw [bubbleUpTo_eq, List.length_set]
    exact ⟨_, rfl, perm_pass _ _ _, pairwise_feed sorted new⟩
  · by_contra other
    obtain ⟨laterTries, later, more, agree, loses⟩ := exists_not_keepsBest other
    exact loses (always laterTries later more agree)
  · refine keepsBest_of_risesThenSorted more ?_
    have first : firstKeys numHosts later = firstKeys numHosts newKey :=
      List.map_congr_left fun i member => agree i (Nat.lt_succ_iff.mp (List.mem_range.mp member))
    exact first ▸ shape

/-- A key set whose public key is zero but for the last byte. -/
def numberedKey (last : UInt8) : KeySet :=
  ⟨[], List.replicate 31 0 ++ [last], "", rfl⟩

/-- Key sets with the numbers 3, 1, 2 and then 0. -/
def shuffledKeys (i : Nat) : KeySet :=
  numberedKey ([3, 1, 2].getD i 0)

/-- Key sets that get worse once and then better: the generator is right about them. -/
theorem genkeys_correct_rising :
    2 < 4 ∧ Correct 2 4 fun i => numberedKey ([1, 3, 2].getD i 0) := by
  have enough : 2 < 4 := by decide
  refine ⟨enough, (genkeys_correct_iff 2 4 _ enough).1.mpr ?_⟩
  exact ⟨[numberedKey 1], [numberedKey 3, numberedKey 2], rfl, by decide, by decide⟩

/-- The order 3, 1, 2 is left as it is, and when 0 comes in for the 3, the 1 is not kept. -/
theorem shuffledKeys_lost :
    (sortKeySetArray (firstKeys 2 shuffledKeys)).map
        (fun sets => sets.map fun key => key.pub.getLastD 0) = some [3, 1, 2] ∧
      (search 2 4 shuffledKeys).map (fun sets => sets.map fun key => key.pub.getLastD 0) =
        some [1, 2, 0] ∧
      ¬KeepsBest 2 4 shuffledKeys := by
  refine ⟨by decide, by decide, fun keeps => ?_⟩
  have ended : search 2 4 shuffledKeys = some [numberedKey 1, numberedKey 2, numberedKey 0] := by
    rfl
  exact absurd (keeps.precedes (by decide) ended (numberedKey 2) (by simp)) (by decide)

end Uqda.Ansible
