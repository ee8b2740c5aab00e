import Mathlib.Data.List.Sort

/-!
# Passes that end early

A pass moves the first element of a list back, past the elements that have to stand before
it, and ends at the first element that need not.  In front of a sorted list a pass is an
insertion.  Passes from the front, each one step shorter than the one before, are not a
sort: as soon as the first two elements are in order, nothing moves any more.

The relation says which element may stand before which one.
-/

namespace Uqda.Sorting

open List

universe u

variable {α : Type u} (r : α → α → Prop) [DecidableRel r]

/-- One pass, with at most `count` exchanges. -/
def pass : Nat → List α → List α
  | count + 1, first :: second :: rest =>
      if r first second then first :: second :: rest
      else second :: pass count (first :: rest)
  | _, l => l

/-- `count` passes.  The first may make `count - 1` exchanges, and each of the others one
less. -/
def passes : Nat → List α → List α
  | 0, l => l
  | count + 1, l => passes count (pass r count l)

/-- The first element is replaced and takes its place in a pass. -/
def feed (l : List α) (new : α) : List α :=
  pass r (l.length - 1) (l.set 0 new)

/-- First each element has to stand behind the next, and from then on the list is sorted. -/
def RisesThenSorted (l : List α) : Prop :=
  ∃ rising sorted, l = rising ++ sorted ∧ rising.Pairwise (fun a b => ¬r a b) ∧
    sorted.Pairwise r

/-- The elements that are kept come last among all of them: none of the rest has to stand
behind one of them. -/
def Last (kept all : List α) : Prop :=
  ∃ rest, (kept ++ rest).Perm all ∧ ∀ other ∈ rest, ∀ element ∈ kept, r other element

/-! ## Permutations -/

theorem perm_pass (count : Nat) (l : List α) : (pass r count l).Perm l := by
  fun_induction pass r count l with
  | case1 => exact .refl _
  | case2 count first second rest _ ih => exact (ih.cons second).trans (.swap first second rest)
  | case3 => exact .refl _

theorem perm_passes (count : Nat) (l : List α) : (passes r count l).Perm l := by
  induction count generalizing l with
  | zero => exact .refl l
  | succ count ih => exact (ih _).trans (perm_pass r count l)

/-! ## A pass as an insertion -/

/-- A pass that is long enough inserts. -/
theorem pass_eq_orderedInsert {count : Nat} {a : α} {l : List α}
    (enough : l.countP (fun b => ¬r a b) ≤ count) :
    pass r count (a :: l) = l.orderedInsert r a := by
  induction l generalizing count with
  | nil => cases count <;> rfl
  | cons b l ih =>
      rw [orderedInsert_cons]
      by_cases ordered : r a b
      · rw [if_pos ordered]
        cases count with
        | zero => rfl
        | succ count => rw [pass, if_pos ordered]
      · rw [countP_cons_of_pos (by simpa using ordered)] at enough
        cases count with
        | zero => omega
        | succ count => rw [pass, if_neg ordered, if_neg ordered, ih (by omega)]

theorem feed_cons (a : α) (l : List α) (new : α) :
    feed r (a :: l) new = l.orderedInsert r new :=
  pass_eq_orderedInsert r countP_le_length

theorem orderedInsert_append_of_forall {a : α} {l : List α} (rest : List α)
    (behind : ∀ b ∈ l, ¬r a b) :
    (l ++ rest).orderedInsert r a = l ++ rest.orderedInsert r a := by
  induction l with
  | nil => rfl
  | cons b l ih =>
      obtain ⟨first, others⟩ := forall_mem_cons.mp behind
      rw [cons_append, orderedInsert_cons, if_neg first, ih others, cons_append]

/-! ## Passes from the front -/

/-- Nothing moves once the first element may stand before the second. -/
theorem passes_of_ordered {a : α} {l : List α} (ordered : ∀ b ∈ l.head?, r a b) (count : Nat) :
    passes r count (a :: l) = a :: l := by
  have still : ∀ count, pass r count (a :: l) = a :: l := by
    intro count
    cases l with
    | nil => cases count <;> rfl
    | cons b l =>
        cases count with
        | zero => rfl
        | succ count => rw [pass, if_pos (ordered b rfl)]
  induction count with
  | zero => rfl
  | succ count ih => rw [passes, still, ih]

/-- The first element after an insertion is the new one or the old first one. -/
theorem mem_head?_orderedInsert {a b : α} {l : List α}
    (first : b ∈ (l.orderedInsert r a).head?) : b = a ∨ b ∈ l.head? := by
  cases l with
  | nil => exact .inl (by simpa using first.symm)
  | cons c l =>
      rw [orderedInsert_cons] at first
      split_ifs at first
      · exact .inl (by simpa using first.symm)
      · exact .inr first

section Preorder

variable [Std.Total r] [IsTrans α r]

omit [DecidableRel r] in
variable {r} in
theorem not_rel_trans {a b c : α} (first : ¬r a b) (second : ¬r b c) : ¬r a c := fun direct =>
  first (trans_of r direct ((total_of r c b).resolve_right second))

/-- The elements of a rising front are inserted one by one into what follows the top. -/
theorem passes_append {rising rest : List α} {top : α} {count : Nat}
    (rises : (rising ++ [top]).Pairwise fun a b => ¬r a b)
    (ordered : ∀ b ∈ rest.head?, r top b)
    (enough : ∀ a ∈ rising.head?, rising.length + 1 + rest.countP (fun b => ¬r a b) ≤ count) :
    passes r count (rising ++ top :: rest) =
      top :: rising.foldl (fun l a => l.orderedInsert r a) rest := by
  induction rising generalizing rest count with
  | nil => exact passes_of_ordered r ordered count
  | cons a rising ih =>
      rw [cons_append, pairwise_cons] at rises
      obtain ⟨behind, rises⟩ := rises
      have bound := enough a rfl
      rw [length_cons] at bound
      cases count with
      | zero => omega
      | succ count =>
          -- the pass takes the element past the front and the top, into the rest
          have inserted : pass r count (a :: (rising ++ top :: rest)) =
              rising ++ top :: rest.orderedInsert r a := by
            have front := countP_le_length (l := rising ++ [top]) (p := fun b => ¬r a b)
            rw [length_append, length_singleton] at front
            have passed : (rising ++ [top] ++ rest).countP (fun b => ¬r a b) ≤ count := by
              rw [countP_append]
              omega
            rw [append_cons rising top rest, pass_eq_orderedInsert r passed,
              orderedInsert_append_of_forall r _ behind, append_assoc, singleton_append]
          rw [cons_append, passes, inserted]
          refine ih rises (fun b first => ?_) (fun next first => ?_)
          · rcases mem_head?_orderedInsert r first with rfl | old
            · exact (total_of r top b).resolve_right (behind top (by simp))
            · exact ordered b old
          · -- what the next element passes in the rest, this one has passed, and not this one
            have step : ¬r a next := behind next (mem_append_left _ (mem_of_mem_head? first))
            have fewer : rest.countP (fun b => ¬r next b) ≤ rest.countP (fun b => ¬r a b) := by
              refine countP_mono_left fun b _ further => ?_
              simp only [decide_eq_true_eq] at further ⊢
              exact not_rel_trans step further
            have back : r next a := (total_of r next a).resolve_right step
            rw [(perm_orderedInsert r a rest).countP_eq, countP_cons_of_neg (by simpa using back)]
            omega

/-! ## When the result is sorted -/

theorem pairwise_foldl_orderedInsert_iff (inserted l : List α) :
    (inserted.foldl (fun l a => l.orderedInsert r a) l).Pairwise r ↔ l.Pairwise r := by
  induction inserted generalizing l with
  | nil => exact Iff.rfl
  | cons a inserted ih =>
      rw [foldl_cons, ih]
      exact ⟨fun sorted => sorted.sublist (sublist_orderedInsert a l),
        fun sorted => sorted.orderedInsert a l⟩

/-- Every list has a rising front up to a top that may stand before what follows. -/
theorem exists_top (a : α) (l : List α) :
    ∃ rising top rest, a :: l = rising ++ top :: rest ∧
      (rising ++ [top]).Pairwise (fun a b => ¬r a b) ∧ ∀ b ∈ rest.head?, r top b := by
  induction l generalizing a with
  | nil => exact ⟨[], a, [], rfl, pairwise_singleton _ a, by simp⟩
  | cons b l ih =>
      by_cases ordered : r a b
      · exact ⟨[], a, b :: l, rfl, pairwise_singleton _ a, by simpa using ordered⟩
      · obtain ⟨rising, top, rest, shape, rises, ends⟩ := ih b
        refine ⟨a :: rising, top, rest, by rw [shape, cons_append], ?_, ends⟩
        rw [cons_append]
        refine pairwise_cons.mpr ⟨fun c member => ?_, rises⟩
        -- the next element is the first of the front, and the others are behind it
        cases rising with
        | nil =>
            cases shape
            rw [nil_append, mem_singleton] at member
            exact member ▸ ordered
        | cons d rising =>
            cases shape
            rcases mem_cons.mp member with rfl | later
            · exact ordered
            · exact not_rel_trans ordered ((pairwise_cons.mp rises).1 c later)

/-- What passes from the front make of such a list. -/
theorem passes_eq_of_top {rising rest : List α} {top : α}
    (rises : (rising ++ [top]).Pairwise fun a b => ¬r a b)
    (ordered : ∀ b ∈ rest.head?, r top b) :
    passes r (rising ++ top :: rest).length (rising ++ top :: rest) =
      top :: rising.foldl (fun l a => l.orderedInsert r a) rest := by
  refine passes_append r rises ordered fun a _ => ?_
  have part := countP_le_length (l := rest) (p := fun b => ¬r a b)
  rw [length_append, length_cons]
  omega

/-- The top may stand before everything else, if the rest is sorted. -/
theorem pairwise_top_foldl {rising rest : List α} {top : α}
    (rises : (rising ++ [top]).Pairwise fun a b => ¬r a b)
    (ordered : ∀ b ∈ rest.head?, r top b) (sorted : rest.Pairwise r) :
    (top :: rising.foldl (fun l a => l.orderedInsert r a) rest).Pairwise r := by
  have inserted : ∀ inserted l : List α, (∀ b ∈ inserted, r top b) → (∀ b ∈ l, r top b) →
      ∀ b ∈ inserted.foldl (fun l a => l.orderedInsert r a) l, r top b := by
    intro inserted
    induction inserted with
    | nil => exact fun l _ below => below
    | cons a inserted ih =>
        intro l first below
        obtain ⟨here, first⟩ := forall_mem_cons.mp first
        refine ih _ first fun b member => ?_
        rcases (mem_orderedInsert r).mp member with rfl | old
        · exact here
        · exact below b old
  refine pairwise_cons.mpr
    ⟨inserted rising rest (fun b member => ?_) fun b member => ?_,
      (pairwise_foldl_orderedInsert_iff r rising rest).mpr sorted⟩
  · exact (total_of r top b).resolve_right
      ((pairwise_append.mp rises).2.2 b member top (mem_singleton_self top))
  · cases rest with
    | nil => cases member
    | cons c rest =>
        rcases mem_cons.mp member with rfl | later
        · exact ordered b rfl
        · exact trans_of r (ordered c rfl) ((pairwise_cons.mp sorted).1 b later)

/-- A list that rises and is then sorted has a top with a sorted rest. -/
theorem RisesThenSorted.exists_top {a : α} {l : List α} (shape : RisesThenSorted r (a :: l)) :
    ∃ rising top rest, a :: l = rising ++ top :: rest ∧
      (rising ++ [top]).Pairwise (fun a b => ¬r a b) ∧ (∀ b ∈ rest.head?, r top b) ∧
        rest.Pairwise r := by
  obtain ⟨rising, sorted, same, rises, ordered⟩ := shape
  rcases sorted with _ | ⟨first, sorted⟩
  · obtain ⟨front, top, rfl⟩ : ∃ front top, rising = front ++ [top] := by
      refine ⟨rising.dropLast, rising.getLast ?_, (dropLast_append_getLast _).symm⟩
      rintro rfl
      cases same
    exact ⟨front, top, [], by rw [same, append_nil], rises, by simp, .nil⟩
  · have head : ∀ b ∈ sorted.head?, r first b := fun b member =>
      (pairwise_cons.mp ordered).1 b (mem_of_mem_head? member)
    rcases eq_nil_or_concat' rising with rfl | ⟨front, top, rfl⟩
    · exact ⟨[], first, sorted, same, pairwise_singleton _ first, head,
        (pairwise_cons.mp ordered).2⟩
    · by_cases level : r top first
      · refine ⟨front, top, first :: sorted, by rw [same, append_assoc, singleton_append], rises,
          by simpa using level, ordered⟩
      · -- the sorted part starts with the top
        refine ⟨front ++ [top], first, sorted, same, ?_, head, (pairwise_cons.mp ordered).2⟩
        refine pairwise_append.mpr ⟨rises, pairwise_singleton _ first, fun b member c last => ?_⟩
        cases mem_singleton.mp last
        rcases mem_append.mp member with earlier | top'
        · have below := (pairwise_append.mp rises).2.2 b earlier top (mem_singleton_self top)
          exact not_rel_trans below level
        · cases mem_singleton.mp top'
          exact level

/-- Passes from the front sort exactly the lists that rise and are then sorted.  For any
other list, not even what follows the first element of the result is sorted. -/
theorem pairwise_passes_iff (l : List α) :
    ((passes r l.length l).Pairwise r ↔ RisesThenSorted r l) ∧
      ((passes r l.length l).tail.Pairwise r ↔ RisesThenSorted r l) := by
  cases l with
  | nil =>
      have empty : RisesThenSorted r [] := ⟨[], [], rfl, .nil, .nil⟩
      exact ⟨iff_of_true .nil empty, iff_of_true .nil empty⟩
  | cons a l =>
      have tail :
          (passes r (a :: l).length (a :: l)).tail.Pairwise r → RisesThenSorted r (a :: l) := by
        intro sorted
        obtain ⟨rising, top, rest, shape, rises, ordered⟩ := exists_top r a l
        rw [shape, passes_eq_of_top r rises ordered, tail_cons,
          pairwise_foldl_orderedInsert_iff] at sorted
        exact ⟨rising ++ [top], rest, by rw [shape, append_assoc, singleton_append], rises, sorted⟩
      have whole : RisesThenSorted r (a :: l) → (passes r (a :: l).length (a :: l)).Pairwise r := by
        intro risesThenSorted
        obtain ⟨rising, top, rest, shape, rises, ordered, sorted⟩ := risesThenSorted.exists_top
        rw [shape, passes_eq_of_top r rises ordered]
        exact pairwise_top_foldl r rises ordered sorted
      exact ⟨⟨fun sorted => tail sorted.tail, whole⟩, ⟨tail, fun shape => (whole shape).tail⟩⟩

end Preorder

/-! ## Feeding elements to a sorted list -/

section Last

omit [DecidableRel r]

variable {r}

/-- The rest consists of what is left out. -/
theorem Last.rel {kept all rest : List α} (last : Last r kept all)
    (together : (kept ++ rest).Perm all) {other element : α} (left : other ∈ rest)
    (member : element ∈ kept) : r other element := by
  obtain ⟨known, whole, ordered⟩ := last
  have same : known.Perm rest := (perm_append_left_iff kept).mp (whole.trans together.symm)
  exact ordered other (same.mem_iff.mpr left) element member

/-- The elements after the first of a sorted list come last. -/
theorem last_of_pairwise {a : α} {l all : List α} (sorted : (a :: l).Pairwise r)
    (same : (a :: l).Perm all) : Last r l all := by
  refine ⟨[a], (perm_append_singleton a l).trans same, fun other left element member => ?_⟩
  cases mem_singleton.mp left
  exact (pairwise_cons.mp sorted).1 element member

end Last

theorem exists_cons_orderedInsert (a : α) (l : List α) :
    ∃ first rest, l.orderedInsert r a = first :: rest :=
  exists_cons_of_length_pos (by rw [orderedInsert_length]; exact Nat.succ_pos _)

theorem length_foldl_feed (l fed : List α) :
    (fed.foldl (feed r) l).length = l.length := by
  induction fed generalizing l with
  | nil => rfl
  | cons new fed ih => rw [foldl_cons, ih, feed, (perm_pass r _ _).length_eq, length_set]

/-- What is fed replaces something. -/
theorem exists_perm_foldl_feed (a : α) (l fed : List α) :
    ∃ lost, (fed.foldl (feed r) (a :: l) ++ lost).Perm (a :: l ++ fed) := by
  induction fed generalizing a l with
  | nil => exact ⟨[], by simp⟩
  | cons new fed ih =>
      obtain ⟨first, kept, shape⟩ := exists_cons_orderedInsert r new l
      have same := perm_orderedInsert r new l
      rw [shape] at same
      obtain ⟨lost, together⟩ := ih first kept
      rw [foldl_cons, feed_cons, shape]
      refine ⟨a :: lost, ?_⟩
      calc fed.foldl (feed r) (first :: kept) ++ a :: lost
          ~ a :: (fed.foldl (feed r) (first :: kept) ++ lost) := perm_middle
        _ ~ a :: (first :: kept ++ fed) := together.cons a
        _ ~ a :: (new :: l ++ fed) := (same.append_right fed).cons a
        _ ~ a :: (l ++ new :: fed) := perm_middle.symm.cons a

section Feed

variable [Std.Total r] [IsTrans α r]

variable {r}

/-- A sorted list stays sorted, whatever is fed in place of its first element. -/
theorem pairwise_feed {l : List α} (sorted : l.tail.Pairwise r) (new : α) :
    (feed r l new).Pairwise r := by
  cases l with
  | nil => exact .nil
  | cons a l =>
      rw [feed_cons]
      exact sorted.orderedInsert new l

/-- The elements behind the first come last, and so they do when one more is fed. -/
theorem Last.orderedInsert {l all : List α} (last : Last r l all) (sorted : l.Pairwise r)
    (new : α) : Last r (l.orderedInsert r new).tail (all ++ [new]) := by
  obtain ⟨first, kept, shape⟩ := exists_cons_orderedInsert r new l
  have sorted := sorted.orderedInsert new l
  have same := perm_orderedInsert r new l
  obtain ⟨rest, together, ordered⟩ := last
  rw [shape] at sorted same ⊢
  refine ⟨first :: rest, ?_, fun other left element member => ?_⟩
  · calc kept ++ first :: rest
        ~ first :: kept ++ rest := perm_middle
      _ ~ new :: l ++ rest := same.append_right rest
      _ ~ new :: all := together.cons new
      _ ~ all ++ [new] := (perm_append_singleton new all).symm
  · have behind := (pairwise_cons.mp sorted).1
    rcases mem_cons.mp left with rfl | earlier
    · exact behind element member
    · rcases mem_cons.mp (same.mem_iff.mp mem_cons_self) with fed | old
      · -- the new element is the first one, and the others are what they were
        have unchanged : kept.Perm l := (perm_cons new).mp (fed ▸ same)
        exact ordered other earlier element (unchanged.mem_iff.mp member)
      · exact trans_of r (ordered other earlier first old) (behind element member)

/-- After any number of elements, those behind the first come last. -/
theorem last_foldl_feed {a : α} {l all : List α} (last : Last r l all) (sorted : l.Pairwise r)
    (fed : List α) : Last r (fed.foldl (feed r) (a :: l)).tail (all ++ fed) := by
  induction fed generalizing a l all with
  | nil => rwa [append_nil]
  | cons new fed ih =>
      have next := last.orderedInsert sorted new
      have still := sorted.orderedInsert new l
      obtain ⟨first, kept, shape⟩ := exists_cons_orderedInsert r new l
      rw [foldl_cons, feed_cons, append_cons]
      rw [shape] at next still ⊢
      exact ih next still.tail

omit [Std.Total r] in
/-- If the elements behind the first are not sorted, elements that may stand behind all
others bring one to the front that had to stay. -/
theorem exists_foldl_feed_replicate {best : α} (greatest : ∀ b, r b best) {a : α} {l : List α}
    (unsorted : ¬l.Pairwise r) :
    ∃ count first kept, (replicate count best).foldl (feed r) (a :: l) = first :: kept ∧
      ∃ element ∈ kept, ¬r first element := by
  induction counted : l.countP (fun b => ¬r best b) using Nat.strong_induction_on
    generalizing a l with
  | _ size ih =>
      cases l with
      | nil => exact absurd .nil unsorted
      | cons b l =>
          by_cases level : r best b
          · -- the fed element comes to the front itself
            refine ⟨1, best, b :: l, ?_, ?_⟩
            · rw [replicate_one, foldl_cons, foldl_nil, feed_cons, orderedInsert_cons,
                if_pos level]
            · by_contra none
              push Not at none
              refine unsorted (pairwise_of_forall_mem_list fun x _ y member => ?_)
              exact trans_of r (greatest x) (none y member)
          · have step : feed r (a :: b :: l) best = b :: l.orderedInsert r best := by
              rw [feed_cons, orderedInsert_cons, if_neg level]
            by_cases lost : ∃ element ∈ l, ¬r b element
            · obtain ⟨element, member, late⟩ := lost
              refine ⟨1, b, l.orderedInsert r best, ?_, element, ?_, late⟩
              · rw [replicate_one, foldl_cons, foldl_nil, step]
              · exact (mem_orderedInsert r).mpr (.inr member)
            · push Not at lost
              -- the element is dropped, and the others are not sorted
              have rest : ¬(l.orderedInsert r best).Pairwise r := fun sorted =>
                unsorted (pairwise_cons.mpr
                  ⟨lost, sorted.sublist (sublist_orderedInsert best l)⟩)
              have fewer : (l.orderedInsert r best).countP (fun b => ¬r best b) < size := by
                rw [countP_cons_of_pos (by simpa using level)] at counted
                rw [(perm_orderedInsert r best l).countP_eq,
                  countP_cons_of_neg (by simpa using greatest best)]
                omega
              obtain ⟨count, first, kept, reached, early⟩ := ih _ fewer rest rfl
              refine ⟨count + 1, first, kept, ?_, early⟩
              rw [replicate_succ, foldl_cons, step]
              exact reached

end Feed

end Uqda.Sorting
