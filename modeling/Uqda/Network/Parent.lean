import Uqda.Network.Router

/-!
# The choice of a parent

What `_fix` of `third_party/ironwood/network/router.go` chooses, in terms of the walks towards the
root: never a peer that is known to lead back to the router, and never a root that is worse than
one it could have had.
-/

namespace Uqda.Network

open Uqda.Store Uqda.Graph

namespace Router

/-- The root that `_getRootAndDists` finds for a node. -/
def rootOf (r : Router) (key : PublicKey) : PublicKey := (r.getRootAndDists key).1

/-- A peer that `_fix` considers: it responded, it is known, and the router is not on its way to
the root. -/
structure Eligible (core : Core) (r : Router) (key : PublicKey) : Prop where
  response : key ∈ r.responses
  known : key ∈ r.infos
  apart : core.publicKey ∉ r.backwardsAncestry key

/-- Where a choice comes from: the router itself, its current parent, or an eligible peer. -/
inductive Origin (core : Core) (r : Router) (best : Choice) : Prop
  | self : best.root = core.publicKey → best.parent = core.publicKey → Origin core r best
  | current : r.selfParent core ∈ r.peers → best.root = r.rootOf core.publicKey →
      best.parent = r.selfParent core → less best.root core.publicKey = true → Origin core r best
  | response : Eligible core r best.parent → best.root = r.rootOf best.parent →
      less best.root core.publicKey = true → Origin core r best

variable {core : Core} {r : Router} {key : PublicKey}

theorem exists_pointer_of_mem (known : key ∈ r.infos) :
    ∃ pointer, pointers r.infos key = some pointer := by
  obtain ⟨info, found⟩ := Map.mem_keys_iff.mp (AList.mem_keys.mp known)
  exact ⟨_, by rw [pointers, found]; rfl⟩

/-- The walk from a known node starts there. -/
theorem backwardsAncestry_cons (known : key ∈ r.infos) :
    ∃ rest, r.backwardsAncestry key = key :: rest := by
  obtain ⟨pointer, found⟩ := exists_pointer_of_mem known
  have walk := r.backwardsAncestry_climb key
  generalize r.backwardsAncestry key = nodes at walk
  cases walk with
  | again there => exact absurd there List.not_mem_nil
  | unknown _ nothing =>
      rw [found] at nothing
      cases nothing
  | step => exact ⟨_, rfl⟩

theorem rootOf_mem (known : key ∈ r.infos) : r.rootOf key ∈ r.backwardsAncestry key := by
  obtain ⟨rest, walk⟩ := backwardsAncestry_cons known
  have nonempty : r.backwardsAncestry key ≠ [] := by
    rw [walk]
    exact List.cons_ne_nil _ _
  rw [rootOf, getRootAndDists_root, List.getLast?_eq_some_getLast nonempty, Option.getD_some]
  exact List.getLast_mem nonempty

/-- The root of an eligible peer is not the router itself. -/
theorem Eligible.rootOf_ne (eligible : Eligible core r key) : r.rootOf key ≠ core.publicKey := by
  intro same
  apply eligible.apart
  rw [← same]
  exact rootOf_mem eligible.known

/-- The choice is not worse than the router as its own root. -/
theorem Origin.not_less {best : Choice} (origin : Origin core r best) :
    less core.publicKey best.root = false := by
  cases origin with
  | self root _ =>
      rw [root]
      exact less_irrefl _
  | current _ _ _ below => exact not_less_of_less below
  | response _ _ below => exact not_less_of_less below

theorem currentChoice_origin (core : Core) (r : Router) : Origin core r (r.currentChoice core) := by
  rw [currentChoice]
  split
  · rename_i present
    dsimp only
    split
    · rename_i below
      exact .current present rfl rfl below
    · exact .self rfl rfl
  · exact .self rfl rfl

/-- One iteration: the choice comes from where it may, its root is not worse than before, and not
worse than that of the peer if the peer is eligible. -/
theorem consider_spec {best : Choice} (origin : Origin core r best)
    (responded : key ∈ r.responses) :
    Origin core r (r.consider core best key) ∧
      less best.root (r.consider core best key).root = false ∧
        (Eligible core r key → less (r.rootOf key) (r.consider core best key).root = false) := by
  rw [consider]
  split
  · rename_i unknown
    exact ⟨origin, less_irrefl _, fun eligible => absurd eligible.known unknown⟩
  · rename_i known
    dsimp only
    split
    · rename_i through
      rw [mem_getRootAndDists] at through
      exact ⟨origin, less_irrefl _, fun eligible => absurd through eligible.apart⟩
    · rename_i apart
      rw [mem_getRootAndDists] at apart
      have eligible : Eligible core r key := ⟨responded, not_not.mp known, apart⟩
      have fresh : ∀ cost, less (r.rootOf key) best.root = true ∨ r.rootOf key = best.root →
          Origin core r ⟨r.rootOf key, key, cost⟩ := by
        intro cost better
        refine .response eligible rfl ?_
        rcases better with below | same
        · exact less_of_less_of_not_less below origin.not_less
        · refine less_of_not_less_of_ne ?_ eligible.rootOf_ne
          rw [same]
          exact origin.not_less
      by_cases below : less (r.rootOf key) best.root = true
      · have new : ∀ cost, Origin core r ⟨r.rootOf key, key, cost⟩ :=
          fun cost => fresh cost (.inl below)
        rw [rootOf] at below
        simp only [below, if_true, ne_eq, not_true_eq_false, ite_self]
        exact ⟨new _, not_less_of_less below, fun _ => less_irrefl _⟩
      · rw [Bool.not_eq_true] at below
        have unchanged : less (r.getRootAndDists key).1 best.root = false := below
        simp only [unchanged, Bool.false_eq_true, if_false]
        split
        · exact ⟨origin, less_irrefl _, fun _ => below⟩
        · rename_i same
          split
          · refine ⟨fresh _ (.inr (not_not.mp same)), ?_, fun _ => less_irrefl _⟩
            rw [not_not.mp same]
            exact less_irrefl _
          · exact ⟨origin, less_irrefl _, fun _ => below⟩

theorem foldl_consider_spec {best : Choice} (origin : Origin core r best) {keys : List PublicKey}
    (responded : ∀ key ∈ keys, key ∈ r.responses) :
    Origin core r (keys.foldl (r.consider core) best) ∧
      less best.root (keys.foldl (r.consider core) best).root = false ∧
        ∀ key ∈ keys, Eligible core r key →
          less (r.rootOf key) (keys.foldl (r.consider core) best).root = false := by
  induction keys generalizing best with
  | nil => exact ⟨origin, less_irrefl _, fun _ absent => absurd absent List.not_mem_nil⟩
  | cons first keys ih =>
      obtain ⟨next, lower, lowest⟩ := consider_spec origin (responded first List.mem_cons_self)
      obtain ⟨last, lower', lowest'⟩ :=
        ih next fun key later => responded key (List.mem_cons_of_mem _ later)
      rw [List.foldl_cons]
      refine ⟨last, not_less_trans lower' lower, fun key present eligible => ?_⟩
      rcases List.mem_cons.mp present with rfl | later
      · exact not_less_trans lower' (lowest eligible)
      · exact lowest' key later eligible

/-- The choice of `_fix` comes from the router itself, its parent or an eligible peer. -/
theorem choose_origin (core : Core) (r : Router) : Origin core r (r.choose core) :=
  (foldl_consider_spec (currentChoice_origin core r) fun _ => AList.mem_keys.mpr).1

/-- No eligible peer leads to a better root. -/
theorem choose_le (eligible : Eligible core r key) :
    less (r.rootOf key) (r.choose core).root = false :=
  (foldl_consider_spec (currentChoice_origin core r) fun _ => AList.mem_keys.mpr).2.2 key
    (AList.mem_keys.mp eligible.response) eligible

end Router

end Uqda.Network
