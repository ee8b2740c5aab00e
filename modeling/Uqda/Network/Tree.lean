import Uqda.Network.RouterState
import Uqda.Graph.Forest

/-!
# The tree as a router knows it

The walks of `third_party/ironwood/network/router.go` from a node towards its root along the
parents in `infos`: `_getRootAndDists`, `_getRootAndPath` and `_backwardsAncestry`.  The infos may
be out of date, so each walk has to cope with a parent that is not known and with a circle, and
each does it in its own way.
-/

namespace Uqda.Network

open Uqda.Store Uqda.Graph

/-- The zero value of `publicKey`. -/
def zeroKey : PublicKey := Vector.replicate 32 0

namespace Router

/-- The loop of `_getRootAndDists`. -/
def getRootAndDistsFrom (infos : Map PublicKey RouterInfo) :
    Nat → Map PublicKey UInt64 → PublicKey → UInt64 → PublicKey → PublicKey × Map PublicKey UInt64
  | 0, dists, root, _, _ => (root, dists)
  | fuel + 1, dists, root, dist, next =>
      if next ∈ dists then (root, dists)
      else
        match infos.lookup next with
        | some info =>
            getRootAndDistsFrom infos fuel (dists.insert next dist) next (dist + 1) info.parent
        | none => (root, dists)

/-- `_getRootAndDists`. -/
def getRootAndDists (r : Router) (dest : PublicKey) : PublicKey × Map PublicKey UInt64 :=
  getRootAndDistsFrom r.infos (r.infos.keys.length + 1) ∅ zeroKey 0 dest

/-- The loop of `_getRootAndPath`, with no result for a circle or a dead end. -/
def getRootAndPathFrom (infos : Map PublicKey RouterInfo) :
    Nat → List PublicKey → List PeerPort → PublicKey → Option (PublicKey × List PeerPort)
  | 0, _, _, _ => none
  | fuel + 1, visited, ports, next =>
      if next ∈ visited then none
      else
        match infos.lookup next with
        | some info =>
            if next = info.parent then some (next, ports)
            else
              getRootAndPathFrom infos fuel (visited ++ [next]) (ports ++ [info.port]) info.parent
        | none => none

/-- `_getRootAndPath`. -/
def getRootAndPath (r : Router) (dest : PublicKey) : PublicKey × List PeerPort :=
  match getRootAndPathFrom r.infos (r.infos.keys.length + 1) [] [] dest with
  | some (root, ports) => (root, ports.reverse)
  | none => (dest, [])

/-- The loop of `_backwardsAncestry`. -/
def backwardsAncestryFrom (infos : Map PublicKey RouterInfo) :
    Nat → List PublicKey → PublicKey → List PublicKey
  | 0, anc, _ => anc
  | fuel + 1, anc, here =>
      if here ∈ anc then anc
      else
        match infos.lookup here with
        | some info => backwardsAncestryFrom infos fuel (anc ++ [here]) info.parent
        | none => anc

/-- `_backwardsAncestry`, from an empty list. -/
def backwardsAncestry (r : Router) (key : PublicKey) : List PublicKey :=
  backwardsAncestryFrom r.infos (r.infos.keys.length + 1) [] key

/-- `_getAncestry`. -/
def getAncestry (r : Router) (key : PublicKey) : List PublicKey := (r.backwardsAncestry key).reverse

end Router

/-! ## The walks are climbs -/

/-- The parents and ports in the infos. -/
def pointers (infos : Map PublicKey RouterInfo) : Pointers PublicKey PeerPort := fun key =>
  (infos.lookup key).map fun info => (info.parent, info.port)

theorem pointers_eq_some_iff {infos : Map PublicKey RouterInfo} {key parent : PublicKey}
    {port : PeerPort} :
    pointers infos key = some (parent, port) ↔
      ∃ info, infos.lookup key = some info ∧ info.parent = parent ∧ info.port = port := by
  rw [pointers, Option.map_eq_some_iff]
  simp only [Prod.mk.injEq]

theorem pointers_eq_none_iff {infos : Map PublicKey RouterInfo} {key : PublicKey} :
    pointers infos key = none ↔ infos.lookup key = none := by
  rw [pointers, Option.map_eq_none_iff]

variable {infos infos' : Map PublicKey RouterInfo} {key dest : PublicKey} {nodes : List PublicKey}
  {ports : List PeerPort}

theorem mem_keys_of_pointers (key : PublicKey) (present : pointers infos key ≠ none) :
    key ∈ infos.keys := by
  by_contra absent
  exact present (pointers_eq_none_iff.mpr (Map.lookup_eq_none_iff.mpr absent))

/-- A way up meets every known node at most once. -/
theorem length_le_of_nodup {l : List PublicKey} (nodup : l.Nodup)
    (known : ∀ key ∈ l, ∃ pointer, pointers infos key = some pointer) :
    l.length ≤ infos.keys.length := by
  apply List.Subperm.length_le
  apply List.subperm_of_subset nodup
  intro key present
  obtain ⟨pointer, found⟩ := known key present
  exact mem_keys_of_pointers key (by rw [found]; exact Option.some_ne_none _)

theorem length_le_of_rooted (rooted : Rooted (pointers infos) key nodes ports) :
    nodes.length ≤ infos.keys.length :=
  length_le_of_nodup rooted.nodup (Climb.of_rooted rooted fun _ _ => List.not_mem_nil).known

namespace Router

theorem backwardsAncestryFrom_eq (fuel : Nat) (anc : List PublicKey) (here : PublicKey) :
    backwardsAncestryFrom infos fuel anc here = climb (pointers infos) fuel anc here := by
  induction fuel generalizing anc here with
  | zero => rfl
  | succ fuel ih =>
      rw [backwardsAncestryFrom, climb, pointers]
      by_cases there : here ∈ anc
      · rw [if_pos there, if_pos there]
      · rw [if_neg there, if_neg there]
        cases infos.lookup here with
        | none => rfl
        | some info => exact ih _ _

/-- `_backwardsAncestry` is the whole walk. -/
theorem backwardsAncestry_climb (r : Router) (key : PublicKey) :
    Climb (pointers r.infos) [] key (r.backwardsAncestry key) := by
  obtain ⟨more, walk, -⟩ := exists_climb (@mem_keys_of_pointers r.infos) [] key
  have short := length_le_of_nodup walk.nodup walk.known
  have same : r.backwardsAncestry key = more := by
    rw [backwardsAncestry, backwardsAncestryFrom_eq, climb_eq walk (by omega), List.nil_append]
  rw [same]
  exact walk

/-- The loop of `_getRootAndDists` returns the last node of the walk and numbers its nodes. -/
theorem getRootAndDistsFrom_spec {visited more : List PublicKey} {next : PublicKey}
    (walk : Climb (pointers infos) visited next more) {fuel : Nat} (enough : more.length < fuel)
    {dists : Map PublicKey UInt64} (same : ∀ key, key ∈ dists ↔ key ∈ visited) (root : PublicKey)
    (dist : UInt64) :
    (getRootAndDistsFrom infos fuel dists root dist next).1 = more.getLast?.getD root ∧
      ∀ key, (getRootAndDistsFrom infos fuel dists root dist next).2.lookup key =
        if key ∈ more then some (dist + UInt64.ofNat (more.idxOf key)) else dists.lookup key := by
  induction walk generalizing fuel dists root dist with
  | again there =>
      obtain ⟨fuel, rfl⟩ := Nat.exists_eq_succ_of_ne_zero (by omega : fuel ≠ 0)
      simp [getRootAndDistsFrom, (same _).mpr there]
  | unknown fresh nothing =>
      obtain ⟨fuel, rfl⟩ := Nat.exists_eq_succ_of_ne_zero (by omega : fuel ≠ 0)
      have absent : ¬ _ ∈ dists := fun there => fresh ((same _).mp there)
      simp [getRootAndDistsFrom, absent, pointers_eq_none_iff.mp nothing]
  | @step visited more node parent port fresh pointer rest ih =>
      obtain ⟨fuel, rfl⟩ := Nat.exists_eq_succ_of_ne_zero (by omega : fuel ≠ 0)
      obtain ⟨info, found, rfl, rfl⟩ := pointers_eq_some_iff.mp pointer
      have absent : node ∉ dists := fun there => fresh ((same node).mp there)
      have same' : ∀ key, key ∈ dists.insert node dist ↔ key ∈ visited ++ [node] := by
        intro key
        rw [AList.mem_insert, same, List.mem_append, List.mem_singleton, or_comm]
      have step : getRootAndDistsFrom infos (fuel + 1) dists root dist node =
          getRootAndDistsFrom infos fuel (dists.insert node dist) node (dist + 1) info.parent := by
        rw [getRootAndDistsFrom, if_neg absent, found]
      obtain ⟨last, numbers⟩ := ih (Nat.lt_of_succ_lt_succ enough) same' node (dist + 1)
      rw [step]
      refine ⟨?_, ?_⟩
      · rw [last, List.getLast?_cons, Option.getD_some]
      · intro key
        rw [numbers key, Map.lookup_insert_eq]
        by_cases self : key = node
        · subst self
          have before : key ∉ more := fun above =>
            rest.not_mem_visited key above (List.mem_append_right _ (List.mem_singleton_self _))
          simp [before]
        · by_cases above : key ∈ more
          · rw [if_pos above, if_pos (List.mem_cons_of_mem _ above),
              List.idxOf_cons_ne _ (Ne.symm self)]
            rw [Nat.succ_eq_add_one, UInt64.ofNat_add]
            congr 1
            rw [UInt64.add_assoc, UInt64.add_comm (UInt64.ofNat _)]
            rfl
          · simp [above, self]

theorem getRootAndDists_spec (r : Router) (dest : PublicKey) :
    (r.getRootAndDists dest).1 = (r.backwardsAncestry dest).getLast?.getD zeroKey ∧
      ∀ key, (r.getRootAndDists dest).2.lookup key =
        if key ∈ r.backwardsAncestry dest then
          some (0 + UInt64.ofNat ((r.backwardsAncestry dest).idxOf key))
        else (∅ : Map PublicKey UInt64).lookup key := by
  have walk := r.backwardsAncestry_climb dest
  have short := length_le_of_nodup walk.nodup walk.known
  have start : ∀ key, key ∈ (∅ : Map PublicKey UInt64) ↔ key ∈ ([] : List PublicKey) := by simp
  exact getRootAndDistsFrom_spec walk (Nat.lt_succ_of_le short) start zeroKey 0

/-- `_getRootAndDists` returns the last node that the walk finds as the root. -/
theorem getRootAndDists_root (r : Router) (dest : PublicKey) :
    (r.getRootAndDists dest).1 = (r.backwardsAncestry dest).getLast?.getD zeroKey :=
  (r.getRootAndDists_spec dest).1

/-- The nodes with a distance are those of the walk. -/
theorem mem_getRootAndDists (r : Router) (dest key : PublicKey) :
    key ∈ (r.getRootAndDists dest).2 ↔ key ∈ r.backwardsAncestry dest := by
  rw [← AList.lookup_isSome, (r.getRootAndDists_spec dest).2]
  split
  · simp [*]
  · simp [*]

theorem getRootAndPathFrom_rooted (rooted : Rooted (pointers infos) key nodes ports) {fuel : Nat}
    (enough : nodes.length ≤ fuel) {visited : List PublicKey}
    (fresh : ∀ other ∈ nodes, other ∉ visited) (before : List PeerPort) :
    ∃ root, nodes.getLast? = some root ∧
      getRootAndPathFrom infos fuel visited before key = some (root, before ++ ports.reverse) := by
  induction rooted generalizing fuel visited before with
  | root pointer =>
      obtain ⟨fuel, rfl⟩ := Nat.exists_eq_succ_of_ne_zero (by simp at enough; omega : fuel ≠ 0)
      obtain ⟨info, found, parent, rfl⟩ := pointers_eq_some_iff.mp pointer
      refine ⟨_, rfl, ?_⟩
      rw [getRootAndPathFrom, if_neg (fresh _ (List.mem_singleton_self _)), found]
      simp [parent]
  | @child node parent port nodes ports pointer different rest ih =>
      obtain ⟨fuel, rfl⟩ := Nat.exists_eq_succ_of_ne_zero (by simp at enough; omega : fuel ≠ 0)
      obtain ⟨info, found, rfl, rfl⟩ := pointers_eq_some_iff.mp pointer
      have fresh' : ∀ other ∈ nodes, other ∉ visited ++ [node] := by
        intro other above there
        rcases List.mem_append.mp there with there | there
        · exact fresh other (List.mem_cons_of_mem _ above) there
        · obtain rfl := List.mem_singleton.mp there
          exact (List.nodup_cons.mp (Rooted.child pointer different rest).nodup).1 above
      obtain ⟨root, last, reached⟩ :=
        ih (Nat.le_of_succ_le_succ enough) fresh' (before ++ [info.port])
      refine ⟨root, by rw [List.getLast?_cons, last]; rfl, ?_⟩
      rw [getRootAndPathFrom, if_neg (fresh _ List.mem_cons_self), found]
      simp only [if_neg (Ne.symm different), reached, List.reverse_append, List.reverse_singleton,
        List.append_assoc]

theorem rooted_of_getRootAndPathFrom {fuel : Nat} {visited : List PublicKey}
    {before after : List PeerPort} {root : PublicKey}
    (reached : getRootAndPathFrom infos fuel visited before key = some (root, after)) :
    ∃ nodes ports, Rooted (pointers infos) key nodes ports := by
  induction fuel generalizing visited before key with
  | zero => cases reached
  | succ fuel ih =>
      rw [getRootAndPathFrom] at reached
      split at reached
      · cases reached
      · split at reached
        · rename_i info found
          split at reached
          · rename_i self
            exact ⟨_, _, .root (pointers_eq_some_iff.mpr ⟨info, found, self.symm, rfl⟩)⟩
          · rename_i other
            obtain ⟨nodes, ports, rooted⟩ := ih reached
            exact ⟨_, _, .child (pointers_eq_some_iff.mpr ⟨info, found, rfl, rfl⟩)
              (Ne.symm other) rooted⟩
        · cases reached

/-- `_getRootAndPath` returns the root and the ports on the way down from it, if the infos lead
to a root. -/
theorem getRootAndPath_rooted {r : Router} (rooted : Rooted (pointers r.infos) key nodes ports) :
    ∃ root, nodes.getLast? = some root ∧ r.getRootAndPath key = (root, ports) := by
  have short := length_le_of_rooted rooted
  obtain ⟨root, last, reached⟩ := getRootAndPathFrom_rooted rooted
    (Nat.le_succ_of_le short) (fun _ _ => List.not_mem_nil) []
  refine ⟨root, last, ?_⟩
  rw [getRootAndPath, reached]
  simp

/-- Otherwise it returns the node itself with an empty path, as if the node were a root. -/
theorem getRootAndPath_unrooted {r : Router}
    (unrooted : ¬ ∃ nodes ports, Rooted (pointers r.infos) key nodes ports) :
    r.getRootAndPath key = (key, []) := by
  rw [getRootAndPath]
  cases reached : getRootAndPathFrom r.infos (r.infos.keys.length + 1) [] [] key with
  | none => rfl
  | some result => exact absurd (rooted_of_getRootAndPathFrom reached) unrooted

end Router

end Uqda.Network
