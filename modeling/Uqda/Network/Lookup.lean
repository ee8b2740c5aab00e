import Uqda.Network.Tree
import Uqda.Graph.Coords

/-!
# The next hop

`_getDist`, `_getCost` and `_lookup` of `third_party/ironwood/network/router.go`.  The distance to
a destination is measured in the tree, by the ports on the way down to it and to the node.  Only
peers that are strictly nearer than the router itself are considered, and the router's own
distance is written into the packet as its watermark, which it has to be below already.

The paths of nodes are cached.  As long as the cache is coherent with the infos, `_lookup` chooses
as it would without one.
-/

namespace Uqda.Network

open Uqda.Store Uqda.Graph

namespace Router

/-- The first part of `_getDist`: the path of a node, from the cache if it is there. -/
def keyPath (r : Router) (key : PublicKey) : List PeerPort × Router :=
  match r.cache.lookup key with
  | some cached => (cached, r)
  | none =>
      ((r.getRootAndPath key).2,
        { r with cache := r.cache.insert key (r.getRootAndPath key).2 })

/-- The loop of `_getDist`. -/
def distFrom (dist : UInt64) : List PeerPort → List PeerPort → UInt64
  | keyPort :: keyPath, destPort :: destPath =>
      if keyPort = destPort then distFrom (dist - 2) keyPath destPath else dist
  | _, _ => dist

/-- The distance between a node with the path `keyPath` and `destPath`. -/
def pathDist (destPath keyPath : List PeerPort) : UInt64 :=
  distFrom (UInt64.ofNat (keyPath.length + destPath.length)) keyPath destPath

/-- `_getDist`. -/
def getDist (r : Router) (destPath : List PeerPort) (key : PublicKey) : UInt64 × Router :=
  (pathDist destPath (r.keyPath key).1, (r.keyPath key).2)

/-- `_getCost`: the latency in milliseconds, at least one. -/
def getCost (r : Router) (p : PeerId) : UInt64 :=
  let c := ((r.lags.lookup p).getD 0 / 1000000).toUInt64
  if c = 0 then 1 else c

/-- `bestPeer`, `bestCost` and `bestDist`. -/
structure Best where
  peer : PeerId
  cost : UInt64
  dist : UInt64

/-- Whether the `switch` of `_lookup` accepts a candidate in place of the best one so far. -/
def accepts (best : Best) (p : PeerId) (cost dist : UInt64) : Bool :=
  if p.key = best.peer.key ∧ p.prio < best.peer.prio then true
  else if p.key = best.peer.key ∧ p.prio > best.peer.prio then false
  else if cost * dist < best.cost * best.dist then true
  else if cost * dist > best.cost * best.dist then false
  else if dist < best.dist then true
  else if dist > best.dist then false
  else if cost < best.cost then true
  else if cost > best.cost then false
  else decide (p.order < best.peer.order)

/-- One iteration of the second loop of `_lookup`. -/
def improve (best : Option Best) (p : PeerId) (cost dist : UInt64) : Option Best :=
  match best with
  | none => some ⟨p, cost, dist⟩
  | some best => if accepts best p cost dist then some ⟨p, cost, dist⟩ else some best

/-- The first loop of `_lookup`: the links to the peers that are nearer. -/
def candidatesFrom (path : List PeerPort) (bestDist : UInt64) :
    List (PublicKey × List PeerId) → List PeerId → Router → List PeerId × Router
  | [], candidates, r => (candidates, r)
  | (key, ps) :: rest, candidates, r =>
      let (dist, r) := r.getDist path key
      candidatesFrom path bestDist rest (if dist < bestDist then candidates ++ ps else candidates) r

/-- The second loop of `_lookup`: the best of the candidates. -/
def bestFrom (path : List PeerPort) : List PeerId → Option Best → Router → Option Best × Router
  | [], best, r => (best, r)
  | p :: candidates, best, r =>
      let (dist, r) := r.getDist path p.key
      bestFrom path candidates (improve best p (r.getCost p) dist) r

/-- `_lookup`: the next hop, and the watermark after it. -/
def lookup (core : Core) (r : Router) (path : List PeerPort) (watermark : UInt64) :
    Option PeerId × UInt64 × Router :=
  let (dist, r) := r.getDist path core.publicKey
  if dist < watermark then
    let (candidates, r) := candidatesFrom path dist r.peers.toList [] r
    let (best, r) := bestFrom path candidates none r
    (best.map Best.peer, dist, r)
  else (none, watermark, r)

/-! ## The distance -/

theorem distFrom_eq (total : Nat) (keyPath destPath : List PeerPort)
    (enough : 2 * shared keyPath destPath ≤ total) :
    distFrom (UInt64.ofNat total) keyPath destPath =
      UInt64.ofNat (total - 2 * shared keyPath destPath) := by
  induction keyPath generalizing total destPath with
  | nil => simp [distFrom, shared]
  | cons keyPort keyPath ih =>
      cases destPath with
      | nil => simp [distFrom, shared]
      | cons destPort destPath =>
          rw [distFrom, shared]
          by_cases same : keyPort = destPort
          · simp only [if_pos same] at enough ⊢
            rw [shared, if_pos same] at enough
            have two : 2 ≤ total := by omega
            have less : UInt64.ofNat total - 2 = UInt64.ofNat (total - 2) :=
              (UInt64.ofNat_sub two).symm
            rw [less, ih (total - 2) destPath (by omega)]
            congr 1
            omega
          · simp [if_neg same]

/-- The distance of `_getDist` is the distance in the tree. -/
theorem pathDist_eq (destPath keyPath : List PeerPort) :
    pathDist destPath keyPath = UInt64.ofNat (treeDist keyPath destPath) := by
  have left := shared_le_left keyPath destPath
  have right := shared_le_right keyPath destPath
  exact distFrom_eq _ keyPath destPath (by omega)

theorem candidatesFrom_zero (path : List PeerPort) (entries : List (PublicKey × List PeerId))
    (candidates : List PeerId) (r : Router) :
    (candidatesFrom path 0 entries candidates r).1 = candidates := by
  induction entries generalizing candidates r with
  | nil => rfl
  | cons entry entries ih =>
      obtain ⟨key, ps⟩ := entry
      rw [candidatesFrom, ih, if_neg UInt64.not_lt_zero]

/-- Whatever the infos and the cache are: a router that finds a next hop lowers the watermark to
its own distance, and is not at the destination. -/
theorem lookup_watermark {core : Core} {r r' : Router} {path : List PeerPort}
    {watermark watermark' : UInt64} {p : PeerId}
    (found : lookup core r path watermark = (some p, watermark', r')) :
    watermark' < watermark ∧ 0 < watermark' := by
  rw [lookup] at found
  generalize r.getDist path core.publicKey = measured at found
  obtain ⟨dist, r₁⟩ := measured
  simp only at found
  split at found
  · rename_i nearer
    obtain ⟨peer, rfl, -⟩ : (bestFrom path (candidatesFrom path dist r₁.peers.toList [] r₁).1 none
        (candidatesFrom path dist r₁.peers.toList [] r₁).2).1.map Best.peer = some p ∧
          dist = watermark' ∧ _ := by
      simpa only [Prod.mk.injEq] using found
    refine ⟨nearer, ?_⟩
    by_contra notPositive
    obtain rfl : dist = 0 := UInt64.le_zero_iff.mp (UInt64.not_lt.mp notPositive)
    rw [candidatesFrom_zero] at peer
    cases peer
  · cases found

/-! ## The cache -/

/-- The cache holds the paths that follow from the infos. -/
def Coherent (r : Router) : Prop :=
  ∀ key path, r.cache.lookup key = some path → path = (r.getRootAndPath key).2

theorem coherent_of_empty {r : Router} (empty : r.cache = ∅) : r.Coherent := by
  intro key path found
  rw [empty] at found
  simp at found

/-- The distance of a node, without the cache. -/
def dist (r : Router) (path : List PeerPort) (key : PublicKey) : UInt64 :=
  pathDist path (r.getRootAndPath key).2

/-- The router is the same up to its cache, which stays coherent. -/
structure Recached (r r' : Router) : Prop where
  rest : r' = { r with cache := r'.cache }
  coherent : r.Coherent → r'.Coherent

namespace Recached

variable {r r' r'' : Router}

theorem refl (r : Router) : Recached r r := ⟨rfl, id⟩

theorem trans (first : Recached r r') (second : Recached r' r'') : Recached r r'' := by
  refine ⟨?_, second.coherent ∘ first.coherent⟩
  rw [second.rest, first.rest]

theorem dist_eq (recached : Recached r r') (path : List PeerPort) (key : PublicKey) :
    r'.dist path key = r.dist path key := by
  rw [recached.rest]
  rfl

theorem getCost_eq (recached : Recached r r') (p : PeerId) : r'.getCost p = r.getCost p := by
  rw [recached.rest]
  rfl

theorem peers_eq (recached : Recached r r') : r'.peers = r.peers := by
  rw [recached.rest]

theorem effects_eq (recached : Recached r r') : r'.effects = r.effects := by
  rw [recached.rest]

end Recached

variable {r : Router}

theorem getDist_recached (r : Router) (path : List PeerPort) (key : PublicKey) :
    Recached r (r.getDist path key).2 := by
  rw [getDist, keyPath]
  cases cached : r.cache.lookup key with
  | some keyPath => exact .refl r
  | none =>
      refine ⟨rfl, fun coherent other path found => ?_⟩
      rw [Map.lookup_insert_eq] at found
      split at found
      · rename_i same
        cases found
        rw [same]
        rfl
      · exact coherent other path found

theorem getDist_fst (coherent : r.Coherent) (path : List PeerPort) (key : PublicKey) :
    (r.getDist path key).1 = r.dist path key := by
  rw [getDist, dist, keyPath]
  cases cached : r.cache.lookup key with
  | some keyPath => rw [coherent key keyPath cached]
  | none => rfl

/-- The links to the peers that are nearer to a destination than a bound. -/
def nearerOf (r : Router) (path : List PeerPort) (bound : UInt64)
    (entries : List (PublicKey × List PeerId)) : List PeerId :=
  entries.flatMap fun (key, ps) => if r.dist path key < bound then ps else []

theorem candidatesFrom_recached (path : List PeerPort) (bound : UInt64)
    (entries : List (PublicKey × List PeerId)) (candidates : List PeerId) (r : Router) :
    Recached r (candidatesFrom path bound entries candidates r).2 := by
  induction entries generalizing r candidates with
  | nil => exact .refl r
  | cons entry entries ih => exact (r.getDist_recached path entry.1).trans (ih _ _)

theorem candidatesFrom_fst (coherent : r.Coherent) (path : List PeerPort) (bound : UInt64)
    (entries : List (PublicKey × List PeerId)) (candidates : List PeerId) :
    (candidatesFrom path bound entries candidates r).1 =
      candidates ++ r.nearerOf path bound entries := by
  induction entries generalizing r candidates with
  | nil => exact (List.append_nil _).symm
  | cons entry entries ih =>
      obtain ⟨key, ps⟩ := entry
      have recached := r.getDist_recached path key
      have same : ∀ entries, (r.getDist path key).2.nearerOf path bound entries =
          r.nearerOf path bound entries := by
        intro entries
        simp only [nearerOf, recached.dist_eq]
      rw [candidatesFrom]
      refine (ih (recached.coherent coherent)
        (if (r.getDist path key).1 < bound then candidates ++ ps else candidates)).trans ?_
      rw [getDist_fst coherent, same, nearerOf, nearerOf, List.flatMap_cons]
      by_cases below : r.dist path key < bound
      · simp only [if_pos below, List.append_assoc]
      · simp only [if_neg below, List.nil_append]

/-- The best of some candidates, without the cache. -/
def bestOf (r : Router) (path : List PeerPort) (candidates : List PeerId) (best : Option Best) :
    Option Best :=
  candidates.foldl (fun best p => improve best p (r.getCost p) (r.dist path p.key)) best

theorem bestFrom_recached (path : List PeerPort) (candidates : List PeerId) (best : Option Best)
    (r : Router) : Recached r (bestFrom path candidates best r).2 := by
  induction candidates generalizing r best with
  | nil => exact .refl r
  | cons p candidates ih => exact (r.getDist_recached path p.key).trans (ih _ _)

theorem bestFrom_fst (coherent : r.Coherent) (path : List PeerPort) (candidates : List PeerId)
    (best : Option Best) :
    (bestFrom path candidates best r).1 = r.bestOf path candidates best := by
  induction candidates generalizing r best with
  | nil => rfl
  | cons p candidates ih =>
      have recached := r.getDist_recached path p.key
      rw [bestFrom]
      refine (ih (recached.coherent coherent)
        (improve best p ((r.getDist path p.key).2.getCost p) (r.getDist path p.key).1)).trans ?_
      simp only [bestOf, List.foldl_cons, recached.dist_eq, recached.getCost_eq,
        getDist_fst coherent]

/-- The links to peers that are nearer to a destination than the router. -/
def nearer (core : Core) (r : Router) (path : List PeerPort) : List PeerId :=
  r.nearerOf path (r.dist path core.publicKey) r.peers.toList

/-- The choice of `_lookup` among them. -/
def nextHop (core : Core) (r : Router) (path : List PeerPort) : Option PeerId :=
  (r.bestOf path (r.nearer core path) none).map Best.peer

/-- `_lookup` changes nothing but the cache. -/
theorem lookup_recached (core : Core) (r : Router) (path : List PeerPort) (watermark : UInt64) :
    Recached r (r.lookup core path watermark).2.2 := by
  have first := r.getDist_recached path core.publicKey
  rw [lookup]
  split
  rename_i dist r₁ measured
  rw [measured] at first
  split
  · exact first.trans ((candidatesFrom_recached path dist _ [] r₁).trans
      (bestFrom_recached path _ none _))
  · exact first

/-- With a coherent cache, `_lookup` chooses as it would without one. -/
theorem lookup_eq (core : Core) (coherent : r.Coherent) (path : List PeerPort)
    (watermark : UInt64) :
    r.lookup core path watermark =
      if r.dist path core.publicKey < watermark then
        (r.nextHop core path, r.dist path core.publicKey, (r.lookup core path watermark).2.2)
      else (none, watermark, (r.lookup core path watermark).2.2) := by
  have measured := getDist_fst coherent path core.publicKey
  have recached := r.getDist_recached path core.publicKey
  rw [lookup]
  generalize r.getDist path core.publicKey = first at measured recached ⊢
  obtain ⟨dist, r₁⟩ := first
  dsimp only at measured recached ⊢
  subst measured
  by_cases below : r.dist path core.publicKey < watermark
  · have links : (candidatesFrom path (r.dist path core.publicKey) r₁.peers.toList [] r₁).1 =
        r.nearer core path := by
      rw [candidatesFrom_fst (recached.coherent coherent), List.nil_append, nearer,
        recached.peers_eq]
      simp only [nearerOf, recached.dist_eq]
    have recached' := recached.trans
      (candidatesFrom_recached path (r.dist path core.publicKey) r₁.peers.toList [] r₁)
    generalize candidatesFrom path (r.dist path core.publicKey) r₁.peers.toList [] r₁ = second
      at links recached' ⊢
    obtain ⟨candidates, r₂⟩ := second
    dsimp only at links recached' ⊢
    subst links
    have best : (bestFrom path (r.nearer core path) none r₂).1 =
        r.bestOf path (r.nearer core path) none := by
      rw [bestFrom_fst (recached'.coherent coherent)]
      simp only [bestOf, recached'.dist_eq, recached'.getCost_eq]
    simp only [if_pos below, nextHop, best]
  · simp only [if_neg below]

theorem mem_nearer {core : Core} {path : List PeerPort} {p : PeerId} :
    p ∈ r.nearer core path ↔ ∃ key ps, r.peers.lookup key = some ps ∧ p ∈ ps ∧
      r.dist path key < r.dist path core.publicKey := by
  simp only [nearer, nearerOf, List.mem_flatMap, Prod.exists, Map.mem_toList]
  constructor
  · rintro ⟨key, ps, found, present⟩
    split at present
    · rename_i below
      exact ⟨key, ps, found, present, below⟩
    · cases present
  · rintro ⟨key, ps, found, present, below⟩
    exact ⟨key, ps, found, by rwa [if_pos below]⟩

theorem bestOf_some (path : List PeerPort) (candidates : List PeerId) (best : Best) :
    ∃ chosen, r.bestOf path candidates (some best) = some chosen ∧
      (chosen = best ∨ chosen.peer ∈ candidates) := by
  induction candidates generalizing best with
  | nil => exact ⟨best, rfl, .inl rfl⟩
  | cons p candidates ih =>
      rw [bestOf, List.foldl_cons, improve]
      split
      · obtain ⟨chosen, result, origin⟩ := ih ⟨p, r.getCost p, r.dist path p.key⟩
        refine ⟨chosen, result, .inr ?_⟩
        rcases origin with rfl | later
        · exact List.mem_cons_self
        · exact List.mem_cons_of_mem _ later
      · obtain ⟨chosen, result, origin⟩ := ih best
        exact ⟨chosen, result, origin.imp_right (List.mem_cons_of_mem _)⟩

/-- A next hop is a link to a nearer peer. -/
theorem mem_nearer_of_nextHop {core : Core} {path : List PeerPort} {p : PeerId}
    (chosen : r.nextHop core path = some p) : p ∈ r.nearer core path := by
  rw [nextHop] at chosen
  cases links : r.nearer core path with
  | nil =>
      rw [links] at chosen
      cases chosen
  | cons first rest =>
      obtain ⟨best, result, origin⟩ :=
        bestOf_some path rest ⟨first, r.getCost first, r.dist path first.key⟩
      rw [links, bestOf, List.foldl_cons] at chosen
      rw [bestOf] at result
      rw [improve, result, Option.map_some, Option.some.injEq] at chosen
      subst chosen
      rcases origin with rfl | later
      · exact List.mem_cons_self
      · exact List.mem_cons_of_mem _ later

/-- There is a next hop whenever some link leads to a nearer peer. -/
theorem exists_nextHop {core : Core} {path : List PeerPort} {p : PeerId}
    (link : p ∈ r.nearer core path) : ∃ p, r.nextHop core path = some p := by
  rw [nextHop]
  cases links : r.nearer core path with
  | nil =>
      rw [links] at link
      cases link
  | cons first rest =>
      obtain ⟨best, result, -⟩ :=
        bestOf_some path rest ⟨first, r.getCost first, r.dist path first.key⟩
      rw [bestOf] at result
      exact ⟨best.peer, by rw [bestOf, List.foldl_cons, improve, result]; rfl⟩

end Router

end Uqda.Network
