import Uqda.Network.Settled

/-!
# Delivery in a settled network

In a settled network whose children have different ports at their parent, a packet with the path
of a node reaches that node from everywhere in its connected part, and it needs no more hops than
the two are apart in the tree.  Every router on the way finds a peer that is nearer: its parent,
or the child that the path leads to.
-/

namespace Uqda.Network

open Uqda.Store Uqda.Graph

namespace Fleet

/-- A settled network in which packets can be routed: the children of a node have different ports
there, the links are listed under their keys and none is listed without a link, and the caches are
coherent.  Distances are 64-bit numbers. -/
structure Navigable (net : Fleet) : Prop extends Settled net where
  ports : ∀ {node other parent port}, net.truth node = some (parent, port) →
    net.truth other = some (parent, port) → parent ≠ node → parent ≠ other → node = other
  links : ∀ {node key ps}, node ∈ net.nodes → (net.router node).peers.lookup key = some ps →
    ps ≠ [] ∧ ∀ p ∈ ps, p.key = key
  coherent : ∀ node ∈ net.nodes, (net.router node).Coherent
  size : net.nodes.length < 2 ^ 62

/-- A packet with a path goes from one router to another in some number of hops, and is not passed
on from there.  The routers' caches may have changed since. -/
inductive Travels (net : Fleet) (path : List PeerPort) :
    PublicKey → UInt64 → Nat → PublicKey → Prop
  | stop {node : PublicKey} {watermark : UInt64} {r : Router} :
      Router.Recached (net.router node) r → (r.lookup (net.core node) path watermark).1 = none →
        Travels net path node watermark 0 node
  | hop {node last : PublicKey} {watermark watermark' : UInt64} {r r' : Router} {p : PeerId}
      {hops : Nat} : Router.Recached (net.router node) r →
        r.lookup (net.core node) path watermark = (some p, watermark', r') →
          Travels net path p.key watermark' hops last →
            Travels net path node watermark (hops + 1) last

namespace Navigable

variable {net : Fleet} {node other dest : PublicKey} {above above' : List PublicKey}
  {path coords coords' : List PeerPort} {watermark : UInt64}

/-- A path is shorter than the number of nodes. -/
theorem length_lt (navigable : net.Navigable) (present : node ∈ net.nodes)
    (rooted : Rooted net.truth node above coords) : coords.length < 2 ^ 62 := by
  have inside : ∀ key ∈ above, key ∈ net.nodes :=
    rooted.forall_mem present fun present pointer => navigable.parent_mem present pointer
  have bound : above.length ≤ net.nodes.length :=
    (List.subperm_of_subset rooted.nodup inside).length_le
  have size := navigable.size
  rw [rooted.length_nodes] at bound
  omega

/-- A router sees its peers and itself at their true distance. -/
theorem dist_eq (navigable : net.Navigable) (present : node ∈ net.nodes)
    (link : other = node ∨ net.Linked node other) (rooted : Rooted net.truth other above coords) :
    (net.router node).dist path other = UInt64.ofNat (treeDist coords path) := by
  obtain ⟨root, -, same⟩ := (navigable.informed present link).getRootAndPath rooted
  rw [Router.dist, same, Router.pathDist_eq]

theorem toNat_treeDist (short : coords.length < 2 ^ 62) (short' : path.length < 2 ^ 62) :
    (UInt64.ofNat (treeDist coords path)).toNat = treeDist coords path := by
  apply UInt64.toNat_ofNat_of_lt
  have bound : treeDist coords path ≤ coords.length + path.length := Nat.sub_le _ _
  have : UInt64.size = 2 ^ 64 := rfl
  omega

/-- Unless a node is the destination, one of its peers is nearer. -/
theorem exists_nearer_peer (navigable : net.Navigable) (present : node ∈ net.nodes)
    (joined : net.Joined node dest) (rooted : Rooted net.truth node above coords)
    (rooted' : Rooted net.truth dest above' path) (different : node ≠ dest) :
    ∃ other above'' coords'', net.Linked node other ∧ Rooted net.truth other above'' coords'' ∧
      treeDist coords'' path < treeDist coords path := by
  have present' := navigable.joined_mem joined present
  have sameRoot : above.getLast? = above'.getLast? := by
    rw [navigable.rootOf_rooted present rooted, navigable.rootOf_rooted present' rooted',
      navigable.rootOf_of_joined joined]
  have apart : coords ≠ path := by
    rintro rfl
    exact different (rooted.inj navigable.ports rooted' sameRoot)
  rcases exists_nearer apart with ⟨init, last, rfl, nearer⟩ | ⟨next, rest, rfl, nearer⟩
  · -- the parent is on the way
    rcases rooted.parent_cases with ⟨-, -, -, impossible⟩ |
        ⟨parent, port, higher, labels, pointer, notSelf, upper, rfl, same⟩
    · simp at impossible
    · obtain ⟨rfl, -⟩ := List.append_inj' same rfl
      rcases navigable.parent_cases present pointer with itself | link
      · exact absurd itself notSelf
      · exact ⟨parent, higher, init, link, upper, by omega⟩
  · -- a child is on the way, and the node is its parent
    obtain ⟨child, lower, rootedChild, onWay, rootChild⟩ := rooted'.of_labels
    have presentChild : child ∈ net.nodes :=
      navigable.joined_mem (navigable.joined_above present' rooted' onWay) present'
    rcases rootedChild.parent_cases with ⟨-, -, -, impossible⟩ |
        ⟨parent, port, higher, labels, pointer, notSelf, upper, rfl, same⟩
    · simp at impossible
    · obtain ⟨rfl, -⟩ := List.append_inj' same rfl
      obtain ⟨root, _, last, -⟩ := upper.getLast_root
      have sameRoot' : higher.getLast? = above.getLast? := by
        rw [sameRoot, ← rootChild, List.getLast?_cons, last]
        rfl
      obtain rfl := upper.inj navigable.ports rooted sameRoot'
      rcases navigable.parent_cases presentChild pointer with itself | link
      · exact absurd itself notSelf
      · exact ⟨child, _, _, (navigable.linked link).2, rootedChild, by omega⟩

theorem dist_self (navigable : net.Navigable) (present : node ∈ net.nodes)
    (rooted : Rooted net.truth node above coords) {r : Router}
    (recached : Router.Recached (net.router node) r) (path : List PeerPort) :
    r.dist path (net.core node).publicKey = UInt64.ofNat (treeDist coords path) := by
  rw [recached.dist_eq, navigable.self node present]
  exact navigable.dist_eq present (.inl rfl) rooted

/-- A link is a candidate for the next hop exactly if its node is nearer in the tree. -/
theorem mem_nearer_iff (navigable : net.Navigable) (present : node ∈ net.nodes)
    (present' : dest ∈ net.nodes) (rooted : Rooted net.truth node above coords)
    (rooted' : Rooted net.truth dest above' path) {r : Router}
    (recached : Router.Recached (net.router node) r) {p : PeerId} :
    p ∈ r.nearer (net.core node) path ↔
      ∃ key ps above'' coords'', (net.router node).peers.lookup key = some ps ∧ p ∈ ps ∧
        Rooted net.truth key above'' coords'' ∧ treeDist coords'' path < treeDist coords path := by
  have short := navigable.length_lt present rooted
  have short' := navigable.length_lt present' rooted'
  -- both distances fit into 64 bits, so comparing them there is comparing them
  have compare : ∀ {key ps above'' coords''}, (net.router node).peers.lookup key = some ps →
      Rooted net.truth key above'' coords'' →
        (r.dist path key < UInt64.ofNat (treeDist coords path) ↔
          treeDist coords'' path < treeDist coords path) := by
    intro key ps above'' coords'' found rootedKey
    have link : net.Linked node key :=
      ⟨present, AList.mem_keys.mpr (Map.mem_keys_iff.mpr ⟨ps, found⟩)⟩
    rw [recached.dist_eq, navigable.dist_eq present (.inr link) rootedKey, UInt64.lt_iff_toNat_lt,
      toNat_treeDist (navigable.length_lt (navigable.linked_mem link) rootedKey) short',
      toNat_treeDist short short']
  rw [Router.mem_nearer, navigable.dist_self present rooted recached, recached.peers_eq]
  refine exists_congr fun key => exists_congr fun ps => ?_
  constructor
  · rintro ⟨found, listed, below⟩
    have link : net.Linked node key :=
      ⟨present, AList.mem_keys.mpr (Map.mem_keys_iff.mpr ⟨ps, found⟩)⟩
    obtain ⟨above'', coords'', rootedKey⟩ := navigable.rooted (navigable.linked_mem link)
    exact ⟨above'', coords'', found, listed, rootedKey, (compare found rootedKey).mp below⟩
  · rintro ⟨above'', coords'', found, listed, rootedKey, below⟩
    exact ⟨found, listed, (compare found rootedKey).mpr below⟩

/-- What a router does with a packet that has not been nearer to its destination: nothing if it is
the destination, and else it passes the packet to a peer that is nearer. -/
theorem lookup_cases (navigable : net.Navigable) (present : node ∈ net.nodes)
    (joined : net.Joined node dest) (rooted : Rooted net.truth node above coords)
    (rooted' : Rooted net.truth dest above' path)
    (unseen : UInt64.ofNat (treeDist coords path) < watermark) {r : Router}
    (recached : Router.Recached (net.router node) r) :
    (node = dest ∧ (r.lookup (net.core node) path watermark).1 = none) ∨
      ∃ p r' above'' coords'',
        r.lookup (net.core node) path watermark =
            (some p, UInt64.ofNat (treeDist coords path), r') ∧
          net.Linked node p.key ∧ Rooted net.truth p.key above'' coords'' ∧
            treeDist coords'' path < treeDist coords path := by
  have present' := navigable.joined_mem joined present
  have own := navigable.dist_self present rooted recached path
  have looked := Router.lookup_eq (net.core node)
    (recached.coherent (navigable.coherent node present)) path watermark
  rw [own, if_pos unseen] at looked
  have candidate : ∀ {p}, p ∈ r.nearer (net.core node) path ↔ _ :=
    navigable.mem_nearer_iff present present' rooted rooted' recached
  by_cases arrived : node = dest
  · subst arrived
    obtain ⟨-, rfl⟩ := rooted.unique rooted'
    left
    refine ⟨rfl, ?_⟩
    rw [looked]
    cases hop : r.nextHop (net.core node) coords with
    | none => rfl
    | some p =>
        obtain ⟨key, ps, above'', coords'', -, -, -, below⟩ :=
          candidate.mp (Router.mem_nearer_of_nextHop hop)
        rw [treeDist_self] at below
        exact absurd below (Nat.not_lt_zero _)
  · right
    obtain ⟨other, above'', coords'', link, rootedOther, below⟩ :=
      navigable.exists_nearer_peer present joined rooted rooted' arrived
    obtain ⟨ps, found⟩ := Map.mem_keys_iff.mp (AList.mem_keys.mp link.2)
    obtain ⟨first, rest, rfl⟩ := List.exists_cons_of_ne_nil (navigable.links present found).1
    obtain ⟨p, hop⟩ := Router.exists_nextHop
      (candidate.mpr ⟨other, _, above'', coords'', found, List.mem_cons_self, rootedOther, below⟩)
    obtain ⟨key, ps, above₁, coords₁, found₁, present₁, rooted₁, below₁⟩ :=
      candidate.mp (Router.mem_nearer_of_nextHop hop)
    obtain rfl := (navigable.links present found₁).2 p present₁
    rw [hop] at looked
    exact ⟨p, _, above₁, coords₁, looked,
      ⟨present, AList.mem_keys.mpr (Map.mem_keys_iff.mpr ⟨ps, found₁⟩)⟩, rooted₁, below₁⟩

/-- A packet that has not been nearer goes to its destination, in no more hops than its distance. -/
theorem travels_of_rooted (navigable : net.Navigable) (present : node ∈ net.nodes)
    (joined : net.Joined node dest) (rooted : Rooted net.truth node above coords)
    (rooted' : Rooted net.truth dest above' path)
    (unseen : UInt64.ofNat (treeDist coords path) < watermark) :
    (∃ hops, net.Travels path node watermark hops dest) ∧
      ∀ hops last, net.Travels path node watermark hops last →
        last = dest ∧ hops ≤ treeDist coords path := by
  generalize distance : treeDist coords path = count
  induction count using Nat.strong_induction_on generalizing node above coords watermark with
  | _ count ih =>
      have short := navigable.length_lt present rooted
      have short' := navigable.length_lt (navigable.joined_mem joined present) rooted'
      -- the next router is nearer, and the watermark is the distance of this one
      have onward : ∀ {p above'' coords''}, net.Linked node p →
          Rooted net.truth p above'' coords'' → treeDist coords'' path < treeDist coords path →
            (∃ hops, net.Travels path p (UInt64.ofNat (treeDist coords path)) hops dest) ∧
              ∀ hops last, net.Travels path p (UInt64.ofNat (treeDist coords path)) hops last →
                last = dest ∧ hops ≤ treeDist coords'' path := by
        intro p above'' coords'' link rootedNext below
        have presentNext := navigable.linked_mem link
        refine ih (treeDist coords'' path) (distance ▸ below) presentNext
          ((Relation.ReflTransGen.single (navigable.linked link).2).trans joined) rootedNext ?_ rfl
        rw [UInt64.lt_iff_toNat_lt,
          toNat_treeDist (navigable.length_lt presentNext rootedNext) short',
          toNat_treeDist short short']
        exact below
      constructor
      · rcases navigable.lookup_cases present joined rooted rooted' unseen (.refl _) with
          ⟨rfl, none⟩ | ⟨p, r', above'', coords'', looked, link, rootedNext, below⟩
        · exact ⟨0, .stop (.refl _) none⟩
        · obtain ⟨hops, rest⟩ := (onward link rootedNext below).1
          exact ⟨hops + 1, .hop (.refl _) looked rest⟩
      · intro hops last travels
        cases travels with
        | stop recached none =>
            rcases navigable.lookup_cases present joined rooted rooted' unseen recached with
              ⟨arrived, -⟩ | ⟨p, r', above'', coords'', looked, -, -, -⟩
            · exact ⟨arrived, Nat.zero_le _⟩
            · rw [looked] at none
              cases none
        | hop recached looked rest =>
            rcases navigable.lookup_cases present joined rooted rooted' unseen recached with
              ⟨-, none⟩ | ⟨p, r', above'', coords'', looked', link, rootedNext, below⟩
            · rw [looked] at none
              cases none
            · rw [looked] at looked'
              cases looked'
              obtain ⟨arrived, bound⟩ := (onward link rootedNext below).2 _ _ rest
              exact ⟨arrived, by omega⟩

/-- In a navigable network, a packet with the path that a node has for itself, and that no router
nearer to it has seen, is passed on until it is at that node, in at most as many hops as the two
are apart, and it stops nowhere else. -/
theorem delivers (navigable : net.Navigable) (present : node ∈ net.nodes)
    (joined : net.Joined node dest)
    (unseen : (net.router node).dist ((net.router dest).getRootAndPath dest).2 node < watermark) :
    (∃ hops, net.Travels ((net.router dest).getRootAndPath dest).2 node watermark hops dest) ∧
      ∀ hops last, net.Travels ((net.router dest).getRootAndPath dest).2 node watermark hops last →
        last = dest ∧
          hops ≤ ((net.router node).dist ((net.router dest).getRootAndPath dest).2 node).toNat := by
  have present' := navigable.joined_mem joined present
  obtain ⟨above, coords, rooted⟩ := navigable.rooted present
  obtain ⟨above', path, rooted'⟩ := navigable.rooted present'
  obtain ⟨root, -, same⟩ := (navigable.informed present' (.inl rfl)).getRootAndPath rooted'
  rw [same] at unseen ⊢
  rw [navigable.dist_eq present (.inl rfl) rooted] at unseen ⊢
  rw [toNat_treeDist (navigable.length_lt present rooted) (navigable.length_lt present' rooted')]
  exact navigable.travels_of_rooted present joined rooted rooted' unseen

end Navigable

theorem plain_navigable : plain.Navigable where
  toSettled := plain_settled
  ports {node other parent port} pointer pointer' notSelf notSelf' := by
    -- only the child has a parent that is not itself
    have child : ∀ {key}, plain.truth key = some (parent, port) → parent ≠ key →
        key = plainKey 2 := by
      intro key pointer notSelf
      rw [truth] at pointer
      split at pointer
      · rename_i present
        rcases mem_plain (List.contains_iff_mem.mp present) with rfl | rfl
        · exact absurd (plain_parent pointer) notSelf
        · rfl
      · cases pointer
    rw [child pointer notSelf, child pointer' notSelf']
  links {node key ps} present listed := by
    have single : ∀ {peer}, (plainRouter peer).peers.lookup key = some ps →
        ps ≠ [] ∧ ∀ p ∈ ps, p.key = key := by
      intro peer listed
      rw [plainRouter, Map.lookup_insert_eq] at listed
      split at listed
      · rename_i same
        cases listed
        refine ⟨List.cons_ne_nil _ _, fun p only => ?_⟩
        rw [List.mem_singleton.mp only, same]
      · cases listed
    rcases mem_plain present with rfl | rfl
    · exact single listed
    · exact single listed
  coherent node present := by
    rcases mem_plain present with rfl | rfl
    · exact Router.coherent_of_empty rfl
    · exact Router.coherent_of_empty rfl
  size := by decide

theorem delivers_plain :
    (∃ hops, plain.Travels ((plain.router (plainKey 2)).getRootAndPath (plainKey 2)).2 (plainKey 1)
        allOnes hops (plainKey 2)) ∧
      ∀ hops last, plain.Travels ((plain.router (plainKey 2)).getRootAndPath (plainKey 2)).2
          (plainKey 1) allOnes hops last →
        last = plainKey 2 ∧
          hops ≤ ((plain.router (plainKey 1)).dist
            ((plain.router (plainKey 2)).getRootAndPath (plainKey 2)).2 (plainKey 1)).toNat :=
  plain_navigable.delivers (by decide) (Relation.ReflTransGen.single ⟨by decide, by decide⟩)
    (by decide)

end Fleet

end Uqda.Network
