import Uqda.Network.Forwarding
import Uqda.Network.Parent

/-!
# Settled networks

A network is settled when no router wants another parent and every router knows the ways of itself
and of its peers to their roots as they are.  Then the parents form one tree in each connected
part of the network, and its root is the node with the least key: no circle of parents is stable,
because the least node on it sees nothing better than itself.
-/

namespace Uqda.Network

open Uqda.Store Uqda.Graph

/-- Some routers, by their keys. -/
structure Fleet where
  nodes : List PublicKey
  core : PublicKey → Core
  router : PublicKey → Router

/-- Among finitely many keys with a property there is a least one. -/
theorem exists_least {property : PublicKey → Prop} {keys : List PublicKey}
    (some : ∃ key ∈ keys, property key) :
    ∃ least ∈ keys, property least ∧ ∀ key ∈ keys, property key → less key least = false := by
  induction keys with
  | nil =>
      obtain ⟨key, absent, -⟩ := some
      cases absent
  | cons first keys ih =>
      by_cases later : ∃ key ∈ keys, property key
      · obtain ⟨least, present, holds, below⟩ := ih later
        by_cases better : property first ∧ less first least = true
        · refine ⟨first, List.mem_cons_self, better.1, fun key present' holds' => ?_⟩
          rcases List.mem_cons.mp present' with rfl | present'
          · exact less_irrefl _
          · exact not_less_trans (not_less_of_less better.2) (below key present' holds')
        · refine ⟨least, List.mem_cons_of_mem _ present, holds, fun key present' holds' => ?_⟩
          rcases List.mem_cons.mp present' with rfl | present'
          · exact Bool.eq_false_iff.mpr fun less => better ⟨holds', less⟩
          · exact below key present' holds'
      · obtain ⟨key, present, holds⟩ := some
        refine ⟨key, present, holds, fun other present' holds' => ?_⟩
        rcases List.mem_cons.mp present with rfl | present
        · rcases List.mem_cons.mp present' with rfl | present'
          · exact less_irrefl _
          · exact absurd ⟨other, present', holds'⟩ later
        · exact absurd ⟨key, present, holds⟩ later

namespace Fleet

/-- The parents as the nodes themselves have chosen them. -/
def truth (net : Fleet) : Pointers PublicKey PeerPort := fun key =>
  if net.nodes.contains key then pointers (net.router key).infos key else none

/-- One node is a peer of another. -/
def Linked (net : Fleet) (node other : PublicKey) : Prop :=
  node ∈ net.nodes ∧ other ∈ (net.router node).peers

/-- The nodes are connected by links. -/
def Joined (net : Fleet) : PublicKey → PublicKey → Prop := Relation.ReflTransGen net.Linked

/-- A router knows the way of a node towards its root as the nodes on it have chosen it. -/
structure Informed (net : Fleet) (node other : PublicKey) : Prop where
  known : other ∈ (net.router node).infos
  agree : ∀ above ∈ (net.router node).backwardsAncestry other,
    net.truth above = pointers (net.router node).infos above
  closed : ∀ above ∈ (net.router node).backwardsAncestry other, ∀ parent port,
    pointers (net.router node).infos above = some (parent, port) →
      parent ∈ (net.router node).infos

/-- Every router has links that go both ways, all its peers have responded, it knows the ways of
itself and its peers towards the root, and it keeps its parent. -/
structure Settled (net : Fleet) : Prop where
  self : ∀ node ∈ net.nodes, (net.core node).publicKey = node
  linked : ∀ {node other}, net.Linked node other → other ≠ node ∧ net.Linked other node
  responses : ∀ {node other}, node ∈ net.nodes →
    (other ∈ (net.router node).responses ↔ other ∈ (net.router node).peers)
  informed : ∀ {node other}, node ∈ net.nodes → other = node ∨ net.Linked node other →
    net.Informed node other
  content : ∀ node ∈ net.nodes,
    (net.router node).selfParent (net.core node) = ((net.router node).choose (net.core node)).parent

theorem pointers_ne_none_of_mem {infos : Map PublicKey RouterInfo} {key : PublicKey}
    (known : key ∈ infos) : pointers infos key ≠ none := by
  rw [Ne, pointers_eq_none_iff, Map.lookup_eq_none_iff, not_not]
  exact AList.mem_keys.mp known

/-- The walk that the router sees is the true one. -/
theorem Informed.climb {net : Fleet} {node other : PublicKey} (informed : net.Informed node other) :
    Climb net.truth [] other ((net.router node).backwardsAncestry other) :=
  ((net.router node).backwardsAncestry_climb other).congr
    (.inr (pointers_ne_none_of_mem informed.known)) informed.agree
    fun above higher parent port pointer =>
      pointers_ne_none_of_mem (informed.closed above higher parent port pointer)

/-- The router computes the true path. -/
theorem Informed.getRootAndPath {net : Fleet} {node other : PublicKey} {above : List PublicKey}
    {ports : List PeerPort} (informed : net.Informed node other)
    (rooted : Rooted net.truth other above ports) :
    ∃ root, above.getLast? = some root ∧
      (net.router node).getRootAndPath other = (root, ports) := by
  have walk := informed.climb.unique (Climb.of_rooted rooted fun _ _ => List.not_mem_nil)
  refine Router.getRootAndPath_rooted (rooted.congr fun key higher => ?_)
  rw [informed.agree key (by rwa [walk])]

namespace Settled

variable {net : Fleet} {node other parent : PublicKey} {port : PeerPort}

theorem linked_mem (settled : net.Settled) (link : net.Linked node other) : other ∈ net.nodes :=
  (settled.linked link).2.1

/-- All observers see the same way. -/
theorem ancestry_eq (settled : net.Settled) (link : net.Linked node other) :
    (net.router node).backwardsAncestry other = (net.router other).backwardsAncestry other :=
  (settled.informed link.1 (.inr link)).climb.unique
    (settled.informed (settled.linked_mem link) (.inl rfl)).climb

theorem rootOf_eq (settled : net.Settled) (link : net.Linked node other) :
    (net.router node).rootOf other = (net.router other).rootOf other := by
  rw [Router.rootOf, Router.rootOf, Router.getRootAndDists_root, Router.getRootAndDists_root,
    settled.ancestry_eq link]

theorem truth_eq (present : node ∈ net.nodes) :
    net.truth node = pointers (net.router node).infos node :=
  if_pos (List.contains_iff_mem.mpr present)

/-- The parent of a node is the choice of its router. -/
theorem parent_eq (settled : net.Settled) (present : node ∈ net.nodes)
    (pointer : net.truth node = some (parent, port)) :
    parent = ((net.router node).choose (net.core node)).parent := by
  rw [truth_eq present] at pointer
  obtain ⟨info, found, rfl, -⟩ := pointers_eq_some_iff.mp pointer
  rw [← settled.content node present, Router.selfParent, settled.self node present, found]

/-- The parent of a node is the node itself or one of its peers. -/
theorem parent_cases (settled : net.Settled) (present : node ∈ net.nodes)
    (pointer : net.truth node = some (parent, port)) : parent = node ∨ net.Linked node parent := by
  have chosen := settled.parent_eq present pointer
  have same := settled.self node present
  cases (net.router node).choose_origin (net.core node) with
  | self _ itself => exact .inl (chosen.trans (itself.trans same))
  | current peer _ kept _ =>
      rw [← kept] at peer
      exact .inr ⟨present, chosen ▸ peer⟩
  | response eligible _ _ =>
      exact .inr ⟨present, chosen ▸ (settled.responses present).mp eligible.response⟩

theorem parent_mem (settled : net.Settled) (present : node ∈ net.nodes)
    (pointer : net.truth node = some (parent, port)) : parent ∈ net.nodes := by
  rcases settled.parent_cases present pointer with rfl | link
  · exact present
  · exact settled.linked_mem link

theorem exists_truth (settled : net.Settled) (present : node ∈ net.nodes) :
    ∃ parent port, net.truth node = some (parent, port) := by
  obtain ⟨⟨parent, port⟩, found⟩ :=
    Router.exists_pointer_of_mem (settled.informed present (.inl rfl)).known
  exact ⟨parent, port, by rw [truth_eq present, found]⟩

/-- The parents of every node lead to a root. -/
theorem rooted (settled : net.Settled) (present : node ∈ net.nodes) :
    ∃ above ports, Rooted net.truth node above ports := by
  by_contra unrooted
  obtain ⟨least, present, unrooted, below⟩ :=
    @exists_least (fun key => ¬ ∃ above ports, Rooted net.truth key above ports) net.nodes
      ⟨node, present, unrooted⟩
  -- the nodes that have no root form a set that the parents do not leave
  have closed : ∀ {node parent port},
      node ∈ net.nodes ∧ (¬ ∃ above ports, Rooted net.truth node above ports) →
        net.truth node = some (parent, port) →
          parent ∈ net.nodes ∧ ¬ ∃ above ports, Rooted net.truth parent above ports := by
    rintro node parent port ⟨present, unrooted⟩ pointer
    refine ⟨settled.parent_mem present pointer, ?_⟩
    rintro ⟨above, ports, rooted⟩
    by_cases itself : parent = node
    · rw [itself] at rooted
      exact unrooted ⟨above, ports, rooted⟩
    · exact unrooted ⟨_, _, .child pointer itself rooted⟩
  have notBelow : ∀ {other}, other = least ∨ net.Linked least other →
      (¬ ∃ above ports, Rooted net.truth other above ports) →
        less ((net.router least).rootOf other) least = false := by
    intro other link unrooted
    have known := Router.rootOf_mem (settled.informed present link).known
    have start : other ∈ net.nodes := by
      rcases link with rfl | link
      · exact present
      · exact settled.linked_mem link
    obtain ⟨present', unrooted'⟩ :=
      (settled.informed present link).climb.forall_mem ⟨start, unrooted⟩ closed _ known
    exact below _ present' unrooted'
  obtain ⟨parent, port, pointer⟩ := settled.exists_truth present
  have different : parent ≠ least := by
    rintro rfl
    exact unrooted ⟨_, _, .root pointer⟩
  have chosen := settled.parent_eq present pointer
  have same := settled.self least present
  cases (net.router least).choose_origin (net.core least) with
  | self _ itself => exact different (chosen.trans (itself.trans same))
  | current _ root _ better =>
      rw [root, same, notBelow (.inl rfl) unrooted] at better
      cases better
  | response eligible root better =>
      have link : net.Linked least parent :=
        ⟨present, chosen ▸ (settled.responses present).mp eligible.response⟩
      rw [root, same, ← chosen,
        notBelow (.inr link) (closed ⟨present, unrooted⟩ pointer).2] at better
      cases better

/-- The root that a router sees for itself. -/
theorem rootOf_rooted (settled : net.Settled) (present : node ∈ net.nodes) {above : List PublicKey}
    {ports : List PeerPort} (rooted : Rooted net.truth node above ports) :
    above.getLast? = some ((net.router node).rootOf node) := by
  have walk := (settled.informed present (.inl rfl)).climb.unique
    (Climb.of_rooted rooted fun _ _ => List.not_mem_nil)
  obtain ⟨root, port, last, -⟩ := rooted.getLast_root
  rw [Router.rootOf, Router.getRootAndDists_root, walk, last, Option.getD_some]

/-- A node and its parent have the same root. -/
theorem rootOf_parent (settled : net.Settled) (present : node ∈ net.nodes)
    (pointer : net.truth node = some (parent, port)) :
    (net.router node).rootOf node = (net.router parent).rootOf parent := by
  obtain ⟨above, ports, rooted⟩ := settled.rooted present
  rcases rooted.parent_cases with ⟨_, pointer', rfl, rfl⟩ |
      ⟨parent', _, above', ports', pointer', -, rooted', rfl, rfl⟩
  · rw [pointer] at pointer'
    cases pointer'
    rfl
  · rw [pointer] at pointer'
    cases pointer'
    have last := settled.rootOf_rooted present rooted
    have last' := settled.rootOf_rooted (settled.parent_mem present pointer) rooted'
    rw [List.getLast?_cons, last', Option.getD_some, Option.some.injEq] at last
    exact last.symm

/-- The root of the choice is the root that the node has. -/
theorem choose_root (settled : net.Settled) (present : node ∈ net.nodes) :
    ((net.router node).choose (net.core node)).root = (net.router node).rootOf node := by
  obtain ⟨parent, port, pointer⟩ := settled.exists_truth present
  have chosen := settled.parent_eq present pointer
  have same := settled.self node present
  cases (net.router node).choose_origin (net.core node) with
  | self root itself =>
      rw [chosen.trans (itself.trans same)] at pointer
      have last := settled.rootOf_rooted present (.root pointer)
      rw [root, same]
      exact Option.some.inj last
  | current _ root _ _ => rw [root, same]
  | response eligible root _ =>
      have link : net.Linked node parent :=
        ⟨present, chosen ▸ (settled.responses present).mp eligible.response⟩
      rw [root, ← chosen, settled.rootOf_eq link, settled.rootOf_parent present pointer]

/-- No node is less than its root. -/
theorem not_less_rootOf (settled : net.Settled) (present : node ∈ net.nodes) :
    less node ((net.router node).rootOf node) = false := by
  have origin := (net.router node).choose_origin (net.core node)
  rw [← settled.choose_root present]
  have notLess := origin.not_less
  rwa [settled.self node present] at notLess

/-- No peer has a better root. -/
theorem not_less_of_linked (settled : net.Settled) (link : net.Linked node other) :
    less ((net.router other).rootOf other) ((net.router node).rootOf node) = false := by
  have present := link.1
  have present' := settled.linked_mem link
  obtain ⟨above, ports, rooted⟩ := settled.rooted present'
  have walk := (settled.informed present (.inr link)).climb.unique
    (Climb.of_rooted rooted fun _ _ => List.not_mem_nil)
  by_cases through : node ∈ above
  · -- the way of the peer leads through the node, so they have the same root
    obtain ⟨above', ports', rooted', upper, -⟩ := rooted.of_mem through
    have last := settled.rootOf_rooted present rooted'
    have last' := settled.rootOf_rooted present' rooted
    have nonempty : above' ≠ [] := List.ne_nil_of_mem rooted'.self_mem
    obtain ⟨lower, rfl⟩ := upper
    rw [List.getLast?_append_of_ne_nil _ nonempty, last, Option.some.injEq] at last'
    rw [last']
    exact less_irrefl _
  · have eligible : Router.Eligible (net.core node) (net.router node) other :=
      ⟨(settled.responses present).mpr link.2, (settled.informed present (.inr link)).known, by
        rwa [settled.self node present, walk]⟩
    have best := Router.choose_le eligible
    rwa [settled.rootOf_eq link, settled.choose_root present] at best

theorem rootOf_of_linked (settled : net.Settled) (link : net.Linked node other) :
    (net.router other).rootOf other = (net.router node).rootOf node :=
  eq_of_not_less (settled.not_less_of_linked link)
    (settled.not_less_of_linked (settled.linked link).2)

theorem joined_mem (settled : net.Settled) (joined : net.Joined node other)
    (present : node ∈ net.nodes) : other ∈ net.nodes := by
  induction joined with
  | refl => exact present
  | tail _ link _ => exact settled.linked_mem link

theorem rootOf_of_joined (settled : net.Settled) (joined : net.Joined node other) :
    (net.router other).rootOf other = (net.router node).rootOf node := by
  induction joined with
  | refl => rfl
  | tail _ link ih => exact (settled.rootOf_of_linked link).trans ih

/-- Each node on the way to the root is joined to the node. -/
theorem joined_above (settled : net.Settled) (present : node ∈ net.nodes) {above : List PublicKey}
    {ports : List PeerPort} (rooted : Rooted net.truth node above ports) (higher : other ∈ above) :
    net.Joined node other := by
  have all : ∀ other ∈ above, other ∈ net.nodes ∧ net.Joined node other := by
    refine rooted.forall_mem ⟨present, Relation.ReflTransGen.refl⟩ ?_
    rintro middle parent port ⟨present', joined⟩ pointer
    refine ⟨settled.parent_mem present' pointer, ?_⟩
    rcases settled.parent_cases present' pointer with rfl | link
    · exact joined
    · exact joined.tail link
  exact (all other higher).2

/-- In a settled network the nodes that are connected to a node are one tree, which the parents
lead up: all have the same root, it is one of them, and it is the least of them. -/
theorem one_tree (settled : net.Settled) (present : node ∈ net.nodes) :
    ∃ root, net.Joined node root ∧ ∀ other, net.Joined node other →
      less other root = false ∧ ∃ above ports, Rooted net.truth other above ports ∧
        above.getLast? = some root ∧ (net.router other).getRootAndPath other = (root, ports) := by
  obtain ⟨above, ports, rooted⟩ := settled.rooted present
  have last := settled.rootOf_rooted present rooted
  refine ⟨(net.router node).rootOf node,
    settled.joined_above present rooted (List.mem_of_getLast? last), fun other joined => ?_⟩
  have present' := settled.joined_mem joined present
  have same := settled.rootOf_of_joined joined
  obtain ⟨above', ports', rooted'⟩ := settled.rooted present'
  have last' := settled.rootOf_rooted present' rooted'
  rw [← same]
  refine ⟨settled.not_less_rootOf present', above', ports', rooted', last', ?_⟩
  obtain ⟨root, last, path⟩ := (settled.informed present' (.inl rfl)).getRootAndPath rooted'
  rw [last'] at last
  cases last
  exact path

end Settled

/-! ## A root and its child -/

/-- The network of a root and its child. -/
def plain : Fleet where
  nodes := [plainKey 1, plainKey 2]
  core := plainCore
  router key := if key = plainKey 1 then plainRoot else plainRouter (plainKey 1)

theorem mem_plain {node : PublicKey} (present : node ∈ plain.nodes) :
    node = plainKey 1 ∨ node = plainKey 2 := by
  rcases List.mem_cons.mp present with first | later
  · exact .inl first
  · exact .inr (List.mem_singleton.mp later)

/-- Both know the root as the only parent. -/
theorem plain_parent {key parent : PublicKey} {port : PeerPort}
    (pointer : pointers plainInfos key = some (parent, port)) : parent = plainKey 1 := by
  rw [pointers_eq_some_iff] at pointer
  obtain ⟨info, found, rfl, -⟩ := pointer
  rw [plainInfos, Map.lookup_insert_eq, Map.lookup_insert_eq] at found
  split at found
  · cases found
    rfl
  · split at found
    · cases found
      rfl
    · cases found

theorem plain_linked {node other : PublicKey} (link : plain.Linked node other) :
    (node = plainKey 1 ∧ other = plainKey 2) ∨ (node = plainKey 2 ∧ other = plainKey 1) := by
  obtain ⟨present, peer⟩ := link
  rcases mem_plain present with rfl | rfl
  · exact .inl ⟨rfl, (AList.mem_insert _).mp peer |>.resolve_right (AList.notMem_empty _)⟩
  · exact .inr ⟨rfl, (AList.mem_insert _).mp peer |>.resolve_right (AList.notMem_empty _)⟩

theorem plain_infos {node : PublicKey} (present : node ∈ plain.nodes) :
    (plain.router node).infos = plainInfos := by
  rcases mem_plain present with rfl | rfl
  · rfl
  · rfl

/-- Both nodes see the whole way of each to the root. -/
theorem plain_informed {node other : PublicKey} (present : node ∈ plain.nodes)
    (present' : other ∈ plain.nodes) : plain.Informed node other := by
  have walk := (plain.router node).backwardsAncestry_climb other
  have infos := plain_infos present
  constructor
  · rw [infos]
    rcases mem_plain present' with rfl | rfl
    · decide
    · decide
  · intro above higher
    have inside : above ∈ plain.nodes := by
      refine walk.forall_mem present' (fun _ pointer => ?_) above higher
      rw [infos] at pointer
      rw [plain_parent pointer]
      exact List.mem_cons_self
    rw [Settled.truth_eq inside, plain_infos inside, infos]
  · intro above _ parent port pointer
    rw [infos] at pointer ⊢
    rw [plain_parent pointer]
    decide

theorem plain_settled : plain.Settled where
  self node present := by
    rcases mem_plain present with rfl | rfl
    · rfl
    · rfl
  linked link := by
    rcases plain_linked link with ⟨rfl, rfl⟩ | ⟨rfl, rfl⟩
    · exact ⟨by decide, by decide, by decide⟩
    · exact ⟨by decide, by decide, by decide⟩
  responses {node other} present := by
    have same : ∀ peer,
        other ∈ (plainRouter peer).responses ↔ other ∈ (plainRouter peer).peers := by
      intro peer
      rw [plainRouter, AList.mem_insert, AList.mem_insert]
      exact or_congr_right (iff_of_false (AList.notMem_empty _) (AList.notMem_empty _))
    rcases mem_plain present with rfl | rfl
    · exact same _
    · exact same _
  informed present link := by
    rcases link with rfl | link
    · exact plain_informed present present
    · rcases plain_linked link with ⟨rfl, rfl⟩ | ⟨rfl, rfl⟩
      · exact plain_informed present (by decide)
      · exact plain_informed present (by decide)
  content node present := by
    rcases mem_plain present with rfl | rfl
    · decide
    · decide

theorem one_tree_plain :
    ∃ root, plain.Joined (plainKey 2) root ∧ ∀ other, plain.Joined (plainKey 2) other →
      less other root = false ∧ ∃ above ports, Rooted plain.truth other above ports ∧
        above.getLast? = some root ∧ (plain.router other).getRootAndPath other = (root, ports) :=
  plain_settled.one_tree (by decide)

end Fleet

end Uqda.Network
