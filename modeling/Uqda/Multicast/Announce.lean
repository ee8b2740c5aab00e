import Uqda.Multicast.Beacon
import Uqda.Multicast.Rules
import Uqda.Store.Table
import Uqda.Transition.Core
import Mathlib.Data.List.AList

/-!
# Rounds of announcements

The embedding of `_updateInterfaces` and `_announce` in `src/multicast/multicast.go` for a
module that runs.  A round rebuilds the table of interfaces, stops the listeners whose
address is gone, opens a listener for each interface that beacons and has none, and sends a
beacon for those that are due.

A listener keeps the link password of the round that opened it.  The hash in a beacon is
that of the rule which the interface got in the round that sends it.  A beacon leads to
calls with the password of its listener exactly if the two are the same.
-/

namespace Uqda.Multicast

open Uqda.Addressing Uqda.Transition

variable {ρ : Type}

/-! ## Addresses -/

/-- `IP.To4`. -/
def to4 (ip : Bytes) : Option Bytes :=
  if ip.length = 4 then some ip
  else if ip.length = 16 ∧ ip.take 12 = List.replicate 10 0 ++ [0xff, 0xff] then some (ip.drop 12)
  else none

/-- `IP.IsLinkLocalUnicast`. -/
def isLinkLocalUnicast (ip : Bytes) : Bool :=
  match to4 ip with
  | some ip4 => ip4.take 2 = [169, 254]
  | none => ip.length = 16 ∧ ip.getD 0 0 = 0xfe ∧ ip.getD 1 0 &&& 0xc0 = 0x80

/-- The test of an address.  The address is what `net.ParseCIDR` makes of it. -/
def linkLocal : Option Bytes → Bool
  | none => false
  | some ip => (to4 ip).isNone && isLinkLocalUnicast ip

/-! ## The state of a node -/

/-- `interfaceInfo` with its addresses. -/
structure LocalInterface extends InterfaceInfo where
  addrs : List (Option Bytes)

/-- `listenerInfo`.  The listener is given by its accept loop, which holds the options that
it was created with.  Times are in nanoseconds. -/
structure ListenerInfo where
  loop : Links.AcceptLoop
  time : Nat
  interval : Nat

/-- A beacon that was sent on an interface, with the listener that it advertises. -/
structure Beacon where
  zone : String
  message : Bytes
  loop : Links.AcceptLoop

/-- What the rounds of a node read and write, and the beacons it has sent. -/
structure Node where
  resources : Links.Resources
  listeners : AList fun _ : String => ListenerInfo
  sent : List Beacon

/-- The node before the first round. -/
def Node.start : Node :=
  ⟨⟨[], [], [], []⟩, ∅, []⟩

/-- The standard library and the addresses of sockets.  `joinHostPort` prints an address
with a port, and `resolveTCPAddr` reads the printed address of a socket. -/
structure Host where
  lib : Links.Library
  joinHostPort : Bytes → UInt16 → Bytes
  resolveTCPAddr : Nat → Option Bytes
  port : Nat → UInt16

/-- What the system and the runtime choose in one round: the interfaces, each with the order
in which its rules are visited; the addresses of an interface, if they can be read; the
order in which `_interfaces` is visited; how a bind ends; the time at an interface; and
whether the beacon on it can be written. -/
structure Round where
  allifaces : List (Iface × List MulticastInterface)
  interfaceAddrs : String → Option (List (Option Bytes))
  order : List String
  bind : Links.Bind
  now : String → Nat
  written : String → Bool

/-- `_updateInterfaces`. -/
def Round.updateInterfaces (env : Environment ρ) (round : Round) (name : String) :
    Option LocalInterface :=
  match env.getAllowedInterfaces round.allifaces name with
  | none => none
  | some info =>
      match round.interfaceAddrs name with
      | none => none
      | some addrs => some { info with addrs := addrs.filter linkLocal }

/-- The rules of each interface and the table of interfaces are visited in some order. -/
def Round.Possible (env : Environment ρ) (rules : List MulticastInterface) (round : Round) :
    Prop :=
  (∀ visited ∈ round.allifaces, visited.2.Perm rules) ∧ round.order.Nodup ∧
    (∀ name ∈ round.order, (round.updateInterfaces env name).isSome) ∧
      ∀ visited ∈ round.allifaces, (round.updateInterfaces env visited.1.name).isSome →
        visited.1.name ∈ round.order

instance (env : Environment ρ) (rules : List MulticastInterface) (round : Round) :
    Decidable (round.Possible env rules) :=
  inferInstanceAs (Decidable (_ ∧ _ ∧ _ ∧ _))

/-! ## A round -/

/-- The listener of an interface has to stop: the interface is gone, or the address of the
listener cannot be read or is not an address of the interface. -/
def Host.stale (host : Host) (interfaces : String → Option LocalInterface) (name : String)
    (linfo : ListenerInfo) : Bool :=
  match interfaces name with
  | none => true
  | some info =>
      match host.resolveTCPAddr linfo.loop.listener.socket with
      | none => true
      | some ip => !info.addrs.contains (some ip)

/-- One iteration of the loop over `_listeners`. -/
def Node.prune (host : Host) (interfaces : String → Option LocalInterface) (node : Node)
    (name : String) : Node :=
  match node.listeners.lookup name with
  | none => node
  | some linfo =>
      if host.stale interfaces name linfo then
        { node with
          resources := node.resources.cancel linfo.loop.listener
          listeners := node.listeners.erase name }
      else
        node

/-- `core.ListenLocal`, with the accept loop of the listener that it returns. -/
def listenLocal (host : Host) (round : Round) (resources : Links.Resources) (u : Links.Url)
    (sintf : String) : Option Links.AcceptLoop × Links.Resources :=
  match resources.listen host.lib round.bind u sintf true with
  | (.ok _, resources) => (resources.acceptLoops.getLast?, resources)
  | (.error _, resources) => (none, resources)

/-- The listener of an interface: the one there is, or a new one on the address. -/
def Node.listenOn (host : Host) (round : Round) (node : Node) (info : LocalInterface)
    (ip : Bytes) : Option ListenerInfo × Node :=
  match node.listeners.lookup info.iface.name with
  | some linfo => (some linfo, node)
  | none =>
      let u := listenUrl (host.joinHostPort ip info.port) info.toInterfaceInfo
      match listenLocal host round node.resources u info.iface.name with
      | (none, resources) => (none, { node with resources })
      | (some loop, resources) =>
          let linfo : ListenerInfo := ⟨loop, round.now info.iface.name, 0⟩
          (some linfo,
            { node with resources, listeners := node.listeners.insert info.iface.name linfo })

/-- A beacon may be sent for the listener again. -/
def Round.due (round : Round) (name : String) (linfo : ListenerInfo) : Bool :=
  !(round.now name - linfo.time < linfo.interval)

/-- The listener after a beacon. -/
def ListenerInfo.announced (linfo : ListenerInfo) (now : Nat) : ListenerInfo :=
  { linfo with
    time := now
    interval :=
      if linfo.interval < 15 * 1000000000 then linfo.interval + 1000000000 else linfo.interval }

/-- The beacon of an interface for its listener. -/
def beaconFor (env : Environment ρ) (host : Host) (info : LocalInterface)
    (linfo : ListenerInfo) : Beacon where
  zone := info.iface.name
  message :=
    (advertisement env.publicKey (host.port linfo.loop.listener.socket)
      info.toInterfaceInfo).marshalBinary
  loop := linfo.loop

/-- The end of an iteration: the beacon is written if the system lets it. -/
def Node.send (env : Environment ρ) (host : Host) (round : Round) (node : Node)
    (info : LocalInterface) (linfo : ListenerInfo) : Node :=
  { node with
    listeners :=
      node.listeners.insert info.iface.name (linfo.announced (round.now info.iface.name))
    sent :=
      if round.written info.iface.name then node.sent ++ [beaconFor env host info linfo]
      else node.sent }

/-- The loop over the addresses of an interface. -/
def Node.visitAddrs (env : Environment ρ) (host : Host) (round : Round)
    (info : LocalInterface) : Node → List (Option Bytes) → Node
  | node, [] => node
  | node, none :: addrs => node.visitAddrs env host round info addrs
  | node, some ip :: addrs =>
      if !linkLocal (some ip) then
        node.visitAddrs env host round info addrs
      else if !info.beacon then
        node
      else
        match node.listenOn host round info ip with
        | (none, node) => node.visitAddrs env host round info addrs
        | (some linfo, node) =>
            if !round.due info.iface.name linfo then
              node.visitAddrs env host round info addrs
            else
              node.send env host round info linfo

/-- One iteration of the loop over `_interfaces`. -/
def Node.visit (env : Environment ρ) (host : Host) (round : Round) (node : Node)
    (name : String) : Node :=
  match round.updateInterfaces env name with
  | none => node
  | some info => node.visitAddrs env host round info info.addrs

/-- `_announce` up to its timer. -/
def Node.announce (env : Environment ρ) (host : Host) (round : Round) (node : Node) : Node :=
  round.order.foldl (Node.visit env host round)
    (node.listeners.keys.foldl (Node.prune host (round.updateInterfaces env)) node)

/-- What can happen: a round, and a call or an exit of some other listener. -/
inductive NodeEvent where
  | announce (round : Round)
  | links (event : Links.ListenEvent)

/-- One event.  A round has to be possible. -/
def Node.next (env : Environment ρ) (host : Host) (rules : List MulticastInterface) :
    Step Node NodeEvent
  | node, .announce round =>
      if round.Possible env rules then some (node.announce env host round) else none
  | node, .links event =>
      (node.resources.next host.lib event).map fun resources => { node with resources }

/-! ## The interfaces of a round -/

section Interfaces

variable {env : Environment ρ} {name : String} {info : InterfaceInfo}

/-- What the inner loop fills in. -/
theorem Environment.hashed_of_choose {iface : Iface} {order : List MulticastInterface}
    (chosen : env.choose iface order = some info) :
    info.iface = iface ∧ info.Hashed env.blake2b env.publicKey ∧
      ∃ ifcfg ∈ order, ifcfg.password = info.password := by
  induction order with
  | nil => cases chosen
  | cons ifcfg order ih =>
      have later (chosen : env.choose iface order = some info) :
          info.iface = iface ∧ info.Hashed env.blake2b env.publicKey ∧
            ∃ other ∈ ifcfg :: order, other.password = info.password := by
        obtain ⟨same, hashed, other, member, password⟩ := ih chosen
        exact ⟨same, hashed, other, List.mem_cons_of_mem _ member, password⟩
      simp only [Environment.choose] at chosen
      split_ifs at chosen with unused unnamed long size
      · exact later chosen
      · exact later chosen
      · exact later chosen
      · exact later chosen
      · cases chosen
        exact ⟨rfl, ⟨Nat.le_of_not_lt long, not_ne_iff.mp size, rfl⟩, ifcfg,
          List.mem_cons_self, rfl⟩

theorem Environment.eq_some_of_visit {interfaces : String → Option InterfaceInfo} {iface : Iface}
    {order : List MulticastInterface} (stored : env.visit interfaces iface order name = some info) :
    interfaces name = some info ∨ iface.name = name ∧ env.choose iface order = some info := by
  unfold Environment.visit at stored
  split at stored
  · cases chosen : env.choose iface order with
    | none =>
        rw [chosen] at stored
        exact .inl stored
    | some found =>
        rw [chosen] at stored
        rcases Store.update_eq_some_iff.mp stored with ⟨same, entry⟩ | ⟨-, before⟩
        · exact .inr ⟨same.symm, entry⟩
        · exact .inl before
  · exact .inl stored

/-- An entry of the table belongs to an interface of the system and has the password of a
rule that was visited for it. -/
structure Environment.Filled (env : Environment ρ)
    (allifaces : List (Iface × List MulticastInterface)) (name : String) (info : InterfaceInfo) :
    Prop where
  named : info.iface.name = name
  hashed : info.Hashed env.blake2b env.publicKey
  reported : ∃ visited ∈ allifaces, visited.1.name = name ∧
    ∃ ifcfg ∈ visited.2, ifcfg.password = info.password

theorem Environment.filled_of_foldl_visit {allifaces : List (Iface × List MulticastInterface)}
    {interfaces : String → Option InterfaceInfo}
    (stored : allifaces.foldl (fun interfaces visited =>
      env.visit interfaces visited.1 visited.2) interfaces name = some info) :
    interfaces name = some info ∨ env.Filled allifaces name info := by
  induction allifaces generalizing interfaces with
  | nil => exact .inl stored
  | cons visited allifaces ih =>
      rcases ih stored with earlier | ⟨named, hashed, other, member, reported⟩
      · rcases Environment.eq_some_of_visit earlier with before | ⟨rfl, chosen⟩
        · exact .inl before
        · obtain ⟨same, hashed, rule⟩ := Environment.hashed_of_choose chosen
          exact .inr ⟨congrArg Iface.name same, hashed, visited, List.mem_cons_self, rfl, rule⟩
      · exact .inr ⟨named, hashed, other, List.mem_cons_of_mem _ member, reported⟩

theorem Environment.filled_of_getAllowedInterfaces
    {allifaces : List (Iface × List MulticastInterface)}
    (stored : env.getAllowedInterfaces allifaces name = some info) :
    env.Filled allifaces name info := by
  rcases Environment.filled_of_foldl_visit stored with earlier | filled
  · cases earlier
  · exact filled

/-- An interface of a round, with addresses that are all link-local. -/
theorem Round.filled_of_updateInterfaces {round : Round} {found : LocalInterface}
    (stored : round.updateInterfaces env name = some found) :
    env.Filled round.allifaces name found.toInterfaceInfo ∧
      ∀ addr ∈ found.addrs, linkLocal addr = true := by
  unfold Round.updateInterfaces at stored
  split at stored
  · cases stored
  · rename_i allowed
    split at stored
    · cases stored
    · cases stored
      exact ⟨Environment.filled_of_getAllowedInterfaces allowed,
        fun addr member => (List.mem_filter.mp member).2⟩

/-- A possible round visits every interface. -/
theorem Round.mem_order_of_possible {round : Round} {rules : List MulticastInterface}
    {found : LocalInterface} (possible : round.Possible env rules)
    (stored : round.updateInterfaces env name = some found) : name ∈ round.order := by
  obtain ⟨⟨-, -, visited, member, rfl, -⟩, -⟩ := Round.filled_of_updateInterfaces stored
  exact possible.2.2.2 visited member (by rw [stored]; rfl)

/-- In a possible round every interface has the password of a rule. -/
theorem Round.password_of_possible {round : Round} {rules : List MulticastInterface}
    {found : LocalInterface} (possible : round.Possible env rules)
    (stored : round.updateInterfaces env name = some found) :
    ∃ ifcfg ∈ rules, ifcfg.password = found.password := by
  obtain ⟨⟨-, -, visited, member, -, ifcfg, listed, same⟩, -⟩ :=
    Round.filled_of_updateInterfaces stored
  exact ⟨ifcfg, (possible.1 visited member).mem_iff.mp listed, same⟩

end Interfaces

/-! ## Listeners that stay -/

section Prune

variable {host : Host} {interfaces : String → Option LocalInterface} {node : Node}
  {name : String}

@[simp]
theorem Node.sent_foldl_prune (names : List String) :
    (names.foldl (Node.prune host interfaces) node).sent = node.sent := by
  induction names generalizing node with
  | nil => rfl
  | cons other names ih =>
      rw [List.foldl_cons, ih, Node.prune]
      split
      · rfl
      · split <;> rfl

theorem Node.lookup_prune (other : String) :
    (node.prune host interfaces other).listeners.lookup name =
      if name = other then
        (node.listeners.lookup name).filter fun linfo => !host.stale interfaces name linfo
      else
        node.listeners.lookup name := by
  unfold Node.prune
  by_cases same : name = other
  · subst same
    cases found : node.listeners.lookup name with
    | none => simp [found]
    | some linfo =>
        cases stale : host.stale interfaces name linfo <;>
          simp [stale, found, Option.filter_some]
  · cases node.listeners.lookup other with
    | none => simp [same]
    | some linfo => cases stale : host.stale interfaces other linfo <;> simp [stale, same]

theorem Node.lookup_foldl_prune (names : List String) :
    (names.foldl (Node.prune host interfaces) node).listeners.lookup name =
      if name ∈ names then
        (node.listeners.lookup name).filter fun linfo => !host.stale interfaces name linfo
      else
        node.listeners.lookup name := by
  induction names generalizing node with
  | nil => rfl
  | cons other names ih =>
      rw [List.foldl_cons, ih, Node.lookup_prune]
      by_cases same : name = other
      · subst same
        simp [Option.filter_filter]
      · simp [same]

/-- The listeners that are left are those that are not stale. -/
theorem Node.lookup_foldl_prune_keys :
    (node.listeners.keys.foldl (Node.prune host interfaces) node).listeners.lookup name =
      (node.listeners.lookup name).filter fun linfo => !host.stale interfaces name linfo := by
  rw [Node.lookup_foldl_prune]
  split
  · rfl
  · rename_i absent
    have none : node.listeners.lookup name = none := AList.lookup_eq_none.mpr absent
    rw [none]
    rfl

/-- A listener stays on an interface that has its address. -/
theorem Host.address_of_not_stale {linfo : ListenerInfo}
    (fresh : host.stale interfaces name linfo = false) :
    ∃ info, interfaces name = some info ∧
      ∃ ip, host.resolveTCPAddr linfo.loop.listener.socket = some ip ∧ some ip ∈ info.addrs := by
  unfold Host.stale at fresh
  split at fresh
  · cases fresh
  · rename_i info found
    split at fresh
    · cases fresh
    · rename_i ip resolved
      exact ⟨info, found, ip, resolved, by simpa using fresh⟩

end Prune

/-! ## The beacons of a round -/

section Visit

variable {env : Environment ρ} {host : Host} {round : Round} {node : Node}
  {info : LocalInterface} {linfo : ListenerInfo}

theorem Node.visitAddrs_of_silent (silent : info.beacon = false) (addrs : List (Option Bytes)) :
    node.visitAddrs env host round info addrs = node := by
  induction addrs with
  | nil => rfl
  | cons addr addrs ih =>
      cases addr with
      | none => exact ih
      | some ip => simp [Node.visitAddrs, silent, ih]

/-- An interface that has a listener gets its beacon if the listener is due. -/
theorem Node.visitAddrs_of_listening
    (listening : node.listeners.lookup info.iface.name = some linfo)
    (beacons : info.beacon = true) (addrs : List (Option Bytes)) :
    node.visitAddrs env host round info addrs =
      if addrs.any linkLocal = true ∧ round.due info.iface.name linfo = true then
        node.send env host round info linfo
      else
        node := by
  induction addrs with
  | nil => rfl
  | cons addr addrs ih =>
      cases addr with
      | none => simpa [Node.visitAddrs, linkLocal] using ih
      | some ip =>
          have found : node.listenOn host round info ip = (some linfo, node) := by
            simp [Node.listenOn, listening]
          cases near : linkLocal (some ip) with
          | false => simpa [Node.visitAddrs, near] using ih
          | true =>
              cases due : round.due info.iface.name linfo <;>
                simp [Node.visitAddrs, near, beacons, found, due, ih]

/-- A new listener has the password of its interface. -/
theorem password_of_listenLocal (short : info.password.length ≤ 64) {address : Bytes}
    {sintf : String} {before after : Links.Resources} {loop : Links.AcceptLoop}
    (opened : listenLocal host round before (listenUrl address info.toInterfaceInfo) sintf =
      (some loop, after)) : loop.options.password = info.password := by
  unfold listenLocal at opened
  split at opened
  · rename_i served
    obtain ⟨options, parsed, loops⟩ := Links.Resources.acceptLoops_of_listen served
    rw [parseLinkOptions_listenUrl short] at parsed
    cases parsed
    rw [loops, List.getLast?_concat] at opened
    cases opened
    rfl
  · cases opened

/-- What a visit may do.  It concerns the listener of the interface, and if it sends a
beacon, it was for a listener that was there before or has the password of the interface. -/
structure Node.Visited (env : Environment ρ) (host : Host) (round : Round)
    (info : LocalInterface) (node target : Node) : Prop where
  frame : ∀ other, other ≠ info.iface.name →
    target.listeners.lookup other = node.listeners.lookup other
  sent : target.sent = node.sent ∨
    round.written info.iface.name = true ∧ info.beacon = true ∧
      ∃ linfo, target.sent = node.sent ++ [beaconFor env host info linfo] ∧
        (node.listeners.lookup info.iface.name = some linfo ∧
            round.due info.iface.name linfo = true ∨
          linfo.loop.options.password = info.password)

theorem Node.Visited.refl (node : Node) : Node.Visited env host round info node node :=
  ⟨fun _ _ => rfl, .inl rfl⟩

/-- A beacon that is sent after the listener was found or opened. -/
theorem Node.visited_send {middle : Node}
    (frame : ∀ other, other ≠ info.iface.name →
      middle.listeners.lookup other = node.listeners.lookup other)
    (unsent : middle.sent = node.sent) (beacons : info.beacon = true)
    (origin : node.listeners.lookup info.iface.name = some linfo ∧
        round.due info.iface.name linfo = true ∨
      linfo.loop.options.password = info.password) :
    Node.Visited env host round info node (middle.send env host round info linfo) where
  frame other different := (AList.lookup_insert_ne different).trans (frame other different)
  sent := by
    cases written : round.written info.iface.name with
    | false => exact .inl (by simp [Node.send, written, unsent])
    | true => exact .inr ⟨rfl, beacons, linfo, by simp [Node.send, written, unsent], origin⟩

/-- A new listener is due at once. -/
theorem Round.due_new (round : Round) (name : String) (loop : Links.AcceptLoop) :
    round.due name ⟨loop, round.now name, 0⟩ = true := by
  simp [Round.due]

/-- Without a listener there is none after the attempt, or a new one. -/
theorem Node.listenOn_of_absent (short : info.password.length ≤ 64)
    (absent : node.listeners.lookup info.iface.name = none) (ip : Bytes) :
    (∃ resources, node.listenOn host round info ip = (none, { node with resources })) ∨
      ∃ resources loop, loop.options.password = info.password ∧
        node.listenOn host round info ip =
          (some ⟨loop, round.now info.iface.name, 0⟩,
            { node with
              resources
              listeners :=
                node.listeners.insert info.iface.name ⟨loop, round.now info.iface.name, 0⟩ }) := by
  unfold Node.listenOn
  rw [absent]
  dsimp only
  split
  · exact .inl ⟨_, rfl⟩
  · rename_i opened
    exact .inr ⟨_, _, password_of_listenLocal short opened, rfl⟩

theorem Node.visited_visitAddrs (short : info.password.length ≤ 64)
    (addrs : List (Option Bytes)) :
    Node.Visited env host round info node (node.visitAddrs env host round info addrs) := by
  cases beacons : info.beacon with
  | false =>
      rw [Node.visitAddrs_of_silent beacons]
      exact .refl node
  | true =>
      cases listening : node.listeners.lookup info.iface.name with
      | some linfo =>
          rw [Node.visitAddrs_of_listening listening beacons]
          split
          · rename_i announced
            exact Node.visited_send (fun _ _ => rfl) rfl beacons (.inl ⟨listening, announced.2⟩)
          · exact .refl node
      | none =>
          -- addresses are tried until one gives a listener
          induction addrs generalizing node with
          | nil => exact .refl node
          | cons addr addrs ih =>
              cases addr with
              | none => exact ih listening
              | some ip =>
                  rw [Node.visitAddrs]
                  split
                  · exact ih listening
                  · rw [beacons]
                    rcases Node.listenOn_of_absent short listening ip with
                      ⟨resources, failed⟩ | ⟨resources, loop, same, opened⟩
                    · rw [failed]
                      obtain ⟨frame, sent⟩ := @ih { node with resources } listening
                      exact ⟨frame, sent⟩
                    · rw [opened]
                      simp only [Round.due_new]
                      exact Node.visited_send
                        (fun other different => AList.lookup_insert_ne different) rfl beacons
                        (.inr same)

end Visit

section Round

variable {env : Environment ρ} {host : Host} {round : Round} {node : Node} {name : String}
  {beacon : Beacon}

/-- What a visit of an interface may do, if the table has it. -/
theorem Node.visit_cases (env : Environment ρ) (host : Host) (round : Round) (node : Node)
    (name : String) :
    node.visit env host round name = node ∨
      ∃ info, round.updateInterfaces env name = some info ∧ info.iface.name = name ∧
        Node.Visited env host round info node (node.visit env host round name) := by
  cases stored : round.updateInterfaces env name with
  | none => exact .inl (by simp [Node.visit, stored])
  | some info =>
      obtain ⟨⟨named, hashed, -⟩, -⟩ := Round.filled_of_updateInterfaces stored
      refine .inr ⟨info, rfl, named, ?_⟩
      simp only [Node.visit, stored]
      exact Node.visited_visitAddrs hashed.short info.addrs

theorem Node.lookup_visit_of_ne {other : String} (different : other ≠ name) :
    (node.visit env host round name).listeners.lookup other = node.listeners.lookup other := by
  rcases node.visit_cases env host round name with same | ⟨info, -, named, visited⟩
  · rw [same]
  · exact visited.frame other (named ▸ different)

/-- A beacon that a round sends on an interface, in terms of the listeners that it starts
from. -/
def Node.Origin (env : Environment ρ) (host : Host) (round : Round) (node : Node)
    (beacon : Beacon) (name : String) : Prop :=
  ∃ info linfo, round.updateInterfaces env name = some info ∧ info.beacon = true ∧
    round.written name = true ∧ beacon = beaconFor env host info linfo ∧
      (node.listeners.lookup name = some linfo ∧ round.due name linfo = true ∨
        linfo.loop.options.password = info.password)

theorem Node.mem_sent_visit (member : beacon ∈ (node.visit env host round name).sent) :
    beacon ∈ node.sent ∨ node.Origin env host round beacon name := by
  rcases node.visit_cases env host round name with same | ⟨info, stored, rfl, visited⟩
  · exact .inl (same ▸ member)
  · rcases visited.sent with unsent | ⟨written, beacons, linfo, sent, origin⟩
    · exact .inl (unsent ▸ member)
    · rw [sent, List.mem_append, List.mem_singleton] at member
      exact member.imp_right fun same => ⟨info, linfo, stored, beacons, written, same, origin⟩

/-- Every beacon of a round has its origin in the listeners before the round. -/
theorem Node.mem_sent_foldl_visit {order : List String} (once : order.Nodup)
    (member : beacon ∈ (order.foldl (Node.visit env host round) node).sent) :
    beacon ∈ node.sent ∨ ∃ name ∈ order, node.Origin env host round beacon name := by
  induction order generalizing node with
  | nil => exact .inl member
  | cons first order ih =>
      obtain ⟨fresh, once⟩ := List.nodup_cons.mp once
      rcases ih once member with earlier | ⟨name, later, info, linfo, stored, beacons, written,
        same, origin⟩
      · refine (Node.mem_sent_visit earlier).imp_right fun origin => ?_
        exact ⟨first, List.mem_cons_self, origin⟩
      · have different : name ≠ first := fun same => fresh (same ▸ later)
        rw [Node.lookup_visit_of_ne different] at origin
        exact .inr ⟨name, List.mem_cons_of_mem _ later, info, linfo, stored, beacons, written,
          same, origin⟩

/-- Beacons are not taken back. -/
theorem Node.mem_sent_foldl_visit_of_mem (order : List String) (member : beacon ∈ node.sent) :
    beacon ∈ (order.foldl (Node.visit env host round) node).sent := by
  induction order generalizing node with
  | nil => exact member
  | cons first order ih =>
      refine ih ?_
      rcases node.visit_cases env host round first with same | ⟨info, -, -, visited⟩
      · rwa [same]
      · rcases visited.sent with unsent | ⟨-, -, linfo, sent, -⟩
        · rwa [unsent]
        · rw [sent]
          exact List.mem_append_left _ member

/-- A listener that is due gets its beacon. -/
theorem Node.beaconFor_mem_sent {order : List String} {info : LocalInterface}
    {linfo : ListenerInfo} (visited : name ∈ order)
    (stored : round.updateInterfaces env name = some info) (beacons : info.beacon = true)
    (addressed : ∃ addr, addr ∈ info.addrs) (listening : node.listeners.lookup name = some linfo)
    (due : round.due name linfo = true) (written : round.written name = true) :
    beaconFor env host info linfo ∈ (order.foldl (Node.visit env host round) node).sent := by
  obtain ⟨⟨rfl, -, -⟩, near⟩ := Round.filled_of_updateInterfaces stored
  induction order generalizing node with
  | nil => cases visited
  | cons first order ih =>
      by_cases here : first = info.iface.name
      · subst here
        refine Node.mem_sent_foldl_visit_of_mem order ?_
        have any : info.addrs.any linkLocal = true := by
          obtain ⟨addr, member⟩ := addressed
          exact List.any_eq_true.mpr ⟨addr, member, near addr member⟩
        simp only [Node.visit, stored]
        rw [Node.visitAddrs_of_listening listening beacons, if_pos ⟨any, due⟩]
        simp [Node.send, written]
      · have later : info.iface.name ∈ order :=
          (List.mem_cons.mp visited).resolve_left (Ne.symm here)
        refine ih later ?_
        rw [Node.lookup_visit_of_ne (Ne.symm here), listening]

end Round

/-! ## Beacons and listeners -/

/-- The beacon advertises the port of its listener, and every node with another key and
passwords in use that calls on account of it uses the link password that the listener was
created with and pins the key of the sender. -/
def Beacon.Matches (env : Environment ρ) (host : Host) (passwords : Set Bytes)
    (beacon : Beacon) : Prop :=
  (∃ adv, unmarshalBinary beacon.message = some adv ∧
    adv.port = host.port beacon.loop.listener.socket) ∧
    Leads host.lib env.blake2b passwords beacon.message env.publicKey
      beacon.loop.options.password

/-- Every beacon that was sent matches its listener. -/
def Node.Matched (env : Environment ρ) (host : Host) (passwords : Set Bytes) (node : Node) :
    Prop :=
  ∀ beacon ∈ node.sent, beacon.Matches env host passwords

/-- In a round, an interface that beacons for a listener from an earlier round has a rule
with the password that the listener was created with. -/
def Node.Steady (env : Environment ρ) (host : Host) (node : Node) : NodeEvent → Prop
  | .announce round =>
      ∀ name info linfo, round.updateInterfaces env name = some info → info.beacon = true →
        node.listeners.lookup name = some linfo →
          host.stale (round.updateInterfaces env) name linfo = false →
            round.due name linfo = true → round.written name = true →
              info.password = linfo.loop.options.password
  | .links _ => True

/-- Only interfaces with a listener have to be looked at. -/
theorem Node.steady_announce_iff {env : Environment ρ} {host : Host} {node : Node}
    {round : Round} :
    (∀ name ∈ node.listeners.keys, ∀ info ∈ round.updateInterfaces env name,
      ∀ linfo ∈ node.listeners.lookup name, info.beacon = true →
        host.stale (round.updateInterfaces env) name linfo = false →
          round.due name linfo = true → round.written name = true →
            info.password = linfo.loop.options.password) ↔
      node.Steady env host (.announce round) := by
  constructor
  · intro steady name info linfo stored beacons listening
    have known : name ∈ node.listeners.keys := by
      rw [← AList.mem_keys, ← AList.lookup_isSome, listening]
      rfl
    exact steady name known info stored linfo listening beacons
  · intro steady name _ info stored linfo listening beacons
    exact steady name info linfo stored beacons listening

instance (env : Environment ρ) (host : Host) (node : Node) (event : NodeEvent) :
    Decidable (node.Steady env host event) :=
  match event with
  | .announce _ => decidable_of_iff _ Node.steady_announce_iff
  | .links _ => inferInstanceAs (Decidable True)

section Matched

variable {env : Environment ρ} {host : Host} {passwords : Set Bytes}
  {rules : List MulticastInterface} {node : Node}

theorem matches_beaconFor_iff {info : LocalInterface} {linfo : ListenerInfo}
    (free : CollisionFree env.blake2b env.publicKey passwords)
    (made : info.Hashed env.blake2b env.publicKey) (inUse : info.password ∈ passwords) :
    (beaconFor env host info linfo).Matches env host passwords ↔
      info.password = linfo.loop.options.password := by
  have parsed := (@unmarshalBinary_advertisement env.blake2b env.publicKey passwords
    info.toInterfaceInfo (host.port linfo.loop.listener.socket) free made inUse).2
  constructor
  · exact fun fits => (leads_iff free made inUse).mp fits.2
  · exact fun same => ⟨⟨_, parsed, rfl⟩, (leads_iff free made inUse).mpr same⟩

/-- A round keeps the beacons matched exactly if it is steady. -/
theorem Node.matched_announce_iff {round : Round}
    (free : CollisionFree env.blake2b env.publicKey passwords)
    (inUse : ∀ ifcfg ∈ rules, ifcfg.password ∈ passwords)
    (possible : round.Possible env rules) (matched : node.Matched env host passwords) :
    (node.announce env host round).Matched env host passwords ↔
      node.Steady env host (.announce round) := by
  have known {name : String} {info : LocalInterface}
      (stored : round.updateInterfaces env name = some info) : info.password ∈ passwords := by
    obtain ⟨ifcfg, listed, same⟩ := Round.password_of_possible possible stored
    exact same ▸ inUse ifcfg listed
  constructor
  · intro after name info linfo stored beacons listening fresh due written
    obtain ⟨filled, -⟩ := Round.filled_of_updateInterfaces stored
    obtain ⟨found, same, ip, -, member⟩ := Host.address_of_not_stale fresh
    cases stored.symm.trans same
    refine (matches_beaconFor_iff free filled.hashed (known stored)).mp (after _ ?_)
    refine Node.beaconFor_mem_sent (Round.mem_order_of_possible possible stored) stored beacons
      ⟨some ip, member⟩ ?_ due written
    rw [Node.lookup_foldl_prune_keys, listening, Option.filter_some, fresh]
    rfl
  · intro steady beacon member
    rcases Node.mem_sent_foldl_visit possible.2.1 member with earlier | ⟨name, -, info, linfo,
      stored, beacons, written, rfl, origin⟩
    · rw [Node.sent_foldl_prune] at earlier
      exact matched beacon earlier
    · obtain ⟨filled, -⟩ := Round.filled_of_updateInterfaces stored
      rw [matches_beaconFor_iff free filled.hashed (known stored)]
      rcases origin with ⟨listening, due⟩ | new
      · rw [Node.lookup_foldl_prune_keys, Option.filter_eq_some_iff] at listening
        obtain ⟨listening, fresh⟩ := listening
        exact steady name info linfo stored beacons listening (by simpa using fresh) due written
      · exact new.symm

theorem Node.matched_next_iff {target : Node} {event : NodeEvent}
    (free : CollisionFree env.blake2b env.publicKey passwords)
    (inUse : ∀ ifcfg ∈ rules, ifcfg.password ∈ passwords)
    (matched : node.Matched env host passwords)
    (step : Node.next env host rules node event = some target) :
    target.Matched env host passwords ↔ node.Steady env host event := by
  cases event with
  | announce round =>
      simp only [Node.next] at step
      split at step
      · rename_i possible
        cases step
        exact Node.matched_announce_iff free inUse possible matched
      · cases step
  | links event =>
      obtain ⟨resources, -, rfl⟩ := Option.map_eq_some_iff.mp step
      exact iff_of_true matched trivial

end Matched

/-- In a run of rounds, with whatever rules, orders and calls of other listeners, every
beacon matches its listener exactly if no beacon is sent for an earlier listener while the
interface has a rule with another password.  The passwords of the rules and of the nodes
that receive the beacons are in use. -/
theorem beacons_matched_iff (env : Environment ρ) (host : Host) (rules : List MulticastInterface)
    (passwords : Set Bytes) (inUse : ∀ ifcfg ∈ rules, ifcfg.password ∈ passwords)
    (free : CollisionFree env.blake2b env.publicKey passwords) (events : List NodeEvent) :
    Throughout (Node.next env host rules) (Node.Matched env host passwords) Node.start events ↔
      EveryStep (Node.next env host rules) (Node.Steady env host) Node.start events := by
  have unsent : Node.start.Matched env host passwords := by
    intro beacon member
    cases member
  exact throughout_iff_everyStep events trivial unsent (fun _ _ _ => trivial)
    fun _ matched step => Node.matched_next_iff free inUse matched step

/-- Two rules for every interface, with the passwords 1 and 2. -/
def twoRules : List (Rule Unit) :=
  [⟨(), true, true, 0, 0, [1]⟩, ⟨(), true, true, 0, 0, [2]⟩]

/-- A node with the two rules and a hash that appends the public key. -/
def twoRulesEnv : Environment Unit :=
  environment (fun _ _ => true) (fun password publicKey => password ++ publicKey)
    (List.replicate publicKeySize 0) twoRules

/-- The address fe80::1. -/
def loneAddress : Bytes := [0xfe, 0x80] ++ List.replicate 13 0 ++ [1]

/-- Every socket has the address. -/
def loneHost : Host where
  lib := Links.plainLibrary
  joinHostPort _ _ := []
  resolveTCPAddr _ := some loneAddress
  port _ := 9001

/-- A round on one interface with the address. -/
def loneRound (order : List MulticastInterface) (now : Nat) : Round where
  allifaces := [(⟨"eth0", ⟨true, true, true, false⟩⟩, order)]
  interfaceAddrs _ := some [some loneAddress]
  order := ["eth0"]
  bind _ _ _ := .ok ()
  now _ := now
  written _ := true

/-- Two rounds, two seconds apart, that visit the rules in opposite orders. -/
def oppositeRounds : List NodeEvent :=
  [.announce (loneRound (configured twoRules) 0),
    .announce (loneRound (configured twoRules).reverse 2000000000)]

/-- Two rounds, two seconds apart, that visit the rules in the same order. -/
def equalRounds : List NodeEvent :=
  [.announce (loneRound (configured twoRules) 0),
    .announce (loneRound (configured twoRules) 2000000000)]

/-- A node with another key and the password 2. -/
def secondReceiver : Receiver where
  publicKey := List.replicate publicKeySize 1
  blake2b password publicKey := password ++ publicKey
  interfaces _ :=
    some ⟨⟨"eth0", ⟨true, true, true, false⟩⟩, true, true, 0, 0, [2], 2 :: List.replicate 32 1⟩

theorem collisionFree_append (publicKey : Bytes) (passwords : Set Bytes) :
    CollisionFree (fun password publicKey => password ++ publicKey) publicKey passwords where
  injective _ _ _ _ _ _ _ same := List.append_cancel_right same
  fits size _ _ short := by
    simp only [headerLen, bufferSize, List.length_append, publicKeySize] at *
    omega

/-- Two beacons are sent in either run.  They match their listener if the rounds visit the
rules in the same order, and the second does not if the orders are opposite. -/
theorem beacons_matched_rounds :
    let next := Node.next twoRulesEnv loneHost (configured twoRules)
    let Matched := Node.Matched twoRulesEnv loneHost Set.univ
    CollisionFree twoRulesEnv.blake2b twoRulesEnv.publicKey Set.univ ∧
      (∀ events ∈ [equalRounds, oppositeRounds],
        (run next Node.start events).map (fun node => node.sent.length) = some 2) ∧
      Throughout next Matched Node.start equalRounds ∧
      ¬ Throughout next Matched Node.start oppositeRounds := by
  intro next Matched
  have free := collisionFree_append twoRulesEnv.publicKey Set.univ
  have matched (events : List NodeEvent) :=
    beacons_matched_iff twoRulesEnv loneHost (configured twoRules) Set.univ
      (fun _ _ => Set.mem_univ _) free events
  refine ⟨free, ?_, (matched equalRounds).mpr ?_, (matched oppositeRounds).not.mpr ?_⟩
  · decide +kernel
  · decide +kernel
  · decide +kernel

/-- The listener keeps the password 1.  The second beacon has the hash of the password 2, and
the other node calls with that. -/
theorem reordered_rules_mismatch :
    (run (Node.next twoRulesEnv loneHost (configured twoRules)) Node.start oppositeRounds).map
        (fun node => node.sent.map fun beacon =>
          (beacon.loop.options.password,
            (secondReceiver.listen true "eth0" (fun _ => []) beacon.message).bind fun u =>
              (Links.plainLibrary.dialOptions u).toOption.map (·.password))) =
      some [([1], none), ([1], some [2])] := by
  decide +kernel

end Uqda.Multicast
