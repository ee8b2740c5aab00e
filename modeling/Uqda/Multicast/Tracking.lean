import Uqda.Multicast.Announce

/-!
# Listeners and interfaces

The rounds of announcements with the history of their listeners: every call of `ListenLocal`
that succeeded, with the interface and the address it was for, and every socket that was
bound in a round.  The history is only written, so that the node goes through the same
states as without it.

Interfaces and addresses come and go from round to round.  After each round an entry of
`_listeners` belongs to an interface that is there and to an address it has, and what was
opened before and is not in the table any more has been cancelled.
-/

namespace Uqda.Multicast

open Uqda.Addressing Uqda.Transition

variable {ρ : Type}

/-! ## The history of a node -/

/-- A call of `ListenLocal` that succeeded: the interface, the address that was asked for
and the accept loop of the listener. -/
structure Opening where
  name : String
  ip : Bytes
  loop : Links.AcceptLoop

/-- A node with the field `_interfaces`, its openings and the sockets bound in its rounds. -/
structure Tracked where
  node : Node
  interfaces : String → Option LocalInterface
  openings : List Opening
  bound : List Nat

/-- A node before its first round. -/
def Tracked.start : Tracked :=
  ⟨Node.start, fun _ => none, [], []⟩

/-- The listener of an interface.  It is an opening if the interface had none. -/
def Tracked.listenOn (host : Host) (round : Round) (tracked : Tracked) (info : LocalInterface)
    (ip : Bytes) : Option ListenerInfo × Tracked :=
  match tracked.node.listenOn host round info ip with
  | (none, node) => (none, { tracked with node })
  | (some linfo, node) =>
      (some linfo,
        { tracked with
          node
          openings :=
            if (tracked.node.listeners.lookup info.iface.name).isSome then tracked.openings
            else tracked.openings ++ [⟨info.iface.name, ip, linfo.loop⟩] })

/-- The loop over the addresses of an interface. -/
def Tracked.visitAddrs (env : Environment ρ) (host : Host) (round : Round)
    (info : LocalInterface) : Tracked → List (Option Bytes) → Tracked
  | tracked, [] => tracked
  | tracked, none :: addrs => tracked.visitAddrs env host round info addrs
  | tracked, some ip :: addrs =>
      if !linkLocal (some ip) then
        tracked.visitAddrs env host round info addrs
      else if !info.beacon then
        tracked
      else
        match tracked.listenOn host round info ip with
        | (none, tracked) => tracked.visitAddrs env host round info addrs
        | (some linfo, tracked) =>
            if !round.due info.iface.name linfo then
              tracked.visitAddrs env host round info addrs
            else
              { tracked with node := tracked.node.send env host round info linfo }

/-- One iteration of the loop over `_interfaces`. -/
def Tracked.visit (env : Environment ρ) (host : Host) (round : Round) (tracked : Tracked)
    (name : String) : Tracked :=
  match round.updateInterfaces env name with
  | none => tracked
  | some info => tracked.visitAddrs env host round info info.addrs

/-- The round up to the loop over `_interfaces`. -/
def Tracked.pruned (env : Environment ρ) (host : Host) (round : Round) (tracked : Tracked) :
    Tracked :=
  { tracked with
    node :=
      tracked.node.listeners.keys.foldl (Node.prune host (round.updateInterfaces env))
        tracked.node
    interfaces := round.updateInterfaces env }

/-- `_announce` up to its timer. -/
def Tracked.announce (env : Environment ρ) (host : Host) (round : Round) (tracked : Tracked) :
    Tracked :=
  let visited := round.order.foldl (Tracked.visit env host round) (tracked.pruned env host round)
  let before := tracked.node.resources.sockets.length
  { visited with
    bound :=
      tracked.bound ++ List.range' before (visited.node.resources.sockets.length - before) }

/-- One event, as `Node.next` has it. -/
def Tracked.next (env : Environment ρ) (host : Host) (rules : List MulticastInterface) :
    Step Tracked NodeEvent
  | tracked, .announce round =>
      if round.Possible env rules then some (tracked.announce env host round) else none
  | tracked, .links event =>
      (tracked.node.resources.next host.lib event).map fun resources =>
        { tracked with node := { tracked.node with resources } }

/-! ## The node without its history -/

section Erasure

variable {env : Environment ρ} {host : Host} {round : Round}

theorem Tracked.node_visitAddrs (tracked : Tracked) (info : LocalInterface)
    (addrs : List (Option Bytes)) :
    (tracked.visitAddrs env host round info addrs).node =
      tracked.node.visitAddrs env host round info addrs := by
  induction addrs generalizing tracked with
  | nil => rfl
  | cons addr addrs ih =>
      cases addr with
      | none => exact ih tracked
      | some ip =>
          rw [Tracked.visitAddrs, Node.visitAddrs]
          split
          · exact ih tracked
          · split
            · rfl
            · rw [Tracked.listenOn]
              rcases tracked.node.listenOn host round info ip with ⟨_ | linfo, node⟩
              · exact ih _
              · dsimp only
                split
                · exact ih _
                · rfl

theorem Tracked.node_foldl_visit (tracked : Tracked) (order : List String) :
    (order.foldl (Tracked.visit env host round) tracked).node =
      order.foldl (Node.visit env host round) tracked.node := by
  induction order generalizing tracked with
  | nil => rfl
  | cons name order ih =>
      rw [List.foldl_cons, List.foldl_cons, ih]
      congr 1
      unfold Tracked.visit Node.visit
      cases round.updateInterfaces env name with
      | none => rfl
      | some info => exact tracked.node_visitAddrs info info.addrs

/-- The history does not change what a node does. -/
theorem Tracked.map_node_next (rules : List MulticastInterface) (tracked : Tracked)
    (event : NodeEvent) :
    (Tracked.next env host rules tracked event).map Tracked.node =
      Node.next env host rules tracked.node event := by
  cases event with
  | announce round =>
      simp only [Tracked.next, Node.next]
      split
      · exact congrArg some (Tracked.node_foldl_visit _ _)
      · rfl
  | links event =>
      simp only [Tracked.next, Node.next, Option.map_map]
      rfl

end Erasure

/-! ## What a visit does -/

/-- The accept loop of the listener of an interface. -/
def Node.loopAt (node : Node) (name : String) : Option Links.AcceptLoop :=
  (node.listeners.lookup name).map ListenerInfo.loop

/-- A visit that opens no listener.  No socket is bound. -/
structure Tracked.Kept (tracked target : Tracked) : Prop where
  later : tracked.node.resources.Later target.node.resources
  sockets : target.node.resources.sockets.length = tracked.node.resources.sockets.length
  loops : ∀ name, target.node.loopAt name = tracked.node.loopAt name
  openings : target.openings = tracked.openings
  interfaces : target.interfaces = tracked.interfaces

/-- A visit that opens a listener.  It has a new context and the one socket that is bound. -/
structure Tracked.Opened (tracked target : Tracked) (opening : Opening) : Prop where
  later : tracked.node.resources.Later target.node.resources
  context : opening.loop.listener.ctx < target.node.resources.contexts.length
  socket : opening.loop.listener.socket = tracked.node.resources.sockets.length
  sockets : target.node.resources.sockets.length = tracked.node.resources.sockets.length + 1
  absent : tracked.node.loopAt opening.name = none
  loops : ∀ name, target.node.loopAt name =
    if name = opening.name then some opening.loop else tracked.node.loopAt name
  openings : target.openings = tracked.openings ++ [opening]
  interfaces : target.interfaces = tracked.interfaces

theorem Tracked.Kept.refl (tracked : Tracked) : tracked.Kept tracked :=
  ⟨.refl _, rfl, fun _ => rfl, rfl, rfl⟩

theorem Tracked.Kept.trans {tracked middle target : Tracked} (first : tracked.Kept middle)
    (second : middle.Kept target) : tracked.Kept target where
  later := first.later.trans second.later
  sockets := second.sockets.trans first.sockets
  loops name := (second.loops name).trans (first.loops name)
  openings := second.openings.trans first.openings
  interfaces := second.interfaces.trans first.interfaces

/-- A failed attempt before the one that opens. -/
theorem Tracked.Opened.of_kept {tracked middle target : Tracked} {opening : Opening}
    (first : tracked.Kept middle) (second : middle.Opened target opening) :
    tracked.Opened target opening where
  later := first.later.trans second.later
  context := second.context
  socket := second.socket.trans first.sockets
  sockets := second.sockets.trans (congrArg (· + 1) first.sockets)
  absent := (first.loops opening.name).symm.trans second.absent
  loops name := by rw [second.loops, first.loops]
  openings := second.openings.trans (congrArg (· ++ [opening]) first.openings)
  interfaces := second.interfaces.trans first.interfaces

section Visit

variable {env : Environment ρ} {host : Host} {round : Round} {tracked : Tracked}
  {info : LocalInterface}

/-- How `ListenLocal` ends on the URI of an interface.  Its options are valid, so that a call
that fails leaves no socket. -/
theorem listenLocal_cases (host : Host) (round : Round) (short : info.password.length ≤ 64)
    (address : Bytes) (sintf : String) (resources : Links.Resources) :
    (∃ after, listenLocal host round resources (listenUrl address info.toInterfaceInfo) sintf =
        (none, after) ∧ resources.Later after ∧ after.sockets = resources.sockets) ∨
      ∃ loop after, listenLocal host round resources (listenUrl address info.toInterfaceInfo)
          sintf = (some loop, after) ∧ resources.Later after ∧
        loop.listener = ⟨resources.contexts.length, resources.sockets.length⟩ ∧
          after.contexts.length = resources.contexts.length + 1 ∧
            after.sockets.length = resources.sockets.length + 1 := by
  have clean : Links.Clean host.lib round.bind (listenUrl address info.toInterfaceInfo) sintf := by
    unfold Links.Clean
    split
    · trivial
    · exact .inr ⟨_, parseLinkOptions_listenUrl short⟩
  unfold listenLocal
  rcases resources.listen_cases host.lib round.bind (listenUrl address info.toInterfaceInfo)
    sintf true with ⟨⟨err, ended⟩, -⟩ | ⟨-, unclean⟩ | ⟨⟨options, ended⟩, -⟩
  · rw [ended]
    exact .inl ⟨_, rfl, Links.Resources.later_of_append rfl (List.append_nil _).symm, rfl⟩
  · exact absurd clean unclean
  · rw [ended]
    refine .inr ⟨_, _, Prod.ext List.getLast?_concat rfl,
      Links.Resources.later_of_append rfl rfl, rfl, ?_, ?_⟩
    · simp [Links.Resources.openSocket, Links.Resources.serve, Links.Resources.withCancel]
    · simp [Links.Resources.openSocket, Links.Resources.serve, Links.Resources.withCancel]

/-- A beacon changes nothing about the listener that it is sent for. -/
theorem Node.loopAt_send {node : Node} {linfo : ListenerInfo}
    (listening : node.listeners.lookup info.iface.name = some linfo) (name : String) :
    (node.send env host round info linfo).loopAt name = node.loopAt name := by
  unfold Node.loopAt Node.send
  by_cases same : name = info.iface.name
  · subst same
    rw [AList.lookup_insert, listening]
    rfl
  · rw [AList.lookup_insert_ne same]

/-- The interface has no listener: none is opened, or one for the address. -/
theorem Tracked.listenOn_of_absent (host : Host) (round : Round)
    (short : info.password.length ≤ 64)
    (absent : tracked.node.listeners.lookup info.iface.name = none) (ip : Bytes) :
    (∃ target, tracked.listenOn host round info ip = (none, target) ∧ tracked.Kept target) ∨
      ∃ target linfo, tracked.listenOn host round info ip = (some linfo, target) ∧
        target.node.listeners.lookup info.iface.name = some linfo ∧
          round.due info.iface.name linfo = true ∧
            tracked.Opened target ⟨info.iface.name, ip, linfo.loop⟩ := by
  unfold Tracked.listenOn
  rcases listenLocal_cases host round short (host.joinHostPort ip info.port) info.iface.name
    tracked.node.resources with
      ⟨after, failed, later, sockets⟩ | ⟨loop, after, opened, later, listener, contexts, sockets⟩
  · have left : tracked.node.listenOn host round info ip =
        (none, { tracked.node with resources := after }) := by
      simp [Node.listenOn, absent, failed]
    rw [left]
    exact .inl ⟨_, rfl, later, congrArg List.length sockets, fun _ => rfl, rfl, rfl⟩
  · let linfo : ListenerInfo := ⟨loop, round.now info.iface.name, 0⟩
    have stored : tracked.node.listenOn host round info ip =
        (some linfo,
          { tracked.node with
            resources := after
            listeners := tracked.node.listeners.insert info.iface.name linfo }) := by
      simp [Node.listenOn, absent, opened, linfo]
    rw [stored, absent]
    refine .inr ⟨_, linfo, rfl, AList.lookup_insert _, Round.due_new round _ loop, ?_⟩
    refine ⟨later, ?_, congrArg Links.Listener.socket listener, sockets, ?_, fun name => ?_, rfl,
      rfl⟩
    · change loop.listener.ctx < after.contexts.length
      rw [listener, contexts]
      exact Nat.lt_succ_self _
    · simp [Node.loopAt, absent]
    · by_cases same : name = info.iface.name
      · subst same
        simp [Node.loopAt]
      · simp [Node.loopAt, same]

/-- A visit of an interface opens no listener or one, for an address of the interface. -/
theorem Tracked.visitAddrs_cases (env : Environment ρ) (host : Host) (round : Round)
    (short : info.password.length ≤ 64) (addrs : List (Option Bytes)) :
    tracked.Kept (tracked.visitAddrs env host round info addrs) ∨
      ∃ ip loop, some ip ∈ addrs ∧
        tracked.Opened (tracked.visitAddrs env host round info addrs)
          ⟨info.iface.name, ip, loop⟩ := by
  induction addrs generalizing tracked with
  | nil => exact .inl (.refl tracked)
  | cons addr addrs ih =>
      -- what the rest of the loop does counts as done by the whole
      have rest : ∀ middle : Tracked, tracked.Kept middle →
          tracked.Kept (middle.visitAddrs env host round info addrs) ∨
            ∃ ip loop, some ip ∈ addr :: addrs ∧
              tracked.Opened (middle.visitAddrs env host round info addrs)
                ⟨info.iface.name, ip, loop⟩ := by
        intro middle kept
        rcases @ih middle with later | ⟨ip, loop, member, opened⟩
        · exact .inl (kept.trans later)
        · exact .inr ⟨ip, loop, List.mem_cons_of_mem _ member, .of_kept kept opened⟩
      cases addr with
      | none => exact rest tracked (.refl tracked)
      | some ip =>
          rw [Tracked.visitAddrs]
          split
          · exact rest tracked (.refl tracked)
          · split
            · exact .inl (.refl tracked)
            · cases listening : tracked.node.listeners.lookup info.iface.name with
              | some linfo =>
                  have found : tracked.listenOn host round info ip = (some linfo, tracked) := by
                    simp [Tracked.listenOn, Node.listenOn, listening]
                  rw [found]
                  dsimp only
                  split
                  · exact rest tracked (.refl tracked)
                  · exact .inl ⟨.refl _, rfl, Node.loopAt_send listening, rfl, rfl⟩
              | none =>
                  rcases Tracked.listenOn_of_absent host round short listening ip with
                      ⟨middle, failed, kept⟩ | ⟨middle, linfo, started, stored, due, opened⟩
                  · rw [failed]
                    exact rest middle kept
                  · rw [started]
                    simp only [due]
                    refine .inr ⟨ip, linfo.loop, List.mem_cons_self, ?_⟩
                    obtain ⟨later, context, socket, sockets, absent, loops, openings,
                      interfaces⟩ := opened
                    exact ⟨later, context, socket, sockets, absent,
                      fun name => (Node.loopAt_send stored name).trans (loops name), openings,
                      interfaces⟩

/-- All that an iteration of the loop over `_interfaces` can do. -/
theorem Tracked.visit_cases (env : Environment ρ) (host : Host) (round : Round)
    (tracked : Tracked) (name : String) :
    tracked.Kept (tracked.visit env host round name) ∨
      ∃ info opening, round.updateInterfaces env opening.name = some info ∧
        some opening.ip ∈ info.addrs ∧
          tracked.Opened (tracked.visit env host round name) opening := by
  unfold Tracked.visit
  cases stored : round.updateInterfaces env name with
  | none => exact .inl (.refl tracked)
  | some info =>
      obtain ⟨⟨rfl, hashed, -⟩, -⟩ := Round.filled_of_updateInterfaces stored
      rcases tracked.visitAddrs_cases env host round hashed.short info.addrs with
        kept | ⟨ip, loop, asked, opened⟩
      · exact .inl kept
      · exact .inr ⟨info, _, stored, asked, opened⟩

/-- Openings are never forgotten. -/
theorem Tracked.openings_subset_foldl_visit (env : Environment ρ) (host : Host) (round : Round)
    (tracked : Tracked) (order : List String) :
    tracked.openings ⊆ (order.foldl (Tracked.visit env host round) tracked).openings := by
  induction order generalizing tracked with
  | nil => exact List.Subset.refl _
  | cons name order ih =>
      refine List.Subset.trans ?_ (ih (tracked.visit env host round name))
      rcases tracked.visit_cases env host round name with kept | ⟨info, opening, -, -, opened⟩
      · rw [kept.openings]
        exact List.Subset.refl _
      · rw [opened.openings]
        exact List.subset_append_left _ _

end Visit

/-! ## Every opening is accounted for -/

/-- The openings have contexts and sockets that exist, no two of them share a socket, and
each of them is in the table or was cancelled. -/
structure Tracked.Accounted (tracked : Tracked) : Prop where
  exist : ∀ opening ∈ tracked.openings,
    opening.loop.listener.ctx < tracked.node.resources.contexts.length ∧
      opening.loop.listener.socket < tracked.node.resources.sockets.length
  distinct : tracked.openings.Pairwise fun first second =>
    first.loop.listener.socket ≠ second.loop.listener.socket
  closed : ∀ opening ∈ tracked.openings, tracked.node.loopAt opening.name = some opening.loop ∨
    tracked.node.resources.Cancelled opening.loop.listener

/-- The listeners of an interface that were opened and not cancelled. -/
def Tracked.openAt (tracked : Tracked) (name : String) : List Opening :=
  tracked.openings.filter fun opening =>
    opening.name = name ∧ ¬tracked.node.resources.Cancelled opening.loop.listener

section Accounted

variable {tracked target : Tracked}

/-- Contexts and sockets of openings do not go away. -/
theorem Tracked.Accounted.exist_later (accounted : tracked.Accounted)
    {resources : Links.Resources} (later : tracked.node.resources.Later resources)
    {opening : Opening} (member : opening ∈ tracked.openings) :
    opening.loop.listener.ctx < resources.contexts.length ∧
      opening.loop.listener.socket < resources.sockets.length := by
  obtain ⟨context, socket⟩ := accounted.exist opening member
  exact ⟨context.trans_le later.contexts, socket.trans_le later.sockets⟩

/-- Steps that leave the table and the openings alone. -/
theorem Tracked.Accounted.of_later (accounted : tracked.Accounted)
    (later : tracked.node.resources.Later target.node.resources)
    (loops : ∀ name, target.node.loopAt name = tracked.node.loopAt name)
    (openings : target.openings = tracked.openings) : target.Accounted where
  exist opening member := accounted.exist_later later (openings ▸ member)
  distinct := openings ▸ accounted.distinct
  closed opening member := by
    rw [loops]
    exact (accounted.closed opening (openings ▸ member)).imp_right (later.cancelled _)

theorem Tracked.Accounted.of_opened {opening : Opening} (accounted : tracked.Accounted)
    (opened : tracked.Opened target opening) : target.Accounted where
  exist other member := by
    rw [opened.openings, List.mem_append, List.mem_singleton] at member
    rcases member with old | rfl
    · exact accounted.exist_later opened.later old
    · refine ⟨opened.context, ?_⟩
      rw [opened.socket, opened.sockets]
      exact Nat.lt_succ_self _
  distinct := by
    rw [opened.openings, List.pairwise_append]
    refine ⟨accounted.distinct, List.pairwise_singleton _ _, fun other old new member => ?_⟩
    cases List.mem_singleton.mp member
    rw [opened.socket]
    exact (accounted.exist other old).2.ne
  closed other member := by
    rw [opened.openings, List.mem_append, List.mem_singleton] at member
    rw [opened.loops]
    rcases member with old | rfl
    · rcases accounted.closed other old with listed | cancelled
      · -- the interface of the opening had no listener
        have different : other.name ≠ opening.name := by
          intro same
          rw [same, opened.absent] at listed
          cases listed
        rw [if_neg different]
        exact .inl listed
      · exact .inr (opened.later.cancelled _ cancelled)
    · exact .inl (if_pos rfl)

/-- A listener that is taken out of the table has been cancelled. -/
theorem Tracked.Accounted.prune (accounted : tracked.Accounted) (host : Host)
    (interfaces : String → Option LocalInterface) (name : String) :
    Tracked.Accounted { tracked with node := tracked.node.prune host interfaces name } := by
  unfold Node.prune
  cases listening : tracked.node.listeners.lookup name with
  | none => exact accounted
  | some linfo =>
      dsimp only
      split
      · have later := tracked.node.resources.later_cancel linfo.loop.listener
        refine ⟨fun opening member => accounted.exist_later later member, accounted.distinct,
          fun opening member => ?_⟩
        rcases accounted.closed opening member with listed | cancelled
        · by_cases same : opening.name = name
          · obtain ⟨context, socket⟩ := accounted.exist opening member
            rw [same, Node.loopAt, listening, Option.map_some, Option.some.injEq] at listed
            rw [← listed] at context socket ⊢
            exact .inr (Links.Resources.cancelled_cancel context socket)
          · refine .inl ?_
            simp only [Node.loopAt, AList.lookup_erase_ne same]
            exact listed
        · exact .inr (later.cancelled _ cancelled)
      · exact accounted

theorem Tracked.Accounted.foldl_prune (accounted : tracked.Accounted) (host : Host)
    (interfaces : String → Option LocalInterface) (names : List String) :
    Tracked.Accounted
      { tracked with node := names.foldl (Node.prune host interfaces) tracked.node } := by
  induction names generalizing tracked with
  | nil => exact accounted
  | cons name names ih => exact ih (accounted.prune host interfaces name)

/-- An interface has no more than one open listener. -/
theorem Tracked.Accounted.length_openAt_le_one (accounted : tracked.Accounted) (name : String) :
    (tracked.openAt name).length ≤ 1 := by
  have pairwise : (tracked.openAt name).Pairwise fun first second =>
      first.loop.listener.socket ≠ second.loop.listener.socket :=
    accounted.distinct.sublist List.filter_sublist
  have listed : ∀ opening ∈ tracked.openAt name,
      tracked.node.loopAt name = some opening.loop := by
    intro opening inside
    obtain ⟨member, live⟩ := List.mem_filter.mp inside
    obtain ⟨same, live⟩ := of_decide_eq_true live
    exact same ▸ (accounted.closed opening member).resolve_right live
  -- two of them would have the loop of the table, and with it the same socket
  rcases shape : tracked.openAt name with _ | ⟨first, _ | ⟨second, rest⟩⟩
  · exact Nat.zero_le _
  · exact Nat.le_refl _
  · rw [shape] at pairwise listed
    have one := listed first List.mem_cons_self
    have two := listed second (List.mem_cons_of_mem _ List.mem_cons_self)
    have same : first.loop = second.loop := Option.some.inj (one.symm.trans two)
    have different := (List.pairwise_cons.mp pairwise).1 second List.mem_cons_self
    exact absurd (congrArg (fun loop => loop.listener.socket) same) different

end Accounted

/-! ## Listeners on the addresses of their interfaces -/

/-- Every entry of the table belongs to an interface.  Its listener has an address of the
interface, or it was asked to have one. -/
def Tracked.Placed (host : Host) (tracked : Tracked) : Prop :=
  ∀ name loop, tracked.node.loopAt name = some loop →
    ∃ info, tracked.interfaces name = some info ∧
      ((∃ ip, host.resolveTCPAddr loop.listener.socket = some ip ∧ some ip ∈ info.addrs) ∨
        ∃ opening ∈ tracked.openings, opening.loop = loop ∧ some opening.ip ∈ info.addrs)

/-- From some socket on, every socket that was bound is the one of an opening. -/
def Tracked.BoundFrom (first : Nat) (tracked : Tracked) : Prop :=
  ∀ socket, first ≤ socket → socket < tracked.node.resources.sockets.length →
    ∃ opening ∈ tracked.openings, opening.loop.listener.socket = socket

section Placed

variable {host : Host} {tracked target : Tracked} {first : Nat}

theorem Tracked.Placed.of_kept (placed : tracked.Placed host) (kept : tracked.Kept target) :
    target.Placed host := by
  intro name loop listed
  rw [kept.loops] at listed
  rw [kept.interfaces, kept.openings]
  exact placed name loop listed

theorem Tracked.Placed.of_opened {info : LocalInterface} {opening : Opening}
    (placed : tracked.Placed host) (opened : tracked.Opened target opening)
    (stored : tracked.interfaces opening.name = some info)
    (asked : some opening.ip ∈ info.addrs) : target.Placed host := by
  intro name loop listed
  rw [opened.loops] at listed
  rw [opened.interfaces, opened.openings]
  split_ifs at listed with here
  · subst here
    cases listed
    exact ⟨info, stored, .inr ⟨opening, by simp, rfl, asked⟩⟩
  · obtain ⟨info, stored, address⟩ := placed name loop listed
    refine ⟨info, stored, address.imp_right ?_⟩
    rintro ⟨other, member, same, inside⟩
    exact ⟨other, List.mem_append_left _ member, same, inside⟩

theorem Tracked.BoundFrom.of_kept (recorded : tracked.BoundFrom first)
    (kept : tracked.Kept target) : target.BoundFrom first := by
  intro socket after before
  rw [kept.sockets] at before
  rw [kept.openings]
  exact recorded socket after before

theorem Tracked.BoundFrom.of_opened {opening : Opening} (recorded : tracked.BoundFrom first)
    (opened : tracked.Opened target opening) : target.BoundFrom first := by
  intro socket after before
  rw [opened.sockets] at before
  rw [opened.openings]
  by_cases newest : socket = tracked.node.resources.sockets.length
  · exact ⟨opening, by simp, opened.socket.trans newest.symm⟩
  · obtain ⟨other, member, same⟩ := recorded socket after (by omega)
    exact ⟨other, List.mem_append_left _ member, same⟩

end Placed

/-! ## A round -/

section Round

variable {env : Environment ρ} {host : Host} {round : Round} {tracked : Tracked} {first : Nat}

/-- What the visits of a round keep up. -/
structure Tracked.Visiting (env : Environment ρ) (host : Host) (round : Round) (first : Nat)
    (tracked : Tracked) : Prop where
  interfaces : tracked.interfaces = round.updateInterfaces env
  accounted : tracked.Accounted
  placed : tracked.Placed host
  recorded : tracked.BoundFrom first

theorem Tracked.Visiting.visit (visiting : tracked.Visiting env host round first)
    (name : String) : (tracked.visit env host round name).Visiting env host round first := by
  obtain ⟨interfaces, accounted, placed, recorded⟩ := visiting
  rcases tracked.visit_cases env host round name with
    kept | ⟨info, opening, stored, asked, opened⟩
  · exact ⟨kept.interfaces.trans interfaces,
      accounted.of_later kept.later kept.loops kept.openings, placed.of_kept kept,
      recorded.of_kept kept⟩
  · exact ⟨opened.interfaces.trans interfaces, accounted.of_opened opened,
      placed.of_opened opened (interfaces ▸ stored) asked, recorded.of_opened opened⟩

theorem Tracked.Visiting.foldl_visit (visiting : tracked.Visiting env host round first)
    (order : List String) :
    (order.foldl (Tracked.visit env host round) tracked).Visiting env host round first := by
  induction order generalizing tracked with
  | nil => exact visiting
  | cons name order ih => exact ih (visiting.visit name)

/-- No socket is bound in the loop over `_listeners`. -/
theorem Node.length_sockets_foldl_prune {node : Node}
    {interfaces : String → Option LocalInterface} (names : List String) :
    (names.foldl (Node.prune host interfaces) node).resources.sockets.length =
      node.resources.sockets.length := by
  induction names generalizing node with
  | nil => rfl
  | cons name names ih =>
      rw [List.foldl_cons, ih, Node.prune]
      split
      · rfl
      · split
        · simp [Links.Resources.cancel]
        · rfl

/-- What the loop over `_listeners` leaves has an address of its interface. -/
theorem Tracked.placed_pruned (env : Environment ρ) (host : Host) (round : Round)
    (tracked : Tracked) : (tracked.pruned env host round).Placed host := by
  intro name loop listed
  simp only [Tracked.pruned, Node.loopAt, Node.lookup_foldl_prune_keys, Option.map_eq_some_iff,
    Option.filter_eq_some_iff] at listed
  obtain ⟨linfo, ⟨-, fresh⟩, rfl⟩ := listed
  obtain ⟨info, stored, ip, resolved, inside⟩ := Host.address_of_not_stale (by simpa using fresh)
  exact ⟨info, stored, .inl ⟨ip, resolved, inside⟩⟩

theorem Tracked.Accounted.visiting_pruned (accounted : tracked.Accounted) (env : Environment ρ)
    (host : Host) (round : Round) :
    (tracked.pruned env host round).Visiting env host round
      tracked.node.resources.sockets.length where
  interfaces := rfl
  accounted := by
    obtain ⟨exist, distinct, closed⟩ :=
      accounted.foldl_prune host (round.updateInterfaces env) tracked.node.listeners.keys
    exact ⟨exist, distinct, closed⟩
  placed := tracked.placed_pruned env host round
  recorded socket after before := by
    simp only [Tracked.pruned, Node.length_sockets_foldl_prune] at before
    omega

/-- What holds of a node after every event. -/
structure Tracked.Consistent (host : Host) (tracked : Tracked) : Prop where
  accounted : tracked.Accounted
  placed : tracked.Placed host
  recorded : ∀ socket ∈ tracked.bound,
    ∃ opening ∈ tracked.openings, opening.loop.listener.socket = socket

theorem Tracked.Consistent.announce (consistent : tracked.Consistent host)
    (env : Environment ρ) (round : Round) : (tracked.announce env host round).Consistent host := by
  obtain ⟨-, accounted, placed, recorded⟩ :=
    (consistent.accounted.visiting_pruned env host round).foldl_visit round.order
  refine ⟨⟨accounted.exist, accounted.distinct, accounted.closed⟩, placed, fun socket member => ?_⟩
  rcases List.mem_append.mp member with earlier | now
  · obtain ⟨opening, member, same⟩ := consistent.recorded socket earlier
    have visited := Tracked.openings_subset_foldl_visit env host round
      (tracked.pruned env host round) round.order
    exact ⟨opening, visited member, same⟩
  · obtain ⟨after, before⟩ := List.mem_range'_1.mp now
    exact recorded socket after (by omega)

theorem Tracked.Consistent.next {rules : List MulticastInterface} {target : Tracked}
    {event : NodeEvent} (consistent : tracked.Consistent host)
    (step : Tracked.next env host rules tracked event = some target) : target.Consistent host := by
  cases event with
  | announce round =>
      obtain ⟨-, stepped⟩ := Option.ite_none_right_eq_some.mp step
      cases stepped
      exact consistent.announce env round
  | links event =>
      obtain ⟨resources, served, rfl⟩ := Option.map_eq_some_iff.mp step
      exact ⟨consistent.accounted.of_later (Links.Resources.later_next served) (fun _ => rfl) rfl,
        consistent.placed, consistent.recorded⟩

end Round

/-! ## Runs -/

/-- `_listeners` follows `_interfaces`: an entry is named after an interface and bound to an
address that the interface has; an interface has no more than one open listener; and what
was opened in a round is in the table or was cancelled. -/
structure Tracked.Follows (host : Host) (tracked : Tracked) : Prop where
  bound : ∀ name linfo, tracked.node.listeners.lookup name = some linfo →
    ∃ info, tracked.interfaces name = some info ∧
      ∃ ip, host.resolveTCPAddr linfo.loop.listener.socket = some ip ∧ some ip ∈ info.addrs
  single : ∀ name, (tracked.openAt name).length ≤ 1
  cancelled : ∀ opening ∈ tracked.openings,
    (∃ linfo, tracked.node.listeners.lookup opening.name = some linfo ∧
      linfo.loop = opening.loop) ∨ tracked.node.resources.Cancelled opening.loop.listener
  recorded : ∀ socket ∈ tracked.bound,
    ∃ opening ∈ tracked.openings, opening.loop.listener.socket = socket

/-- In every run of rounds, with interfaces and addresses that come and go, calls of
`ListenLocal` that succeed or fail and other listeners that open and close, the listeners
follow the interfaces, as long as a listener is bound to the address that was asked for. -/
theorem listeners_follow_interfaces (env : Environment ρ) (host : Host)
    (rules : List MulticastInterface) (events : List NodeEvent) (tracked : Tracked)
    (reached : run (Tracked.next env host rules) Tracked.start events = some tracked)
    (asked : ∀ opening ∈ tracked.openings,
      host.resolveTCPAddr opening.loop.listener.socket = some opening.ip) :
    tracked.Follows host := by
  have initially : Tracked.start.Consistent host :=
    ⟨⟨nofun, .nil, nofun⟩, nofun, nofun⟩
  obtain ⟨accounted, placed, recorded⟩ :=
    invariant_of_run reached initially fun consistent step => consistent.next step
  refine ⟨fun name linfo listed => ?_, accounted.length_openAt_le_one, fun opening member => ?_,
    recorded⟩
  · obtain ⟨info, stored, resolved | ⟨opening, member, same, inside⟩⟩ :=
      placed name linfo.loop (congrArg (Option.map ListenerInfo.loop) listed)
    · exact ⟨info, stored, resolved⟩
    · exact ⟨info, stored, opening.ip, same ▸ asked opening member, inside⟩
  · exact (accounted.closed opening member).imp_left Option.map_eq_some_iff.mp

/-- The address fe80::2. -/
def movedAddress : Bytes := [0xfe, 0x80] ++ List.replicate 13 0 ++ [2]

/-- A host on which the first socket is bound to the one address and the second to the
other. -/
def movingHost : Host :=
  { loneHost with resolveTCPAddr := fun socket => [loneAddress, movedAddress][socket]? }

/-- Three rounds: the interface has the one address, then the other, and then it is gone. -/
def movingRounds : List NodeEvent :=
  [.announce (loneRound (configured twoRules) 0),
    .announce
      { loneRound (configured twoRules) 1000000000 with
        interfaceAddrs := fun _ => some [some movedAddress] },
    .announce
      { loneRound (configured twoRules) 2000000000 with
        interfaceAddrs := fun _ => none
        order := [] }]

/-- Two listeners are opened on the way, each on the address that the interface has. -/
theorem listeners_follow_moving_interface :
    ∃ tracked, run (Tracked.next twoRulesEnv movingHost (configured twoRules)) Tracked.start
        movingRounds = some tracked ∧
      tracked.openings.map Opening.ip = [loneAddress, movedAddress] ∧
        tracked.Follows movingHost := by
  have sockets : (run (Tracked.next twoRulesEnv movingHost (configured twoRules)) Tracked.start
        movingRounds).map (fun tracked =>
          tracked.openings.map fun opening => (opening.loop.listener.socket, opening.ip)) =
      some [(0, loneAddress), (1, movedAddress)] := by
    decide +kernel
  obtain ⟨tracked, reached, openings⟩ := Option.map_eq_some_iff.mp sockets
  refine ⟨tracked, reached, ?_, listeners_follow_interfaces _ _ _ _ _ reached ?_⟩
  · simpa [Function.comp_def] using congrArg (List.map Prod.snd) openings
  · intro opening member
    have listed := List.mem_map_of_mem
      (f := fun opening : Opening => (opening.loop.listener.socket, opening.ip)) member
    rw [openings] at listed
    generalize opening.loop.listener.socket = socket at listed
    generalize opening.ip = ip at listed
    simp only [List.mem_cons, Prod.mk.injEq, List.not_mem_nil, or_false] at listed
    rcases listed with ⟨rfl, rfl⟩ | ⟨rfl, rfl⟩ <;> rfl

end Uqda.Multicast
