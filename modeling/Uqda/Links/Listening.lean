import Uqda.Links.Options

/-!
# Listening

The embedding of `links.listen` in `src/core/link.go` up to its return, with what it
acquires on the way: a context, a bound socket, an entry in `_listeners` and an accept
loop.  What ends a listener is modelled as well: its `Cancel` function, an accept loop
that returns, and `links.shutdown`.

The socket is bound before the options are read, and the three exits of the options do
not undo it.  A socket that is left open in this way is in no table, so `shutdown` does
not close it either.
-/

namespace Uqda.Links

open Uqda.Handshake Uqda.Transition Uqda.Wire

/-- `Listener`: the indices of its context and of its socket. -/
structure Listener where
  ctx : Nat
  socket : Nat
  deriving DecidableEq, Repr

/-- An accept loop, with the options and the flag it passes to the handler. -/
structure AcceptLoop where
  listener : Listener
  options : LinkOptions
  isLocal : Bool

/-- What the calls of `links.listen` have acquired.  A context is given by whether it is
cancelled and a socket by whether it is open. -/
structure Resources where
  contexts : List Bool
  sockets : List Bool
  listeners : List Listener
  acceptLoops : List AcceptLoop

/-- The errors of `links.listen`: its own and those of `protocol.listen`. -/
inductive ListenError where
  | link (err : LinkError)
  | bind (message : String)
  deriving DecidableEq, Repr

/-- The switch in `links.listen`.  Unlike `dialerFor` it has no SOCKS schemes. -/
def listenProtocols : List (Bytes × Protocol) :=
  [(ascii ['t', 'c', 'p'], .tcp),
    (ascii ['t', 'l', 's'], .tls),
    (ascii ['u', 'n', 'i', 'x'], .unix),
    (ascii ['q', 'u', 'i', 'c'], .quic),
    (ascii ['w', 's'], .ws),
    (ascii ['w', 's', 's'], .wss)]

/-- How the system answers when a protocol binds the host of a URI on an interface. -/
abbrev Bind := Protocol → Url → String → Except String Unit

/-- `linkProtocol.listen`.  Two of the protocols cannot listen.  No socket is open after
an error. -/
def Protocol.listen (protocol : Protocol) (bind : Bind) (u : Url) (sintf : String) :
    Except String Unit :=
  match protocol with
  | .wss => .error "WSS listener not supported, use WS listener behind reverse proxy instead"
  | .socks => .error "SOCKS listener not supported"
  | other => bind other u sintf

/-- `context.WithCancel`. -/
def Resources.withCancel (resources : Resources) : Resources :=
  { resources with contexts := resources.contexts ++ [false] }

/-- `ctxcancel()`. -/
def Resources.cancelContext (resources : Resources) (ctx : Nat) : Resources :=
  { resources with contexts := resources.contexts.set ctx true }

/-- A bind that succeeded. -/
def Resources.openSocket (resources : Resources) : Resources :=
  { resources with sockets := resources.sockets ++ [true] }

/-- `Listener.Cancel`. -/
def Resources.cancel (resources : Resources) (li : Listener) : Resources :=
  { resources.cancelContext li.ctx with sockets := resources.sockets.set li.socket false }

/-- The entry in `_listeners` and the goroutine that accepts. -/
def Resources.serve (resources : Resources) (loop : AcceptLoop) : Resources :=
  { resources with
    listeners := resources.listeners ++ [loop.listener]
    acceptLoops := resources.acceptLoops ++ [loop] }

/-- `links.listen`. -/
def Resources.listen (lib : Library) (bind : Bind) (resources : Resources) (u : Url)
    (sintf : String) (isLocal : Bool) : Except ListenError Listener × Resources :=
  let started := resources.withCancel
  let ctx := resources.contexts.length
  match listenProtocols.lookup (lib.toLower u.scheme) with
  | none => (.error (.link .unrecognisedSchema), started.cancelContext ctx)
  | some protocol =>
      match protocol.listen bind u sintf with
      | .error message => (.error (.bind message), started.cancelContext ctx)
      | .ok () =>
          let li : Listener := ⟨ctx, resources.sockets.length⟩
          match parseLinkOptions u.query with
          | .error err => (.error (.link err), started.openSocket)
          | .ok options => (.ok li, started.openSocket.serve ⟨li, options, isLocal⟩)

/-! ## All or nothing -/

/-- The listener is recorded with its accept loop, or nothing is left of the call: no
socket is open that was not there before, its context is cancelled, and the table of
listeners is as it was. -/
def AllOrNothing (before after : Resources) : Except ListenError Listener → Prop
  | .ok li => li ∈ after.listeners ∧ ∃ loop ∈ after.acceptLoops, loop.listener = li
  | .error _ =>
      (∀ socket, before.sockets.length ≤ socket → after.sockets[socket]? ≠ some true) ∧
        after.contexts = before.contexts ++ [true] ∧ after.listeners = before.listeners

/-- The URI is refused before the bind or by it, or all its options are valid. -/
def Clean (lib : Library) (bind : Bind) (u : Url) (sintf : String) : Prop :=
  match listenProtocols.lookup (lib.toLower u.scheme) with
  | none => True
  | some protocol =>
      (∃ message, protocol.listen bind u sintf = .error message) ∨
        ∃ options, parseLinkOptions u.query = .ok options

section Listen

variable (lib : Library) (bind : Bind) (resources : Resources) (u : Url) (sintf : String)
  (isLocal : Bool)

/-- How a call ends: it is refused before it has a socket, the options are refused
after it, or it serves. -/
theorem Resources.listen_cases :
    ((∃ err, resources.listen lib bind u sintf isLocal =
        (.error err, { resources with contexts := resources.contexts ++ [true] })) ∧
      Clean lib bind u sintf) ∨
    ((∃ err, resources.listen lib bind u sintf isLocal =
        (.error (.link err), resources.withCancel.openSocket)) ∧ ¬Clean lib bind u sintf) ∨
    ((∃ options, resources.listen lib bind u sintf isLocal =
        (.ok ⟨resources.contexts.length, resources.sockets.length⟩,
          resources.withCancel.openSocket.serve
            ⟨⟨resources.contexts.length, resources.sockets.length⟩, options, isLocal⟩)) ∧
      Clean lib bind u sintf) := by
  have undone : resources.withCancel.cancelContext resources.contexts.length =
      { resources with contexts := resources.contexts ++ [true] } := by
    simp [Resources.withCancel, Resources.cancelContext]
  unfold Resources.listen Clean
  cases listenProtocols.lookup (lib.toLower u.scheme) with
  | none => exact .inl ⟨⟨_, congrArg _ undone⟩, trivial⟩
  | some protocol =>
      cases answer : protocol.listen bind u sintf with
      | error message => exact .inl ⟨⟨.bind message, by simp [answer, undone]⟩, by simp [answer]⟩
      | ok _ =>
          cases parseLinkOptions u.query with
          | error err => exact .inr (.inl ⟨⟨err, by simp [answer]⟩, by simp [answer]⟩)
          | ok options => exact .inr (.inr ⟨⟨options, by simp [answer]⟩, by simp⟩)

/-- A call of `links.listen` is all or nothing exactly when the URI is refused before or
by the bind, or its priority, password and policy are all valid. -/
theorem listen_allOrNothing_iff :
    AllOrNothing resources (resources.listen lib bind u sintf isLocal).2
        (resources.listen lib bind u sintf isLocal).1 ↔
      Clean lib bind u sintf := by
  rcases resources.listen_cases lib bind u sintf isLocal with
    ⟨⟨err, ended⟩, clean⟩ | ⟨⟨err, ended⟩, unclean⟩ | ⟨⟨options, ended⟩, clean⟩
  · refine iff_of_true ?_ clean
    rw [ended]
    refine ⟨fun socket new => ?_, rfl, rfl⟩
    simp [List.getElem?_eq_none new]
  · refine iff_of_false ?_ unclean
    rw [ended]
    rintro ⟨closed, -⟩
    exact closed resources.sockets.length le_rfl List.getElem?_concat_length
  · refine iff_of_true ?_ clean
    rw [ended]
    constructor
    · simp [Resources.serve]
    · exact ⟨_, List.mem_append_right _ List.mem_cons_self, rfl⟩

variable {lib bind resources u sintf isLocal}

/-- A call that succeeds serves with the options of the URI. -/
theorem Resources.acceptLoops_of_listen {li : Listener} {after : Resources}
    (served : resources.listen lib bind u sintf isLocal = (.ok li, after)) :
    ∃ options, parseLinkOptions u.query = .ok options ∧
      after.acceptLoops = resources.acceptLoops ++ [⟨li, options, isLocal⟩] := by
  unfold Resources.listen at served
  split at served
  · cases served
  · split at served
    · cases served
    · split at served
      · cases served
      · rename_i options parsed
        cases served
        exact ⟨options, parsed, rfl⟩

end Listen

/-- `tcp://?secure=no`. -/
def badPolicyUrl : Url where
  scheme := ascii ['t', 'c', 'p']
  host := []
  rawQuery := ascii ['s', 'e', 'c', 'u', 'r', 'e', '=', 'n', 'o']

/-- An unknown policy is reported with the socket still open and the context alive. -/
theorem badPolicy_leaks :
    (Resources.listen plainLibrary (fun _ _ _ => .ok ()) ⟨[], [], [], []⟩ badPolicyUrl "" false).1 =
        .error (.link .securityInvalid) ∧
      (Resources.listen plainLibrary (fun _ _ _ => .ok ()) ⟨[], [], [], []⟩ badPolicyUrl ""
        false).2 = ⟨[false], [true], [], []⟩ := by
  constructor
  · decide
  · rfl

/-! ## Runs -/

/-- What happens to listeners.  The last three are the `Cancel` function of a listener,
an accept loop that returns with its deferred section, and `links.shutdown`. -/
inductive ListenEvent where
  | listen (u : Url) (sintf : String) (isLocal : Bool) (bind : Bind)
  | cancel (li : Listener)
  | acceptReturns (li : Listener)
  | shutdown

/-- The deferred section of an accept loop. -/
def Resources.stop (resources : Resources) (li : Listener) : Resources :=
  { resources.cancel li with
    listeners := resources.listeners.filter (· ≠ li)
    acceptLoops := resources.acceptLoops.filter (·.listener ≠ li) }

/-- The cancel functions of all listeners. -/
def Resources.shutdown (resources : Resources) : Resources :=
  resources.listeners.foldl Resources.cancel resources

/-- The transitions.  A listener that has stopped is cancelled already. -/
def Resources.next (lib : Library) : Step Resources ListenEvent
  | resources, .listen u sintf isLocal bind =>
      some (resources.listen lib bind u sintf isLocal).2
  | resources, .cancel li =>
      if li ∈ resources.listeners then some (resources.cancel li) else none
  | resources, .acceptReturns li =>
      if li ∈ resources.listeners then some (resources.stop li) else none
  | resources, .shutdown => some resources.shutdown

/-- Every open socket belongs to a listener in the table. -/
def Resources.Recorded (resources : Resources) : Prop :=
  ∀ socket, resources.sockets[socket]? = some true →
    ∃ li ∈ resources.listeners, li.socket = socket

/-- Listeners refer to sockets that were bound. -/
def Resources.Bound (resources : Resources) : Prop :=
  ∀ li ∈ resources.listeners, li.socket < resources.sockets.length

/-- No call of `listen` has options that are refused after the bind. -/
def ListenEvent.Clean (lib : Library) : ListenEvent → Prop
  | .listen u sintf _ bind => Links.Clean lib bind u sintf
  | _ => True

theorem Resources.getElem?_cancel_iff {resources : Resources} {li : Listener} {socket : Nat} :
    (resources.cancel li).sockets[socket]? = some true ↔
      resources.sockets[socket]? = some true ∧ li.socket ≠ socket := by
  simp only [Resources.cancel, List.getElem?_set]
  split
  case isTrue same =>
    split <;> simp [same]
  case isFalse other => simp [other]

theorem Resources.foldl_cancel {resources : Resources} {cancelled : List Listener} :
    (cancelled.foldl Resources.cancel resources).listeners = resources.listeners ∧
      (cancelled.foldl Resources.cancel resources).sockets.length = resources.sockets.length ∧
        ∀ socket, (cancelled.foldl Resources.cancel resources).sockets[socket]? = some true ↔
          resources.sockets[socket]? = some true ∧ ∀ li ∈ cancelled, li.socket ≠ socket := by
  induction cancelled generalizing resources with
  | nil => simp
  | cons li cancelled ih =>
      obtain ⟨listeners, sockets, opened⟩ := @ih (resources.cancel li)
      refine ⟨listeners, sockets.trans (by simp [Resources.cancel]), fun socket => ?_⟩
      rw [List.foldl_cons, opened, Resources.getElem?_cancel_iff, List.forall_mem_cons, and_assoc]

/-- After a shutdown no recorded socket is open. -/
theorem Resources.Recorded.closed_of_shutdown {resources : Resources}
    (recorded : resources.Recorded) (socket : Nat) :
    resources.shutdown.sockets[socket]? ≠ some true := by
  intro remains
  obtain ⟨opened, others⟩ := (Resources.foldl_cancel.2.2 socket).mp remains
  obtain ⟨li, listed, same⟩ := recorded socket opened
  exact others li listed same

section Runs

variable {lib : Library} {resources target : Resources} {event : ListenEvent}

theorem Resources.Bound.next (bound : resources.Bound)
    (step : resources.next lib event = some target) : target.Bound := by
  cases event with
  | listen u sintf isLocal bind =>
      cases step
      rcases resources.listen_cases lib bind u sintf isLocal with
        ⟨⟨err, ended⟩, -⟩ | ⟨⟨err, ended⟩, -⟩ | ⟨⟨options, ended⟩, -⟩
      · rw [ended]
        exact bound
      · rw [ended]
        intro li listed
        exact (bound li listed).trans_le (by simp [Resources.openSocket, Resources.withCancel])
      · rw [ended]
        intro li listed
        rcases List.mem_append.mp listed with old | new
        · exact (bound li old).trans_le
            (by simp [Resources.openSocket, Resources.serve, Resources.withCancel])
        · rw [List.mem_singleton.mp new]
          simp [Resources.openSocket, Resources.serve, Resources.withCancel]
  | cancel li =>
      obtain ⟨-, stepped⟩ := Option.ite_none_right_eq_some.mp step
      cases stepped
      intro other listed
      simpa [Resources.cancel] using bound other listed
  | acceptReturns li =>
      obtain ⟨-, stepped⟩ := Option.ite_none_right_eq_some.mp step
      cases stepped
      intro other listed
      simpa [Resources.stop, Resources.cancel] using bound other (List.mem_filter.mp listed).1
  | shutdown =>
      cases step
      intro li listed
      have same := @Resources.foldl_cancel resources resources.listeners
      rw [Resources.shutdown, same.2.1]
      exact bound li (same.1 ▸ listed)

/-- A step keeps every open socket recorded unless it is a call that fails after the
bind. -/
theorem Resources.Recorded.next_iff (bound : resources.Bound) (recorded : resources.Recorded)
    (step : resources.next lib event = some target) :
    target.Recorded ↔ event.Clean lib := by
  cases event with
  | listen u sintf isLocal bind =>
      cases step
      rcases resources.listen_cases lib bind u sintf isLocal with
        ⟨⟨err, ended⟩, clean⟩ | ⟨⟨err, ended⟩, unclean⟩ | ⟨⟨options, ended⟩, clean⟩
      · rw [ended]
        exact iff_of_true recorded clean
      · rw [ended]
        refine iff_of_false (fun claimed => ?_) unclean
        obtain ⟨li, listed, same⟩ := claimed resources.sockets.length List.getElem?_concat_length
        exact absurd (bound li listed) (by omega)
      · rw [ended]
        refine iff_of_true (fun socket opened => ?_) clean
        by_cases old : socket < resources.sockets.length
        · have before : resources.sockets[socket]? = some true :=
            (List.getElem?_append_left old).symm.trans opened
          obtain ⟨li, listed, same⟩ := recorded socket before
          exact ⟨li, List.mem_append_left _ listed, same⟩
        · have inside := (List.getElem?_eq_some_iff.mp opened).1
          simp only [Resources.openSocket, Resources.serve, Resources.withCancel,
            List.length_append, List.length_singleton] at inside
          have newest : resources.sockets.length = socket := by omega
          exact ⟨_, List.mem_append_right _ List.mem_cons_self, newest⟩
  | cancel li =>
      obtain ⟨-, stepped⟩ := Option.ite_none_right_eq_some.mp step
      cases stepped
      refine iff_of_true (fun socket opened => ?_) trivial
      exact recorded socket (Resources.getElem?_cancel_iff.mp opened).1
  | acceptReturns li =>
      obtain ⟨-, stepped⟩ := Option.ite_none_right_eq_some.mp step
      cases stepped
      refine iff_of_true (fun socket opened => ?_) trivial
      obtain ⟨before, other⟩ := Resources.getElem?_cancel_iff.mp opened
      obtain ⟨holder, listed, same⟩ := recorded socket before
      refine ⟨holder, List.mem_filter.mpr ⟨listed, ?_⟩, same⟩
      simp only [decide_eq_true_eq]
      rintro rfl
      exact other same
  | shutdown =>
      cases step
      refine iff_of_true (fun socket opened => ?_) trivial
      exact absurd opened (recorded.closed_of_shutdown socket)

end Runs

/-- Along a run every open socket stays in reach of `shutdown` exactly as long as no call
of `links.listen` fails after its bind. -/
theorem openSockets_recorded_iff (lib : Library) (events : List ListenEvent) :
    Throughout (Resources.next lib) Resources.Recorded ⟨[], [], [], []⟩ events ↔
      EveryStep (Resources.next lib) (fun _ event => event.Clean lib) ⟨[], [], [], []⟩ events := by
  have noListener : Resources.Bound ⟨[], [], [], []⟩ := by simp [Resources.Bound]
  have noSocket : Resources.Recorded ⟨[], [], [], []⟩ := by simp [Resources.Recorded]
  exact throughout_iff_everyStep events noListener noSocket
    (fun bound _ step => bound.next step) fun bound recorded step => recorded.next_iff bound step

/-! ## Cancelled listeners -/

/-- The context of the listener is cancelled and its socket is closed. -/
def Resources.Cancelled (resources : Resources) (li : Listener) : Prop :=
  resources.contexts[li.ctx]? = some true ∧ resources.sockets[li.socket]? = some false

instance (resources : Resources) (li : Listener) : Decidable (resources.Cancelled li) :=
  inferInstanceAs (Decidable (_ ∧ _))

/-- What the calls may do to what was acquired before: nothing is forgotten, and a listener
that is cancelled stays so. -/
structure Resources.Later (before after : Resources) : Prop where
  contexts : before.contexts.length ≤ after.contexts.length
  sockets : before.sockets.length ≤ after.sockets.length
  cancelled : ∀ li, before.Cancelled li → after.Cancelled li

section Later

variable {resources middle target : Resources} {li : Listener}

theorem Resources.Later.refl (resources : Resources) : resources.Later resources :=
  ⟨Nat.le_refl _, Nat.le_refl _, fun _ => id⟩

theorem Resources.Later.trans (first : resources.Later middle) (second : middle.Later target) :
    resources.Later target :=
  ⟨first.contexts.trans second.contexts, first.sockets.trans second.sockets,
    fun li done => second.cancelled li (first.cancelled li done)⟩

/-- Contexts and sockets that are added at the end. -/
theorem Resources.later_of_append {contexts sockets : List Bool}
    (contextsAdded : target.contexts = resources.contexts ++ contexts)
    (socketsAdded : target.sockets = resources.sockets ++ sockets) : resources.Later target where
  contexts := by simp [contextsAdded]
  sockets := by simp [socketsAdded]
  cancelled li done := by
    obtain ⟨context, socket⟩ := done
    constructor
    · rw [contextsAdded, List.getElem?_append_left (List.getElem?_eq_some_iff.mp context).1]
      exact context
    · rw [socketsAdded, List.getElem?_append_left (List.getElem?_eq_some_iff.mp socket).1]
      exact socket

theorem Resources.later_cancel (resources : Resources) (li : Listener) :
    resources.Later (resources.cancel li) where
  contexts := by simp [Resources.cancel, Resources.cancelContext]
  sockets := by simp [Resources.cancel]
  cancelled other done := by
    obtain ⟨context, socket⟩ := done
    have contextBound := (List.getElem?_eq_some_iff.mp context).1
    have socketBound := (List.getElem?_eq_some_iff.mp socket).1
    constructor
    · simp only [Resources.cancel, Resources.cancelContext, List.getElem?_set]
      split <;> simp_all
    · simp only [Resources.cancel, List.getElem?_set]
      split <;> simp_all

/-- A listener whose context and socket are there is cancelled by its function. -/
theorem Resources.cancelled_cancel (context : li.ctx < resources.contexts.length)
    (socket : li.socket < resources.sockets.length) : (resources.cancel li).Cancelled li :=
  ⟨List.getElem?_set_self context, List.getElem?_set_self socket⟩

theorem Resources.later_foldl_cancel (cancelled : List Listener) :
    resources.Later (cancelled.foldl Resources.cancel resources) := by
  induction cancelled generalizing resources with
  | nil => exact .refl resources
  | cons li cancelled ih => exact (resources.later_cancel li).trans ih

theorem Resources.later_next {lib : Library} {event : ListenEvent}
    (step : resources.next lib event = some target) : resources.Later target := by
  cases event with
  | listen u sintf isLocal bind =>
      cases step
      rcases resources.listen_cases lib bind u sintf isLocal with
        ⟨⟨err, ended⟩, -⟩ | ⟨⟨err, ended⟩, -⟩ | ⟨⟨options, ended⟩, -⟩
      · rw [ended]
        exact Resources.later_of_append rfl (List.append_nil _).symm
      · rw [ended]
        exact Resources.later_of_append rfl rfl
      · rw [ended]
        exact Resources.later_of_append rfl rfl
  | cancel li =>
      obtain ⟨-, stepped⟩ := Option.ite_none_right_eq_some.mp step
      cases stepped
      exact resources.later_cancel li
  | acceptReturns li =>
      obtain ⟨-, stepped⟩ := Option.ite_none_right_eq_some.mp step
      cases stepped
      obtain ⟨contexts, sockets, cancelled⟩ := resources.later_cancel li
      exact ⟨contexts, sockets, cancelled⟩
  | shutdown =>
      cases step
      exact Resources.later_foldl_cancel resources.listeners

end Later

end Uqda.Links
