import Uqda.Admin.Handlers

/-!
# Connections to the admin socket

The embedding of `handleRequest` in `src/admin/admin.go`.  One iteration of its loop reads
a JSON value, decodes it as a request, calls the handler of the request and writes one
response.  The loop goes on if the request asks for it.

A run is what happens on one connection, with anything that happens to the links of the
node in between.  Requests on other connections are among that.  A panic of a handler ends
the process before the response is written.
-/

namespace Uqda.Admin

open Uqda.Links Uqda.Transition Uqda.Wire

variable {ω : Type}

/-! ## One request -/

/-- `AdminSocketRequest`. -/
structure AdminSocketRequest where
  name : String := ""
  arguments : Json := .object []
  keepAlive : Bool := false

/-- `AdminSocketResponse`.  The request that is sent back is empty where none was decoded. -/
structure AdminSocketResponse where
  status : String
  error : String
  request : Option AdminSocketRequest
  response : Option String

/-- `AdminSocketRequest` as `json` decodes it. -/
def adminSocketRequest : RecordType AdminSocketRequest :=
  ⟨"admin", "AdminSocketRequest",
    [stringField "request" fun req text => { req with name := text },
      rawField "arguments" fun req value => { req with arguments := value },
      boolField "keepalive" fun req value => { req with keepAlive := value }]⟩

/-- What `decoder.Decode` finds: a value, or text that is no JSON, or the end of the stream. -/
inductive Message where
  | malformed
  | value (buf : Json)

/-- `json.Unmarshal(buf, &req)` with the default for the arguments. -/
def AdminSocket.decodeRequest (a : AdminSocket ω) (buf : Json) :
    AdminSocketRequest × Option String :=
  adminSocketRequest.unmarshal a.equalFold {} buf

/-- From `resp.Request = req` on.  There is no result if the handler panics. -/
def AdminSocket.dispatch (a : AdminSocket ω) (view : View ω) (core : State)
    (req : AdminSocketRequest) : Option (Except String String) × State :=
  if req.name = "" then (some (.error "no request specified"), core)
  else
    match a.lookup (a.toLower req.name) with
    | none =>
        (some (.error ("unknown action '" ++ a.toLower req.name ++ "', try 'list' for help")), core)
    | some handler =>
        match a.handle view core req.arguments handler with
        | (.panicked, core) => (none, core)
        | (.error err, core) => (some (.error err), core)
        | (.ok result, core) =>
            match a.marshal result with
            | .error err => (some (.error ("failed to marshal response: " ++ err)), core)
            | .ok text => (some (.ok text), core)

/-- The response that is encoded. -/
def respond (request : Option AdminSocketRequest) : Except String String → AdminSocketResponse
  | .ok text => ⟨"success", "", request, some text⟩
  | .error err => ⟨"error", err, request, none⟩

/-- One iteration of the loop: the request as far as it was decoded, and the response unless
the handler panics. -/
def AdminSocket.serve (a : AdminSocket ω) (view : View ω) (core : State) :
    Message → AdminSocketRequest × Option AdminSocketResponse × State
  | .malformed => ({}, some (respond none (.error "failed to find request")), core)
  | .value buf =>
      match a.decodeRequest buf with
      | (req, some _) => (req, some (respond none (.error "failed to unmarshal request")), core)
      | (req, none) =>
          let (outcome, core) := a.dispatch view core req
          (req, outcome.map (respond (some req)), core)

/-! ## The loop -/

/-- A connection and the links of the node.  The messages that were read and the responses
that were written are kept in order. -/
structure Session where
  core : State
  reading : Bool := true
  messages : List Message := []
  responses : List AdminSocketResponse := []

/-- A message arrives, or something happens to the links. -/
inductive SessionEvent (ω : Type) where
  | message (message : Message) (view : View ω)
  | links (event : Event)

/-- A connection that was just accepted. -/
def Session.accepted (table : Table) (workers : List Worker) : Session :=
  { core := { table := table, workers := workers } }

/-- `handleRequest`. -/
def AdminSocket.next (a : AdminSocket ω) : Step Session (SessionEvent ω)
  | session, .message message view =>
      if session.core.crashed || !session.reading then none
      else
        let (req, response, core) := a.serve view session.core message
        some
          { core := { core with crashed := core.crashed || response.isNone }
            reading := req.keepAlive
            messages := session.messages ++ [message]
            responses := session.responses ++ response.toList }
  | session, .links event =>
      (session.core.next event).map fun core => { session with core := core }

/-! ## What a client can rely on -/

/-- The message sets `keepalive`. -/
def AdminSocket.keepsAlive (a : AdminSocket ω) : Message → Bool
  | .malformed => false
  | .value buf => (a.decodeRequest buf).1.keepAlive

/-- The request that a message is, if it is one. -/
def AdminSocket.request (a : AdminSocket ω) : Message → Option AdminSocketRequest
  | .malformed => none
  | .value buf => if (a.decodeRequest buf).2 = none then some (a.decodeRequest buf).1 else none

/-- The response sends the request back, and it is a success with a value or an error. -/
def AdminSocket.Answers (a : AdminSocket ω) (message : Message) (response : AdminSocketResponse) :
    Prop :=
  response.request = a.request message ∧
    ((response.status = "success" ∧ response.response ≠ none) ∨
      (response.status = "error" ∧ response.response = none))

/-- The process runs, each message has its response, and the connection is read until the
first message that is malformed or does not set `keepalive`. -/
structure AdminSocket.Answered (a : AdminSocket ω) (session : Session) : Prop where
  running : session.core.crashed = false
  answered : List.Forall₂ a.Answers session.messages session.responses
  kept : ∀ message ∈ session.messages.dropLast, a.keepsAlive message = true
  reading : session.reading = true ↔ ∀ message ∈ session.messages, a.keepsAlive message = true

/-- The message reaches a handler that panics on its arguments. -/
def AdminSocket.Crashes (a : AdminSocket ω) (core : State) (message : Message) : Prop :=
  ∃ req handler, a.request message = some req ∧ req.name ≠ "" ∧
    a.lookup (a.toLower req.name) = some handler ∧ a.Fatal core handler req.arguments

/-- The step is no message with which a handler panics, and no removal that panics. -/
def AdminSocket.Harmless (a : AdminSocket ω) (session : Session) : SessionEvent ω → Prop
  | .message message _ => ¬ a.Crashes session.core message
  | .links event => ∀ info, event = .remove info → ¬ session.core.table.Uncancellable info

section Serve

variable {a : AdminSocket ω} {view : View ω} {core : State} {message : Message}

theorem answers_respond {outcome : Except String String} :
    a.Answers message (respond (a.request message) outcome) := by
  cases outcome <;> simp [AdminSocket.Answers, respond]

/-- There is no result exactly if a handler is reached and panics. -/
theorem AdminSocket.dispatch_eq_none_iff {req : AdminSocketRequest} :
    (a.dispatch view core req).1 = none ↔
      req.name ≠ "" ∧ ∃ handler, a.lookup (a.toLower req.name) = some handler ∧
        a.Fatal core handler req.arguments := by
  unfold AdminSocket.dispatch
  by_cases named : req.name = ""
  · simp [named]
  cases found : a.lookup (a.toLower req.name) with
  | none => simp [named]
  | some handler =>
      have panics := @AdminSocket.handle_panicked_iff ω a view core req.arguments handler
      rcases handled : a.handle view core req.arguments handler with ⟨result | err | _, target⟩
      · cases marshalled : a.marshal result <;>
          simpa [named, handled, marshalled] using panics
      · simpa [named, handled] using panics
      · simpa [named, handled] using panics

/-- The process ends exactly if a handler is reached and panics. -/
theorem AdminSocket.serve_eq_none_iff :
    (a.serve view core message).2.1 = none ↔ a.Crashes core message := by
  cases message with
  | malformed => simp [AdminSocket.serve, AdminSocket.Crashes, AdminSocket.request]
  | value buf =>
      rcases decoded : a.decodeRequest buf with ⟨req, _ | err⟩
      · simp [AdminSocket.serve, decoded, AdminSocket.dispatch_eq_none_iff, AdminSocket.Crashes,
          AdminSocket.request]
      · simp [AdminSocket.serve, decoded, AdminSocket.Crashes, AdminSocket.request]

theorem AdminSocket.answers_of_serve {response : AdminSocketResponse}
    (served : (a.serve view core message).2.1 = some response) : a.Answers message response := by
  suffices made : ∃ outcome, respond (a.request message) outcome = response by
    obtain ⟨outcome, rfl⟩ := made
    exact answers_respond
  cases message with
  | malformed => exact ⟨_, Option.some.inj served⟩
  | value buf =>
      rcases decoded : a.decodeRequest buf with ⟨req, _ | err⟩
      · simp only [AdminSocket.serve, decoded, Option.map_eq_some_iff] at served
        obtain ⟨outcome, -, made⟩ := served
        exact ⟨outcome, by simpa [AdminSocket.request, decoded] using made⟩
      · simp only [AdminSocket.serve, decoded, Option.some.injEq] at served
        exact ⟨_, by simpa [AdminSocket.request, decoded] using served⟩

theorem AdminSocket.dispatch_moved {req : AdminSocketRequest} (alive : core.crashed = false)
    (answered : (a.dispatch view core req).1 ≠ none) :
    Moved core (a.dispatch view core req).2 := by
  unfold AdminSocket.dispatch at answered ⊢
  by_cases named : req.name = ""
  · rw [if_pos named]
    exact .refl alive
  rw [if_neg named] at answered ⊢
  cases found : a.lookup (a.toLower req.name) with
  | none => exact .refl alive
  | some handler =>
      have moved := @AdminSocket.handle_moved ω a view core req.arguments alive handler
      rcases handled : a.handle view core req.arguments handler with ⟨result | err | _, target⟩
      · rw [handled] at moved
        cases marshalled : a.marshal result <;> simpa [handled, marshalled] using moved nofun
      · rw [handled] at moved
        simpa [handled] using moved nofun
      · simp [found, handled] at answered

/-- A request that is answered has made at most one step of the links. -/
theorem AdminSocket.serve_moved (alive : core.crashed = false)
    (answered : (a.serve view core message).2.1 ≠ none) :
    Moved core (a.serve view core message).2.2 := by
  cases message with
  | malformed => exact .refl alive
  | value buf =>
      simp only [AdminSocket.serve] at answered ⊢
      rcases decoded : a.decodeRequest buf with ⟨req, _ | err⟩
      · rw [decoded] at answered
        refine a.dispatch_moved alive fun panicked => answered ?_
        simp [panicked]
      · exact .refl alive

theorem AdminSocket.keepAlive_serve :
    (a.serve view core message).1.keepAlive = a.keepsAlive message := by
  cases message with
  | malformed => rfl
  | value buf =>
      rcases decoded : a.decodeRequest buf with ⟨req, _ | err⟩ <;>
        simp [AdminSocket.serve, AdminSocket.keepsAlive, decoded]

end Serve

/-! ## Runs -/

section Runs

variable {a : AdminSocket ω} {session target : Session} {event : SessionEvent ω}

theorem AdminSocket.next_message_eq_some_iff {message : Message} {view : View ω} :
    a.next session (.message message view) = some target ↔
      session.core.crashed = false ∧ session.reading = true ∧
        { core :=
            { (a.serve view session.core message).2.2 with
              crashed := (a.serve view session.core message).2.2.crashed ||
                (a.serve view session.core message).2.1.isNone }
          reading := (a.serve view session.core message).1.keepAlive
          messages := session.messages ++ [message]
          responses := session.responses ++ (a.serve view session.core message).2.1.toList } =
            target := by
  cases crashed : session.core.crashed <;> cases reading : session.reading <;>
    simp [AdminSocket.next, crashed, reading]

/-- Nothing happens after the process has ended. -/
theorem AdminSocket.alive_of_next (step : a.next session event = some target) :
    session.core.crashed = false := by
  cases event with
  | message message view => exact (AdminSocket.next_message_eq_some_iff.mp step).1
  | links event =>
      obtain ⟨core, moved, -⟩ := Option.map_eq_some_iff.mp step
      by_contra crashed
      simp [State.next, crashed] at moved

/-- Over a step all that a client can rely on is kept exactly if the step is harmless. -/
theorem AdminSocket.Answered.next_iff (holds : a.Answered session)
    (step : a.next session event = some target) :
    a.Answered target ↔ a.Harmless session event := by
  cases event with
  | links event =>
      obtain ⟨core, moved, rfl⟩ := Option.map_eq_some_iff.mp step
      have crashed := State.crashed_of_next holds.running moved
      constructor
      · intro still info removed uncancellable
        have ended := crashed.mpr ⟨info, removed, uncancellable⟩
        cases still.running.symm.trans ended
      · intro harmless
        refine ⟨Bool.eq_false_iff.mpr fun ended => ?_, holds.answered, holds.kept, holds.reading⟩
        obtain ⟨info, removed, uncancellable⟩ := crashed.mp ended
        exact harmless info removed uncancellable
  | message message view =>
      obtain ⟨-, reading, rfl⟩ := AdminSocket.next_message_eq_some_iff.mp step
      have earlier := holds.reading.mp reading
      rw [AdminSocket.Harmless, ← @AdminSocket.serve_eq_none_iff ω a view]
      cases served : (a.serve view session.core message).2.1 with
      | none =>
          refine iff_of_false (fun still => ?_) (by simp)
          have running := still.running
          simp at running
      | some response =>
          have moved := a.serve_moved holds.running (Option.ne_none_iff_exists'.mpr ⟨_, served⟩)
          refine iff_of_true ⟨?_, ?_, ?_, ?_⟩ (by simp)
          · simpa using moved.1
          · simpa using List.rel_append holds.answered
              (.cons (AdminSocket.answers_of_serve served) .nil)
          · simpa using earlier
          · rw [AdminSocket.keepAlive_serve]
            simp only [List.forall_mem_append, List.forall_mem_singleton]
            exact ⟨fun keeps => ⟨earlier, keeps⟩, fun all => all.2⟩

/-- A step after which the process runs makes at most one step of the links. -/
theorem AdminSocket.next_moved (step : a.next session event = some target)
    (alive : target.core.crashed = false) : Moved session.core target.core := by
  cases event with
  | links event =>
      obtain ⟨core, moved, rfl⟩ := Option.map_eq_some_iff.mp step
      exact ⟨alive, .inr ⟨event, moved⟩⟩
  | message message view =>
      obtain ⟨before, -, rfl⟩ := AdminSocket.next_message_eq_some_iff.mp step
      obtain ⟨kept, answered⟩ := Bool.or_eq_false_iff.mp alive
      have same : { (a.serve view session.core message).2.2 with
          crashed := (a.serve view session.core message).2.2.crashed ||
            (a.serve view session.core message).2.1.isNone } =
          (a.serve view session.core message).2.2 := by
        rw [answered, Bool.or_false]
      rw [same]
      refine a.serve_moved before fun panicked => ?_
      rw [panicked] at answered
      cases answered

/-- As long as the process runs, the links below a connection go through a run of their own,
so that whatever holds in every run of the links holds here. -/
theorem AdminSocket.exists_run_links {events : List (SessionEvent ω)}
    (ended : run a.next session events = some target) (alive : target.core.crashed = false) :
    ∃ linkEvents, run State.next session.core linkEvents = some target.core := by
  induction events using List.reverseRecOn generalizing target with
  | nil =>
      cases ended
      exact ⟨[], rfl⟩
  | append_singleton events event ih =>
      obtain ⟨middle, reached, last⟩ := run_append_eq_some_iff.mp ended
      obtain ⟨_, step, same⟩ := run_cons_eq_some_iff.mp last
      cases same
      obtain ⟨linkEvents, before⟩ := ih reached (a.alive_of_next step)
      rcases (a.next_moved step alive).2 with same | ⟨event, moved⟩
      · exact ⟨linkEvents, same ▸ before⟩
      · refine ⟨linkEvents ++ [event], run_append_eq_some_iff.mpr ⟨_, before, ?_⟩⟩
        exact run_cons_eq_some_iff.mpr ⟨_, moved, rfl⟩

end Runs

/-- On any connection and with anything that happens to the links meanwhile, the process
runs, each message has exactly one response, which is a success or an error, and the
connection is read until the first message that is malformed or does not set `keepalive`,
in every state exactly when no handler that reads its request is called with `null` and no
link without a cancel function is removed. -/
theorem requests_answered_iff (a : AdminSocket ω) (table : Table) (workers : List Worker)
    (events : List (SessionEvent ω)) :
    Throughout a.next a.Answered (.accepted table workers) events ↔
      EveryStep a.next a.Harmless (.accepted table workers) events :=
  throughout_iff_everyStep events trivial ⟨rfl, .nil, by simp [Session.accepted],
      by simp [Session.accepted]⟩
    (fun _ _ _ => trivial) fun _ holds step => holds.next_iff step

/-- A socket that keeps names as they are, knows no URI and encodes every value alike. -/
def plainSocket : AdminSocket Unit :=
  { plainLibrary with
    handlers := [.list, .getSelf, .getPeers, .doctor, .addPeer, .removePeer]
    equalFold := fun _ _ => false
    urlParse := fun _ => .error "missing protocol scheme"
    hexError := fun _ => ""
    marshal := fun _ => .ok "\x7b\x7d"
    links := Links.plainLibrary }

/-- A node without peers. -/
def quietView : View Unit :=
  ⟨[], fun _ _ => .ok (), none⟩

/-- A request with the arguments `null`. -/
def nullRequest (handler : HandlerName) : Message :=
  .value (.object [("request", .string handler.name), ("arguments", .null)])

/-- The arguments `null` end the process in three of the handlers, before a response is
written.  `doctor` answers them. -/
theorem nullRequest_crashes :
    [HandlerName.getPeers, .addPeer, .removePeer, .doctor].map (fun handler =>
        (run plainSocket.next (.accepted State.init.table [])
          [.message (nullRequest handler) quietView]).map fun session =>
            (session.core.crashed, session.responses.map AdminSocketResponse.status)) =
      [some (true, []), some (true, []), some (true, []), some (false, ["success"])] := by
  decide +kernel

end Uqda.Admin
