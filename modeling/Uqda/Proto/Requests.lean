import Uqda.Proto.Core
import Uqda.Store.Ledger
import Uqda.Transition.Core

/-!
# Requests to other nodes

The stateful part of `src/core/proto.go` and `src/core/nodeinfo.go`: the three tables of
debug requests, which belong to the protocol actor, and the table of node info callbacks,
which belongs to the node info actor.

Each actor has an inbox that it works off in order.  A message in an inbox is known by
the position that its entry has in a log, and a callback by the position of the call that
passed it; the log is bookkeeping of the model.  A `reqInfo` is made once for each call,
so its pointer is given by the callback in it.

A timer that fires starts a goroutine, which posts its message later.  When timers fire is
left open, and so is the time between two rounds of clean-up.  A callback sends what it is
given into a channel of its own that holds one value; if the channel is full, the actor
that runs the callback stalls.
-/

namespace Uqda.Proto

open Uqda.Addressing Uqda.Store Uqda.Transition

/-! ## State -/

/-- Where the timer of a request stands.  A timer that has `fired` has started its
goroutine, which has not posted its message yet. -/
inductive TimerStatus where
  | armed
  | stopped
  | fired
  | posted
  deriving DecidableEq, Repr

/-- `time.Timer.Stop`. -/
def TimerStatus.stop : TimerStatus → TimerStatus
  | .armed => .stopped
  | status => status

/-- The functions in the inbox of the protocol actor: a request that is made, the function
of its timer, and a debug message. -/
inductive ProtoTask where
  | request (kind : DebugKind) (key : KeyArray)
  | expire (kind : DebugKind) (key : KeyArray) (info : Nat)
  | debug (key : KeyArray) (bs : Bytes)
  deriving DecidableEq, Repr

/-- The functions in the inbox of the node info actor.  The flag of `sendReq` says whether
it was given a callback. -/
inductive NodeInfoTask where
  | sendReq (key : KeyArray) (callback : Bool)
  | sendRes (key : KeyArray)
  | callback (key : KeyArray) (info : Bytes)
  | cleanup
  deriving DecidableEq, Repr

/-- A message and the position of its entry in the log. -/
structure Mail (α : Type) where
  time : Nat
  task : α

/-- `nodeinfoCallback`. -/
structure NodeInfoCallback where
  call : Nat
  created : Nat
  deriving DecidableEq, Repr

/-- An entry of the log: a call that passed a callback, a message from another node, a
callback that was invoked with the message received at `source`, or anything else that
was posted. -/
inductive LogEntry where
  | called (kind : Kind) (key : KeyArray)
  | received (key : KeyArray) (bs : Bytes)
  | invoked (callback source : Nat) (payload : Bytes)
  | posted
  deriving DecidableEq, Repr

/-- The two actors.  `infos` holds the timers of the requests made so far, each with the
table and the key its function uses; `channels` lists the callbacks whose channel holds
a value; `written` lists the packets passed to `PacketConn.WriteTo`. -/
structure State where
  requests : DebugKind × KeyArray → Option Nat
  infos : Nat → Option ((DebugKind × KeyArray) × TimerStatus)
  callbacks : KeyArray → Option NodeInfoCallback
  protoInbox : List (Mail ProtoTask)
  nodeInfoInbox : List (Mail NodeInfoTask)
  cleanupArmed : Bool
  clock : Nat
  channels : List Nat
  stalled : Bool
  written : List (KeyArray × Bytes)
  log : List LogEntry

/-- Both actors after `init`, which posts the first round of clean-up. -/
def State.init : State where
  requests _ := none
  infos _ := none
  callbacks _ := none
  protoInbox := []
  nodeInfoInbox := [⟨0, .cleanup⟩]
  cleanupArmed := false
  clock := 0
  channels := []
  stalled := false
  written := []
  log := [.posted]

/-- `p.Act` with its entry in the log. -/
def State.mailProto (s : State) (entry : LogEntry) (task : ProtoTask) : State :=
  { s with
    protoInbox := s.protoInbox ++ [⟨s.log.length, task⟩]
    log := s.log ++ [entry] }

/-- `m.Act` with its entry in the log. -/
def State.mailNodeInfo (s : State) (entry : LogEntry) (task : NodeInfoTask) : State :=
  { s with
    nodeInfoInbox := s.nodeInfoInbox ++ [⟨s.log.length, task⟩]
    log := s.log ++ [entry] }

/-! ## Calls and messages -/

/-- The three `sendGet..Request` functions up to the section they post. -/
def State.sendRequest (s : State) (kind : DebugKind) (key : KeyArray) : State :=
  s.mailProto (.called (.debug kind) key) (.request kind key)

/-- `sendGetSelfRequest`. -/
def State.sendGetSelfRequest (s : State) (key : KeyArray) : State :=
  s.sendRequest .self key

/-- `sendGetPeersRequest`. -/
def State.sendGetPeersRequest (s : State) (key : KeyArray) : State :=
  s.sendRequest .peers key

/-- `sendGetTreeRequest`. -/
def State.sendGetTreeRequest (s : State) (key : KeyArray) : State :=
  s.sendRequest .tree key

/-- The request functions by kind. -/
def State.sendGetRequest (s : State) : DebugKind → KeyArray → State
  | .self => s.sendGetSelfRequest
  | .peers => s.sendGetPeersRequest
  | .tree => s.sendGetTreeRequest

/-- `nodeinfo.sendReq` with a callback or with nil. -/
def State.sendReq (s : State) (key : KeyArray) (callback : Bool) : State :=
  s.mailNodeInfo (if callback then .called .nodeInfo key else .posted) (.sendReq key callback)

/-- `handleProto`. -/
def State.receive (s : State) (key : KeyArray) (bs : Bytes) : State :=
  match handleProto bs with
  | .nodeInfoRequest => s.mailNodeInfo (.received key bs) (.sendRes key)
  | .nodeInfoResponse info => s.mailNodeInfo (.received key bs) (.callback key info)
  | .debug rest => s.mailProto (.received key bs) (.debug key rest)
  | .ignored => { s with log := s.log ++ [.received key bs] }

/-! ## Sections -/

/-- `info.timer.Stop()`. -/
def State.stopTimer (s : State) (info : Nat) : State :=
  { s with
    infos := Function.update s.infos info ((s.infos info).map fun (slot, timer) =>
      (slot, timer.stop)) }

/-- `PacketConn.WriteTo`. -/
def State.write (s : State) (key : KeyArray) (packet : Bytes) : State :=
  { s with written := s.written ++ [(key, packet)] }

/-- Run a callback on a channel that has room. -/
def State.invoke (s : State) (callback source : Nat) (payload : Bytes) : State :=
  { s with
    channels := callback :: s.channels
    log := s.log ++ [.invoked callback source payload] }

/-- The section of a `sendGet..Request`. -/
def State.makeRequest (s : State) (kind : DebugKind) (key : KeyArray) (info : Nat) : State :=
  let s := match s.requests (kind, key) with
    | some old =>
        { s.stopTimer old with requests := Function.update s.requests (kind, key) none }
    | none => s
  let s :=
    { s with
      infos := Function.update s.infos info (some ((kind, key), .armed))
      requests := Function.update s.requests (kind, key) (some info) }
  s.write key (sendDebug kind.requestType [])

/-- The function that the timer of a request posts. -/
def State.expire (s : State) (kind : DebugKind) (key : KeyArray) (info : Nat) : State :=
  if s.requests (kind, key) = some info then
    { s with requests := Function.update s.requests (kind, key) none }
  else
    s

/-- The three `_handleGet..Response` functions. -/
def State.handleResponse (s : State) (kind : DebugKind) (key : KeyArray) (source : Nat)
    (bs : Bytes) : State :=
  match s.requests (kind, key) with
  | some info =>
      if info ∈ s.channels then
        { s.stopTimer info with stalled := true }
      else
        { (s.stopTimer info).invoke info source bs with
          requests := Function.update s.requests (kind, key) none }
  | none => s

/-- `_handleGetSelfResponse`. -/
def State.handleGetSelfResponse (s : State) (key : KeyArray) (source : Nat) (bs : Bytes) :
    State :=
  s.handleResponse .self key source bs

/-- `_handleGetPeersResponse`. -/
def State.handleGetPeersResponse (s : State) (key : KeyArray) (source : Nat) (bs : Bytes) :
    State :=
  s.handleResponse .peers key source bs

/-- `_handleGetTreeResponse`. -/
def State.handleGetTreeResponse (s : State) (key : KeyArray) (source : Nat) (bs : Bytes) :
    State :=
  s.handleResponse .tree key source bs

/-- The response functions by kind. -/
def State.handleGetResponse (s : State) : DebugKind → KeyArray → Nat → Bytes → State
  | .self => s.handleGetSelfResponse
  | .peers => s.handleGetPeersResponse
  | .tree => s.handleGetTreeResponse

/-- One function of the inbox of the protocol actor. -/
def State.protoSection (s : State) (env : Environment) (mail : Mail ProtoTask) : State :=
  match mail.task with
  | .request kind key => s.makeRequest kind key mail.time
  | .expire kind key info => s.expire kind key info
  | .debug key bs =>
      match handleDebug bs with
      | .request kind =>
          match env.handleRequest kind with
          | some packet => s.write key packet
          | none => s
      | .response kind payload => s.handleGetResponse kind key mail.time payload
      | .ignored => s

/-- `_sendReq`, with `_addCallback` if there is a callback. -/
def State.sendReqSection (s : State) (key : KeyArray) (callback : Bool) (call : Nat) : State :=
  let s :=
    if callback then
      { s with callbacks := Function.update s.callbacks key (some ⟨call, s.clock⟩) }
    else
      s
  s.write key [typeSessionProto, typeProtoNodeInfoRequest]

/-- `_callback`. -/
def State.callback (s : State) (sender : KeyArray) (source : Nat) (info : Bytes) : State :=
  match s.callbacks sender with
  | some callback =>
      if callback.call ∈ s.channels then
        { s with stalled := true }
      else
        { s.invoke callback.call source info with
          callbacks := Function.update s.callbacks sender none }
  | none => s

/-- A minute of the clock, which counts seconds. -/
def minute : Nat := 60

/-- `_cleanup`. -/
def State.cleanup (s : State) : State :=
  { s with
    callbacks := fun key =>
      (s.callbacks key).filter fun callback => !decide (s.clock - callback.created > minute)
    cleanupArmed := true }

/-- One function of the inbox of the node info actor. -/
def State.nodeInfoSection (s : State) (env : Environment) (mail : Mail NodeInfoTask) : State :=
  match mail.task with
  | .sendReq key callback => s.sendReqSection key callback mail.time
  | .sendRes key => s.write key ([typeSessionProto, typeProtoNodeInfoResponse] ++ env.nodeInfo)
  | .callback key info => s.callback key mail.time info
  | .cleanup => s.cleanup

/-! ## Transitions -/

/-- What can happen.  `take` is the caller reading from the channel of its callback. -/
inductive Event where
  | sendRequest (kind : DebugKind) (key : KeyArray)
  | sendReq (key : KeyArray) (callback : Bool)
  | receive (key : KeyArray) (bs : Bytes)
  | fire (info : Nat)
  | post (info : Nat)
  | cleanupDue
  | runProto (env : Environment)
  | runNodeInfo (env : Environment)
  | take (callback : Nat)
  | tick

/-- The transition function.  Nothing runs once an actor has stalled. -/
def State.next : Step State Event
  | s, .sendRequest kind key => some (s.sendGetRequest kind key)
  | s, .sendReq key callback => some (s.sendReq key callback)
  | s, .receive key bs => some (s.receive key bs)
  | s, .fire info =>
      match s.infos info with
      | some (slot, .armed) =>
          some { s with infos := Function.update s.infos info (some (slot, .fired)) }
      | _ => none
  | s, .post info =>
      match s.infos info with
      | some (slot, .fired) =>
          some ({ s with infos := Function.update s.infos info (some (slot, .posted)) }.mailProto
            .posted (.expire slot.1 slot.2 info))
      | _ => none
  | s, .cleanupDue =>
      if s.cleanupArmed then
        some ({ s with cleanupArmed := false }.mailNodeInfo .posted .cleanup)
      else
        none
  | s, .runProto env =>
      match s.stalled, s.protoInbox with
      | false, mail :: rest => some ({ s with protoInbox := rest }.protoSection env mail)
      | _, _ => none
  | s, .runNodeInfo env =>
      match s.stalled, s.nodeInfoInbox with
      | false, mail :: rest => some ({ s with nodeInfoInbox := rest }.nodeInfoSection env mail)
      | _, _ => none
  | s, .take callback =>
      if callback ∈ s.channels then
        some { s with channels := s.channels.filter (· ≠ callback) }
      else
        none
  | s, .tick => some { s with clock := s.clock + 1 }

@[simp]
theorem State.sendGetRequest_eq (s : State) (kind : DebugKind) (key : KeyArray) :
    s.sendGetRequest kind key = s.sendRequest kind key := by
  cases kind <;> rfl

@[simp]
theorem State.handleGetResponse_eq (s : State) (kind : DebugKind) (key : KeyArray)
    (source : Nat) (bs : Bytes) :
    s.handleGetResponse kind key source bs = s.handleResponse kind key source bs := by
  cases kind <;> rfl

/-! ## The ledger of the two actors -/

/-- The actors of `protoHandler` and of `nodeinfo`. -/
inductive Actor where
  | proto
  | nodeInfo
  deriving DecidableEq, Repr

/-- The actor that has the table of a kind. -/
def owner : Kind × KeyArray → Actor
  | (.debug _, _) => .proto
  | (.nodeInfo, _) => .nodeInfo

/-- What a task of the protocol handler does to the tables of callbacks. -/
def ProtoTask.job : ProtoTask → Job (Kind × KeyArray) Bytes
  | .request kind key => .register (.debug kind, key)
  | .expire _ _ _ => .other
  | .debug key bs =>
      match handleDebug bs with
      | .response kind payload => .answer (.debug kind, key) payload
      | _ => .other

/-- What a task of `nodeinfo` does to its table of callbacks. -/
def NodeInfoTask.job : NodeInfoTask → Job (Kind × KeyArray) Bytes
  | .sendReq key true => .register (.nodeInfo, key)
  | .callback key info => .answer (.nodeInfo, key) info
  | _ => .other

/-- What the log says about requests and answers. -/
def LogEntry.entry : LogEntry → Entry (Kind × KeyArray) Bytes
  | .called kind key => .requested (kind, key)
  | .received key bs =>
      match responseOf bs with
      | some (kind, payload) => .answered (kind, key) payload
      | none => .noted
  | .invoked callback source payload => .invoked callback source payload
  | .posted => .noted

/-- The four tables as one. -/
def pendingOf (requests : DebugKind × KeyArray → Option Nat)
    (callbacks : KeyArray → Option NodeInfoCallback) : Kind × KeyArray → Option Nat
  | (.debug kind, key) => requests (kind, key)
  | (.nodeInfo, key) => (callbacks key).map NodeInfoCallback.call

/-- The callback that waits for a response of a kind from a key. -/
def State.pending (s : State) : Kind × KeyArray → Option Nat :=
  pendingOf s.requests s.callbacks

/-- The inbox of an actor, as far as the tables of callbacks are concerned. -/
def State.queue (s : State) : Actor → List (Nat × Job (Kind × KeyArray) Bytes)
  | .proto => s.protoInbox.map fun mail => (mail.time, mail.task.job)
  | .nodeInfo => s.nodeInfoInbox.map fun mail => (mail.time, mail.task.job)

/-- The state as a ledger of requests and answers. -/
def State.ledger (s : State) : Ledger Actor (Kind × KeyArray) Bytes where
  pending := s.pending
  queue := s.queue
  journal := s.log.map LogEntry.entry

theorem ProtoTask.job_for (task : ProtoTask) : task.job.For owner .proto := by
  cases task with
  | request kind key => rfl
  | expire kind key info => trivial
  | debug key bs =>
      unfold ProtoTask.job
      dsimp only
      split
      · rfl
      · trivial

theorem NodeInfoTask.job_for (task : NodeInfoTask) : task.job.For owner .nodeInfo := by
  cases task with
  | sendReq key callback => cases callback <;> trivial
  | sendRes key => trivial
  | callback key info => rfl
  | cleanup => trivial

theorem State.ledger_mailProto (s : State) {entry : LogEntry} {task : ProtoTask}
    (recorded : entry.entry = task.job.entry) :
    (s.mailProto entry task).ledger = s.ledger.post .proto task.job := by
  refine Ledger.ext rfl (funext fun actor => ?_) ?_
  · cases actor <;> simp [State.ledger, State.queue, State.mailProto, Ledger.post]
  · simp [State.ledger, State.mailProto, Ledger.post, recorded]

theorem State.ledger_mailNodeInfo (s : State) {entry : LogEntry} {task : NodeInfoTask}
    (recorded : entry.entry = task.job.entry) :
    (s.mailNodeInfo entry task).ledger = s.ledger.post .nodeInfo task.job := by
  refine Ledger.ext rfl (funext fun actor => ?_) ?_
  · cases actor <;> simp [State.ledger, State.queue, State.mailNodeInfo, Ledger.post]
  · simp [State.ledger, State.mailNodeInfo, Ledger.post, recorded]

/-- A step that the ledger takes as well or does not see. -/
structure State.Follows (s target : State) : Prop where
  ledger : target.ledger = s.ledger ∨ s.ledger.Step owner target.ledger
  channels : ∀ callback ∈ target.channels,
    callback ∈ s.channels ∨ ¬Unused target.ledger.journal callback
  stalled : target.stalled = s.stalled

/-- The ledger is sound, a channel holds a value only after its callback was invoked, and
no actor has stalled. -/
structure State.Sound (s : State) : Prop where
  ledger : s.ledger.Sound owner
  channels : ∀ callback ∈ s.channels, ¬Unused s.ledger.journal callback
  running : s.stalled = false

theorem State.Sound.of_follows {s target : State} (sound : s.Sound) (follows : s.Follows target) :
    target.Sound := by
  have grown : ∃ entries, target.ledger.journal = s.ledger.journal ++ entries := by
    rcases follows.ledger with same | step
    · exact ⟨[], by rw [same, List.append_nil]⟩
    · exact step.exists_journal
  refine ⟨?_, fun callback full unused => ?_, follows.stalled.trans sound.running⟩
  · rcases follows.ledger with same | step
    · exact same ▸ sound.ledger
    · exact sound.ledger.step step
  · rcases follows.channels callback full with before | used
    · obtain ⟨entries, grown⟩ := grown
      refine sound.channels callback before fun time source payload found => ?_
      exact unused time source payload (grown ▸ getElem?_append_of_some found)
    · exact used unused

/-! ## Sections in the ledger -/

section Tables

variable {requests : DebugKind × KeyArray → Option Nat}
  {callbacks : KeyArray → Option NodeInfoCallback}

theorem pendingOf_update_requests (kind : DebugKind) (key : KeyArray) (info : Option Nat) :
    pendingOf (Function.update requests (kind, key) info) callbacks =
      Function.update (pendingOf requests callbacks) (.debug kind, key) info := by
  funext slot
  rcases slot with ⟨kind' | _, key'⟩
  · by_cases same : (kind', key') = (kind, key)
    · cases same
      simp [pendingOf]
    · have other : ((.debug kind', key') : Kind × KeyArray) ≠ (.debug kind, key) := by
        simpa using same
      simp [pendingOf, Function.update_of_ne same, Function.update_of_ne other]
  · simp [pendingOf]

theorem pendingOf_update_callbacks (key : KeyArray) (callback : Option NodeInfoCallback) :
    pendingOf requests (Function.update callbacks key callback) =
      Function.update (pendingOf requests callbacks) (.nodeInfo, key)
        (callback.map NodeInfoCallback.call) := by
  funext slot
  rcases slot with ⟨kind' | _, key'⟩
  · simp [pendingOf]
  · by_cases same : key' = key
    · subst same
      simp [pendingOf]
    · simp [pendingOf, same]

end Tables

section Sections

variable {s : State}

/-- What a request changes beside its timers. -/
theorem State.makeRequest_eq (s : State) (kind : DebugKind) (key : KeyArray) (info : Nat) :
    ∃ infos, s.makeRequest kind key info =
      { s with
        requests := Function.update s.requests (kind, key) (some info)
        infos := infos
        written := s.written ++ [(key, sendDebug kind.requestType [])] } := by
  unfold State.makeRequest State.write
  cases s.requests (kind, key) with
  | none => exact ⟨_, rfl⟩
  | some old =>
      exact ⟨Function.update (s.stopTimer old).infos info (some ((kind, key), .armed)),
        by simp [State.stopTimer]⟩

/-- A message of the protocol actor that is worked off. -/
theorem State.ledger_protoInbox {mail : Mail ProtoTask} {rest : List (Mail ProtoTask)}
    (next : s.protoInbox = mail :: rest) :
    State.ledger { s with protoInbox := rest } = s.ledger.pop .proto := by
  refine Ledger.ext rfl (funext fun actor => ?_) rfl
  cases actor <;> simp [State.ledger, State.queue, Ledger.pop, next]

theorem State.ledger_nodeInfoInbox {mail : Mail NodeInfoTask} {rest : List (Mail NodeInfoTask)}
    (next : s.nodeInfoInbox = mail :: rest) :
    State.ledger { s with nodeInfoInbox := rest } = s.ledger.pop .nodeInfo := by
  refine Ledger.ext rfl (funext fun actor => ?_) rfl
  cases actor <;> simp [State.ledger, State.queue, Ledger.pop, next]

theorem State.queue_proto {mail : Mail ProtoTask} {rest : List (Mail ProtoTask)}
    (next : s.protoInbox = mail :: rest) :
    s.ledger.queue .proto = (mail.time, mail.task.job) ::
      rest.map fun mail => (mail.time, mail.task.job) := by
  simp [State.ledger, State.queue, next]

theorem State.queue_nodeInfo {mail : Mail NodeInfoTask} {rest : List (Mail NodeInfoTask)}
    (next : s.nodeInfoInbox = mail :: rest) :
    s.ledger.queue .nodeInfo = (mail.time, mail.task.job) ::
      rest.map fun mail => (mail.time, mail.task.job) := by
  simp [State.ledger, State.queue, next]

/-- A section that only drops callbacks. -/
theorem State.Follows.of_drop {actor : Actor} {mail : Nat × Job (Kind × KeyArray) Bytes}
    {rest : List (Nat × Job (Kind × KeyArray) Bytes)} {popped target : State}
    (next : s.ledger.queue actor = mail :: rest) (pop : popped.ledger = s.ledger.pop actor)
    (queue : target.queue = popped.queue) (log : target.log = popped.log)
    (kept : ∀ slot callback, target.pending slot = some callback → s.pending slot = some callback)
    (channels : target.channels = s.channels) (stalled : target.stalled = s.stalled) :
    s.Follows target := by
  have dropped : target.ledger = { s.ledger.pop actor with pending := target.pending } := by
    rw [← pop]
    exact Ledger.ext rfl queue (congrArg (List.map LogEntry.entry) log)
  refine ⟨.inr ?_, fun callback full => .inl (channels ▸ full), stalled⟩
  rw [dropped]
  exact .drop next kept

/-- A section that puts a callback into its slot. -/
theorem State.Follows.of_register {actor : Actor} {time : Nat} {slot : Kind × KeyArray}
    {rest : List (Nat × Job (Kind × KeyArray) Bytes)} {popped target : State}
    (next : s.ledger.queue actor = (time, .register slot) :: rest)
    (pop : popped.ledger = s.ledger.pop actor) (queue : target.queue = popped.queue)
    (log : target.log = popped.log)
    (pending : target.pending = Function.update s.pending slot (some time))
    (channels : target.channels = s.channels) (stalled : target.stalled = s.stalled) :
    s.Follows target := by
  have registered : target.ledger =
      { s.ledger.pop actor with
        pending := Function.update s.ledger.pending slot (some time) } := by
    rw [← pop]
    exact Ledger.ext pending queue (congrArg (List.map LogEntry.entry) log)
  refine ⟨.inr ?_, fun callback full => .inl (channels ▸ full), stalled⟩
  rw [registered]
  exact .register next

/-- A section that invokes the callback in a slot and takes it out. -/
theorem State.Follows.of_answer {actor : Actor} {time : Nat} {slot : Kind × KeyArray}
    {payload : Bytes} {rest : List (Nat × Job (Kind × KeyArray) Bytes)} {callback : Nat}
    {popped target : State} (next : s.ledger.queue actor = (time, .answer slot payload) :: rest)
    (found : s.pending slot = some callback) (pop : popped.ledger = s.ledger.pop actor)
    (queue : target.queue = popped.queue)
    (log : target.log = popped.log ++ [.invoked callback time payload])
    (pending : target.pending = Function.update s.pending slot none)
    (channels : target.channels = callback :: s.channels) (stalled : target.stalled = s.stalled) :
    s.Follows target := by
  have journal : target.ledger.journal =
      popped.ledger.journal ++ [.invoked callback time payload] := by
    simp [State.ledger, log, LogEntry.entry]
  have answered : target.ledger =
      { s.ledger.pop actor with
        pending := Function.update s.ledger.pending slot none
        journal := s.ledger.journal ++ [.invoked callback time payload] } := by
    rw [pop] at journal
    exact Ledger.ext pending (queue.trans (congrArg Ledger.queue pop)) journal
  refine ⟨.inr ?_, fun other full => ?_, stalled⟩
  · rw [answered]
    exact .answer next found
  · rw [channels] at full
    rcases List.mem_cons.mp full with rfl | before
    · refine .inr fun unused => unused popped.ledger.journal.length time payload ?_
      rw [journal, List.getElem?_concat_length]
    · exact .inl before

/-- A callback in a table has an empty channel. -/
theorem State.Sound.not_mem_channels (sound : s.Sound) {slot : Kind × KeyArray} {callback : Nat}
    (stored : s.pending slot = some callback) : callback ∉ s.channels :=
  fun full => sound.channels callback full (sound.ledger.waiting slot callback stored).2.1

/-- The sections of the protocol actor. -/
theorem State.Sound.follows_protoSection (sound : s.Sound) {mail : Mail ProtoTask}
    {rest : List (Mail ProtoTask)} (next : s.protoInbox = mail :: rest) (env : Environment) :
    s.Follows (State.protoSection { s with protoInbox := rest } env mail) := by
  have pop := State.ledger_protoInbox next
  have head := State.queue_proto next
  obtain ⟨time, task⟩ := mail
  cases task with
  | request kind key =>
      obtain ⟨infos, made⟩ := State.makeRequest_eq { s with protoInbox := rest } kind key time
      simp only [State.protoSection, made]
      exact .of_register head pop rfl rfl (pendingOf_update_requests ..) rfl rfl
  | expire kind key info =>
      simp only [State.protoSection, State.expire]
      split
      · refine .of_drop head pop rfl rfl (fun slot callback stored => ?_) rfl rfl
        have stored : pendingOf (Function.update s.requests (kind, key) none) s.callbacks slot =
          some callback := stored
        rw [pendingOf_update_requests] at stored
        exact eq_some_of_update_none stored
      · exact .of_drop head pop rfl rfl (fun _ _ stored => stored) rfl rfl
  | debug key bs =>
      simp only [State.protoSection]
      cases message : handleDebug bs with
      | request kind =>
          dsimp only
          split
          · exact .of_drop head pop rfl rfl (fun _ _ stored => stored) rfl rfl
          · exact .of_drop head pop rfl rfl (fun _ _ stored => stored) rfl rfl
      | ignored => exact .of_drop head pop rfl rfl (fun _ _ stored => stored) rfl rfl
      | response kind payload =>
          simp only [State.handleGetResponse_eq, State.handleResponse]
          have head : s.ledger.queue .proto = (time, .answer (.debug kind, key) payload) ::
              rest.map fun mail => (mail.time, mail.task.job) := by
            simpa [ProtoTask.job, message] using head
          cases found : s.requests (kind, key) with
          | none => exact .of_drop head pop rfl rfl (fun _ _ stored => stored) rfl rfl
          | some info =>
              have stored : s.pending (.debug kind, key) = some info := found
              dsimp only
              rw [if_neg (sound.not_mem_channels stored)]
              exact .of_answer head stored pop rfl rfl (pendingOf_update_requests ..) rfl rfl

/-- The sections of the node info actor. -/
theorem State.Sound.follows_nodeInfoSection (sound : s.Sound) {mail : Mail NodeInfoTask}
    {rest : List (Mail NodeInfoTask)} (next : s.nodeInfoInbox = mail :: rest)
    (env : Environment) :
    s.Follows (State.nodeInfoSection { s with nodeInfoInbox := rest } env mail) := by
  have pop := State.ledger_nodeInfoInbox next
  have head := State.queue_nodeInfo next
  obtain ⟨time, task⟩ := mail
  cases task with
  | sendReq key callback =>
      cases callback with
      | true => exact .of_register head pop rfl rfl (pendingOf_update_callbacks ..) rfl rfl
      | false => exact .of_drop head pop rfl rfl (fun _ _ stored => stored) rfl rfl
  | sendRes key => exact .of_drop head pop rfl rfl (fun _ _ stored => stored) rfl rfl
  | callback key info =>
      simp only [State.nodeInfoSection, State.callback]
      cases found : s.callbacks key with
      | none => exact .of_drop head pop rfl rfl (fun _ _ stored => stored) rfl rfl
      | some callback =>
          have stored : s.pending (.nodeInfo, key) = some callback.call := by
            simp [State.pending, pendingOf, found]
          dsimp only
          rw [if_neg (sound.not_mem_channels stored)]
          exact .of_answer head stored pop rfl rfl (pendingOf_update_callbacks ..) rfl rfl
  | cleanup =>
      refine .of_drop head pop rfl rfl (fun slot callback stored => ?_) rfl rfl
      rcases slot with ⟨kind | _, key⟩
      · exact stored
      · obtain ⟨entry, kept, called⟩ := Option.map_eq_some_iff.mp stored
        exact Option.map_eq_some_iff.mpr ⟨entry, (Option.filter_eq_some_iff.mp kept).1, called⟩

theorem State.follows_mailProto (s : State) {entry : LogEntry} {task : ProtoTask}
    (recorded : entry.entry = task.job.entry) : s.Follows (s.mailProto entry task) where
  ledger := .inr (s.ledger_mailProto recorded ▸ .post task.job_for)
  channels _ full := .inl full
  stalled := rfl

theorem State.follows_mailNodeInfo (s : State) {entry : LogEntry} {task : NodeInfoTask}
    (recorded : entry.entry = task.job.entry) : s.Follows (s.mailNodeInfo entry task) where
  ledger := .inr (s.ledger_mailNodeInfo recorded ▸ .post task.job_for)
  channels _ full := .inl full
  stalled := rfl

/-- A message is posted as what it is, or only noted. -/
theorem State.follows_receive (s : State) (key : KeyArray) (bs : Bytes) :
    s.Follows (s.receive key bs) := by
  have entry : (LogEntry.received key bs).entry =
      match responseOf bs with
      | some (kind, payload) => .answered (kind, key) payload
      | none => .noted := rfl
  unfold State.receive
  unfold responseOf at entry
  cases message : handleProto bs with
  | nodeInfoRequest => exact s.follows_mailNodeInfo (by rw [entry, message]; rfl)
  | nodeInfoResponse info => exact s.follows_mailNodeInfo (by rw [entry, message]; rfl)
  | debug rest =>
      refine s.follows_mailProto ?_
      rw [entry, message]
      unfold ProtoTask.job
      dsimp only
      cases handleDebug rest <;> rfl
  | ignored =>
      refine ⟨.inr ?_, fun _ full => .inl full, rfl⟩
      have noted : State.ledger { s with log := s.log ++ [.received key bs] } =
          { s.ledger with journal := s.ledger.journal ++ [.noted] } := by
        refine Ledger.ext rfl rfl ?_
        simp [State.ledger, entry, message]
      rw [noted]
      exact .note

/-- Every step of the actors is a step of the ledger or leaves it as it is. -/
theorem State.Sound.follows {target : State} {event : Event} (sound : s.Sound)
    (step : s.next event = some target) : s.Follows target := by
  have unseen : ∀ state : State, state.ledger = s.ledger → state.channels = s.channels →
      state.stalled = s.stalled → s.Follows state :=
    fun state ledger channels stalled =>
      ⟨.inl ledger, fun callback full => .inl (channels ▸ full), stalled⟩
  cases event with
  | sendRequest kind key =>
      simp only [State.next, State.sendGetRequest_eq, Option.some.injEq] at step
      exact step ▸ s.follows_mailProto rfl
  | sendReq key callback =>
      simp only [State.next, Option.some.injEq] at step
      refine step ▸ s.follows_mailNodeInfo ?_
      cases callback <;> rfl
  | receive key bs =>
      cases step
      exact s.follows_receive key bs
  | fire info =>
      simp only [State.next] at step
      split at step <;> cases step
      exact unseen _ rfl rfl rfl
  | post info =>
      simp only [State.next] at step
      split at step
      case h_1 slot fired =>
        cases step
        have mailed := @State.follows_mailProto
          { s with infos := Function.update s.infos info (some (slot, .posted)) } .posted
          (.expire slot.1 slot.2 info) rfl
        exact ⟨mailed.ledger, mailed.channels, mailed.stalled⟩
      case h_2 => cases step
  | cleanupDue =>
      obtain ⟨-, stepped⟩ := Option.ite_none_right_eq_some.mp step
      cases stepped
      have mailed :=
        @State.follows_mailNodeInfo { s with cleanupArmed := false } .posted .cleanup rfl
      exact ⟨mailed.ledger, mailed.channels, mailed.stalled⟩
  | runProto env =>
      simp only [State.next] at step
      split at step <;> cases step
      exact sound.follows_protoSection ‹_› env
  | runNodeInfo env =>
      simp only [State.next] at step
      split at step <;> cases step
      exact sound.follows_nodeInfoSection ‹_› env
  | take callback =>
      obtain ⟨-, stepped⟩ := Option.ite_none_right_eq_some.mp step
      cases stepped
      exact ⟨.inl rfl, fun other full => .inl (List.mem_filter.mp full).1, rfl⟩
  | tick =>
      cases step
      exact unseen _ rfl rfl rfl

theorem State.Sound.next {target : State} {event : Event} (sound : s.Sound)
    (step : s.next event = some target) : target.Sound :=
  sound.of_follows (sound.follows step)

end Sections

/-! ## Runs -/

/-- Every callback that was invoked got the payload of a response of its kind, which came
from its key after it was passed; none was invoked twice, and no actor has stalled. -/
structure State.Answered (s : State) : Prop where
  own : ∀ (time callback source : Nat) (payload : Bytes),
    s.log[time]? = some (.invoked callback source payload) →
      ∃ kind key bs, s.log[callback]? = some (.called kind key) ∧
        s.log[source]? = some (.received key bs) ∧ responseOf bs = some (kind, payload) ∧
          callback < source ∧ source < time
  once : ∀ (first second callback source source' : Nat) (payload payload' : Bytes),
    s.log[first]? = some (.invoked callback source payload) →
      s.log[second]? = some (.invoked callback source' payload') → first = second
  running : s.stalled = false

/-- The function of a timer removes no callback but that of its own request, and a
clean-up no callback but those older than a minute. -/
structure State.ExpiresOwn (s : State) (event : Event) : Prop where
  timer : ∀ env time kind key info rest target, event = .runProto env →
    s.protoInbox = ⟨time, .expire kind key info⟩ :: rest → s.next event = some target →
      ∀ slot callback, s.pending slot = some callback → callback ≠ info →
        target.pending slot = some callback
  cleanup : ∀ env time rest target, event = .runNodeInfo env →
    s.nodeInfoInbox = ⟨time, .cleanup⟩ :: rest → s.next event = some target →
      (∀ kind key, target.pending (.debug kind, key) = s.pending (.debug kind, key)) ∧
        ∀ key callback, s.callbacks key = some callback →
          s.clock - callback.created ≤ minute → target.callbacks key = some callback

theorem LogEntry.entry_eq_requested {entry : LogEntry} {slot : Kind × KeyArray}
    (requested : entry.entry = .requested slot) : entry = .called slot.1 slot.2 := by
  cases entry with
  | called kind key =>
      cases requested
      rfl
  | received key bs =>
      unfold LogEntry.entry at requested
      dsimp only at requested
      split at requested <;> cases requested
  | invoked callback source payload => cases requested
  | posted => cases requested

theorem LogEntry.entry_eq_answered {entry : LogEntry} {slot : Kind × KeyArray} {payload : Bytes}
    (answered : entry.entry = .answered slot payload) :
    ∃ bs, entry = .received slot.2 bs ∧ responseOf bs = some (slot.1, payload) := by
  cases entry with
  | called kind key => cases answered
  | received key bs =>
      unfold LogEntry.entry at answered
      dsimp only at answered
      split at answered <;> cases answered
      exact ⟨bs, rfl, ‹_›⟩
  | invoked callback source payload => cases answered
  | posted => cases answered

theorem State.Sound.answered {s : State} (sound : s.Sound) : s.Answered where
  own time callback source payload invoked := by
    have journal : s.ledger.journal[time]? = some (.invoked callback source payload) := by
      simp [State.ledger, invoked, LogEntry.entry]
    obtain ⟨slot, requested, answered, order⟩ := sound.ledger.genuine.own _ _ _ _ journal
    simp only [State.ledger, List.getElem?_map, Option.map_eq_some_iff] at requested answered
    obtain ⟨call, calledAt, call'⟩ := requested
    obtain ⟨response, receivedAt, response'⟩ := answered
    cases LogEntry.entry_eq_requested call'
    obtain ⟨bs, rfl, parsed⟩ := LogEntry.entry_eq_answered response'
    exact ⟨slot.1, slot.2, bs, calledAt, receivedAt, parsed, order⟩
  once first second callback source source' payload payload' found found' := by
    refine sound.ledger.genuine.once first second callback source source' payload payload' ?_ ?_
    · simp [State.ledger, found, LogEntry.entry]
    · simp [State.ledger, found', LogEntry.entry]
  running := sound.running

theorem State.expiresOwn (s : State) (event : Event) : s.ExpiresOwn event where
  timer env time kind key info rest target run head step slot callback stored other := by
    subst run
    simp only [State.next, head] at step
    split at step
    case h_1 mail rest' running same =>
      cases same
      cases step
      simp only [State.protoSection, State.expire]
      split
      case isTrue own =>
        have kept : slot ≠ (.debug kind, key) := by
          rintro rfl
          exact other (Option.some.inj (stored.symm.trans own))
        have unchanged : Function.update (pendingOf s.requests s.callbacks) (.debug kind, key) none
            slot = some callback := (Function.update_of_ne kept ..).trans stored
        rw [← pendingOf_update_requests] at unchanged
        exact unchanged
      case isFalse => exact stored
    case h_2 => cases step
  cleanup env time rest target run head step := by
    subst run
    simp only [State.next, head] at step
    split at step
    case h_1 mail rest' running same =>
      cases same
      cases step
      refine ⟨fun _ _ => rfl, fun key callback stored young => ?_⟩
      refine Option.filter_eq_some_iff.mpr ⟨stored, ?_⟩
      simpa using young
    case h_2 => cases step

theorem State.init_sound : State.init.Sound where
  ledger :=
    { ordered := fun actor => by cases actor <;> simp [State.ledger, State.queue, State.init]
      posted := fun actor mail queued => by
        cases actor with
        | proto => simp [State.ledger, State.queue, State.init] at queued
        | nodeInfo =>
            have first : mail = (0, .other) := by
              simpa [State.ledger, State.queue, State.init, NodeInfoTask.job] using queued
            exact first ▸ ⟨rfl, trivial⟩
      waiting := fun slot callback stored => by
        rcases slot with ⟨kind | _, key⟩ <;> cases stored
      unregistered := fun actor time slot queued => by
        cases actor with
        | proto => simp [State.ledger, State.queue, State.init] at queued
        | nodeInfo =>
            simp [State.ledger, State.queue, State.init, NodeInfoTask.job] at queued
      genuine :=
        { own := fun time callback source payload found => by
            cases List.mem_singleton.mp (List.mem_of_getElem? found)
          once := fun first second callback source source' payload payload' found _ => by
            cases List.mem_singleton.mp (List.mem_of_getElem? found) } }
  channels _ full := by cases full
  running := rfl

/-- In every run of the two actors callbacks are invoked at most once, each with a
response of its own kind from its own key that came after it; expiries remove nothing
but their own requests; and no callback stalls an actor. -/
theorem remoteQueries_answered (events : List Event) :
    Throughout State.next State.Answered State.init events ∧
      EveryStep State.next State.ExpiresOwn State.init events :=
  ⟨(throughout_of_step events State.init_sound fun sound step => sound.next step).mono
      fun _ sound => sound.answered,
    everyStep_of_forall State.expiresOwn State.init events⟩

/-- Of two requests to one key the second is answered, and a second answer is dropped. -/
example :
    (run State.next State.init
      [.sendRequest .tree (Vector.replicate 32 7), .sendRequest .tree (Vector.replicate 32 7),
        .runProto ⟨1280, none, [], [], []⟩, .runProto ⟨1280, none, [], [], []⟩,
        .receive (Vector.replicate 32 7) [255, 6, 1], .receive (Vector.replicate 32 7) [255, 6, 2],
        .runProto ⟨1280, none, [], [], []⟩, .runProto ⟨1280, none, [], [], []⟩]).map
      (fun state => state.log.drop 3) =
      some [.received (Vector.replicate 32 7) [255, 6, 1],
        .received (Vector.replicate 32 7) [255, 6, 2], .invoked 2 3 [1]] := by
  decide

end Uqda.Proto
