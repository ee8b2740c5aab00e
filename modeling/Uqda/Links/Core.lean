import Uqda.Transition.Core
import Mathlib.Data.List.Basic
import Mathlib.Logic.Function.Basic

/-!
# The links actor and its goroutines

The embedding of the peering part of `src/core/link.go`: the link table
`_links`, the sections that `links.add`, `links.remove` and `links.listen` run
on the links actor, and the goroutines they start.  Each `phony.Block` section
is one event, so a run is an arbitrary interleaving of sections with what
happens between them: dial results, handlers returning and goroutines waking.

Link records are shared through pointers.  A pointer is an index into a list of
records that only grows, and two pointers are equal when the indices are.
Connections are numbered as they are wrapped.  How long a goroutine waits is
left open: the timer or a kick may wake it whenever it is backing off, so a kick
has no event of its own.  The error texts stored for the admin socket and the
byte counters are left out.
-/

namespace Uqda.Links

open Uqda.Transition

/-- `linkInfo`, the key of the link table. -/
structure LinkInfo where
  uri : String
  sintf : String
  deriving DecidableEq, Repr

/-- `linkType`. -/
inductive LinkType where
  | persistent
  | ephemeral
  | incoming
  deriving DecidableEq, Repr

/-- The errors that the modelled sections return. -/
inductive LinkError where
  | alreadyConfigured
  | notConfigured
  | priorityInvalid
  | pinnedKeyInvalid
  | passwordInvalid
  | securityInvalid
  | unrecognisedSchema
  | maxBackoffInvalid
  deriving DecidableEq, Repr

/-- The text of an error. -/
def LinkError.error : LinkError → String
  | .alreadyConfigured => "peer is already configured"
  | .notConfigured => "peer is not configured"
  | .priorityInvalid => "priority value is invalid"
  | .pinnedKeyInvalid => "pinned public key is invalid"
  | .passwordInvalid => "invalid password supplied"
  | .securityInvalid => "invalid secure handshake policy"
  | .unrecognisedSchema => "link schema unknown"
  | .maxBackoffInvalid => "max backoff duration invalid"

/-- `link`.  The flag `cancel` says whether the record has a context and a
cancel function, and `cancelled` whether that function has been called. -/
structure Link where
  linkType : LinkType
  cancel : Bool
  cancelled : Bool := false
  conn : Option Nat := none
  deriving DecidableEq, Repr

/-- What the goroutines share: the link table, the link records, the number of
connections wrapped so far and the core context. -/
structure Table where
  links : LinkInfo → Option Nat
  heap : List Link
  conns : Nat
  coreCancelled : Bool

/-- The record stored under a key, if the entry exists and is not nil. -/
def Table.stored (table : Table) (info : LinkInfo) : Option (Nat × Link) :=
  (table.links info).bind fun id => table.heap[id]?.map fun link => (id, link)

/-- `l._links[info] = state`. -/
def Table.store (table : Table) (info : LinkInfo) (id : Nat) : Table :=
  { table with links := Function.update table.links info (some id) }

/-- `&link{..}`: the new record's index is the number of records before. -/
def Table.alloc (table : Table) (link : Link) : Table :=
  { table with heap := table.heap ++ [link] }

/-- `state._conn = conn`. -/
def Table.setConn (table : Table) (id : Nat) (conn : Option Nat) : Table :=
  { table with heap := table.heap.modify id fun link => { link with conn := conn } }

/-- `state.cancel()` on a record that has a cancel function. -/
def Table.cancelLink (table : Table) (id : Nat) : Table :=
  { table with heap := table.heap.modify id fun link => { link with cancelled := true } }

/-- `&linkConn{..}`. -/
def Table.wrap (table : Table) : Table :=
  { table with conns := table.conns + 1 }

/-- The deferred section of both goroutines: the entry is deleted if it still
holds the goroutine's record. -/
def Table.release (table : Table) (info : LinkInfo) (id : Nat) : Table :=
  if table.links info = some id then
    { table with links := Function.update table.links info none }
  else
    table

/-- Whether the context of a link is done.  It derives from the core context. -/
def Table.done (table : Table) (id : Nat) : Bool :=
  table.coreCancelled || (table.heap[id]?.any Link.cancelled)

/-! ## Goroutines -/

/-- Where a goroutine stands. -/
inductive Pc where
  /-- At the head of the dial loop. -/
  | checking
  /-- In `links.connect`. -/
  | dialing
  /-- A persistent dial failed and its error is not stored yet. -/
  | failed
  /-- The dial succeeded and the connection is not attached yet. -/
  | dialed (conn : Nat)
  /-- In `links.handler`. -/
  | handling (conn : Nat)
  /-- The handler of a dialed connection returned and `_conn` is still set. -/
  | handled (conn : Nat)
  /-- Waiting in `backoffNow`. -/
  | backingOff
  /-- Returned, with the deferred section still to run. -/
  | exiting
  | finished
  deriving DecidableEq, Repr

/-- The connection a goroutine holds. -/
def Pc.conn : Pc → Option Nat
  | .dialed conn | .handling conn | .handled conn => some conn
  | _ => none

/-- The positions of the goroutine of an accepted connection. -/
def Pc.inbound : Pc → Bool
  | .handling _ | .exiting | .finished => true
  | _ => false

/-- A goroutine that has its link record: one that `links.add` started, which
dials, or one of an accepted connection. -/
structure Task where
  info : LinkInfo
  dials : Bool
  linkType : LinkType
  link : Nat
  pc : Pc
  deriving DecidableEq, Repr

/-- The steps of a goroutine with a link record. -/
inductive Action where
  | check
  | dial (success : Bool)
  | report
  | attach
  | handlerReturns
  | detach
  | wake
  | giveUp
  | exit
  deriving DecidableEq, Repr

/-- Where a goroutine goes after a failed attempt or a lost connection. -/
def LinkType.afterFailure (linkType : LinkType) (retry : Pc) : Pc :=
  if linkType = .persistent then retry else .exiting

/-- One step of a goroutine of `links.add` or `links.listen`. -/
def Task.act (table : Table) (task : Task) (action : Action) : Option (Table × Pc) :=
  match action, task.pc with
  | .check, .checking => some (table, if table.done task.link then .exiting else .dialing)
  | .dial true, .dialing => some (table.wrap, .dialed table.conns)
  | .dial false, .dialing => some (table, task.linkType.afterFailure .failed)
  | .report, .failed => some (table.setConn task.link none, .backingOff)
  | .attach, .dialed conn =>
      -- `_conn` is overwritten even when the goroutine is about to return
      table.heap[task.link]?.map fun link =>
        (table.setConn task.link (some conn), if link.conn.isSome then .exiting else .handling conn)
  | .handlerReturns, .handling conn =>
      some (table, if task.dials then .handled conn else .exiting)
  | .detach, .handled _ =>
      some (table.setConn task.link none, task.linkType.afterFailure .backingOff)
  | .wake, .backingOff => some (table, .checking)
  | .giveUp, .backingOff => if table.done task.link then some (table, .exiting) else none
  | .exit, .exiting => some (table.release task.info task.link, .finished)
  | _, _ => none

/-! ## The sections of `add`, `remove` and `listen` -/

/-- A new outgoing link and its dial goroutine. -/
def Table.configure (table : Table) (info : LinkInfo) (linkType : LinkType) : Table × Task :=
  ((table.alloc ⟨linkType, true, false, none⟩).store info table.heap.length,
    ⟨info, true, linkType, table.heap.length, .checking⟩)

/-- The part of `links.add` after the options are parsed.  Kicking an existing
link leaves the table alone; otherwise the dial goroutine is started. -/
def Table.add (table : Table) (info : LinkInfo) (linkType : LinkType) :
    Except LinkError (Table × Task) :=
  match table.stored info with
  | some _ => .error .alreadyConfigured
  | none => .ok (table.configure info linkType)

/-- How `links.remove` ends. -/
inductive Removal where
  | removed (table : Table)
  | failed (error : LinkError)
  /-- Calling a nil function: the process ends. -/
  | panicked

/-- `links.remove`.  Closing the connection makes its handler return, which a
handler may do at any time. -/
def Table.remove (table : Table) (info : LinkInfo) : Removal :=
  match table.stored info with
  | some (id, link) => if link.cancel then .removed (table.cancelLink id) else .panicked
  | none => .failed .notConfigured

/-- The attaching half of the inbound section, with the record already found. -/
def Table.adopt (table : Table) (info : LinkInfo) (id : Nat) : Table × Task :=
  ((((table.setConn id (some table.conns)).wrap).store info id),
    ⟨info, false, .incoming, id, .handling table.conns⟩)

/-- The section of the inbound goroutine.  An existing record is shared, and a
new one has neither a context nor a cancel function.  The goroutine that aborts
has taken the record as well, and its deferred section will run. -/
def Table.accept (table : Table) (info : LinkInfo) : Table × Task :=
  match table.stored info with
  | some (id, link) =>
      if link.conn.isSome then
        (table, ⟨info, false, .incoming, id, .exiting⟩)
      else
        table.adopt info id
  | none => (table.alloc ⟨.incoming, false, false, none⟩).adopt info table.heap.length

/-! ## The system -/

/-- A goroutine.  The one of an accepted connection has no record before its
first section. -/
inductive Worker where
  | accepted (info : LinkInfo)
  | running (task : Task)
  deriving DecidableEq, Repr

/-- The links actor with every goroutine started so far. -/
structure State where
  table : Table
  workers : List Worker
  crashed : Bool := false

/-- What can happen.  The key of an accepted connection is built from the remote
address, so it is arbitrary. -/
inductive Event where
  | add (info : LinkInfo) (linkType : LinkType)
  | remove (info : LinkInfo)
  | cancelCore
  | connected (info : LinkInfo)
  | accept (worker : Nat)
  | act (worker : Nat) (action : Action)
  deriving DecidableEq, Repr

/-- The system before any peer is configured. -/
def State.init : State where
  table := ⟨fun _ => none, [], 0, false⟩
  workers := []

/-- Start a goroutine. -/
def State.spawn (state : State) (table : Table) (worker : Worker) : State :=
  { state with table := table, workers := state.workers ++ [worker] }

/-- Go on with goroutine `n`. -/
def State.resume (state : State) (n : Nat) (table : Table) (task : Task) : State :=
  { state with table := table, workers := state.workers.set n (.running task) }

/-- The transitions of a process that has not crashed. -/
def State.advance (state : State) : Event → Option State
  | .add info linkType =>
      match state.table.add info linkType with
      | .ok (table, task) => some (state.spawn table (.running task))
      | .error _ => some state
  | .remove info =>
      match state.table.remove info with
      | .removed table => some { state with table := table }
      | .failed _ => some state
      | .panicked => some { state with crashed := true }
  | .cancelCore => some { state with table := { state.table with coreCancelled := true } }
  | .connected info => some (state.spawn state.table (.accepted info))
  | .accept n =>
      match state.workers[n]? with
      | some (.accepted info) =>
          let (table, task) := state.table.accept info
          some (state.resume n table task)
      | _ => none
  | .act n action =>
      match state.workers[n]? with
      | some (.running task) =>
          (task.act state.table action).map fun (table, pc) =>
            state.resume n table { task with pc := pc }
      | _ => none

/-- The transition function of the system. -/
def State.next : Step State Event := fun state event =>
  if state.crashed then none else state.advance event

/-! ## Inversion -/

theorem Table.stored_eq_some_iff {table : Table} {info : LinkInfo} {id : Nat} {link : Link} :
    table.stored info = some (id, link) ↔
      table.links info = some id ∧ table.heap[id]? = some link := by
  simp only [Table.stored, Option.bind_eq_some_iff, Option.map_eq_some_iff, Prod.mk.injEq]
  constructor
  · rintro ⟨other, stored, cell, found, rfl, rfl⟩
    exact ⟨stored, found⟩
  · rintro ⟨stored, found⟩
    exact ⟨id, stored, link, found, rfl, rfl⟩

theorem Table.add_eq_ok_iff {table : Table} {info : LinkInfo} {linkType : LinkType}
    {result : Table × Task} :
    table.add info linkType = .ok result ↔
      table.stored info = none ∧ table.configure info linkType = result := by
  unfold Table.add
  cases table.stored info <;> simp

/-! The steps of a goroutine, one equation per action. -/

section Act

variable {table result : Table} {task : Task} {pc : Pc}

theorem Task.act_check_eq_some_iff :
    task.act table .check = some (result, pc) ↔
      task.pc = .checking ∧ table = result ∧
        (if table.done task.link then Pc.exiting else .dialing) = pc := by
  unfold Task.act
  cases task.pc <;> simp

theorem Task.act_dial_eq_some_iff {success : Bool} :
    task.act table (.dial success) = some (result, pc) ↔
      task.pc = .dialing ∧
        ((success = true ∧ table.wrap = result ∧ Pc.dialed table.conns = pc) ∨
          (success = false ∧ table = result ∧ task.linkType.afterFailure .failed = pc)) := by
  unfold Task.act
  cases success <;> cases task.pc <;> simp

theorem Task.act_report_eq_some_iff :
    task.act table .report = some (result, pc) ↔
      task.pc = .failed ∧ table.setConn task.link none = result ∧ Pc.backingOff = pc := by
  unfold Task.act
  cases task.pc <;> simp

theorem Task.act_attach_eq_some_iff :
    task.act table .attach = some (result, pc) ↔
      ∃ conn link, task.pc = .dialed conn ∧ table.heap[task.link]? = some link ∧
        table.setConn task.link (some conn) = result ∧
          (if link.conn.isSome then Pc.exiting else .handling conn) = pc := by
  unfold Task.act
  cases task.pc <;> simp

theorem Task.act_handlerReturns_eq_some_iff :
    task.act table .handlerReturns = some (result, pc) ↔
      ∃ conn, task.pc = .handling conn ∧ table = result ∧
        (if task.dials then Pc.handled conn else .exiting) = pc := by
  unfold Task.act
  cases task.pc <;> simp

theorem Task.act_detach_eq_some_iff :
    task.act table .detach = some (result, pc) ↔
      ∃ conn, task.pc = .handled conn ∧ table.setConn task.link none = result ∧
        task.linkType.afterFailure .backingOff = pc := by
  unfold Task.act
  cases task.pc <;> simp

theorem Task.act_wake_eq_some_iff :
    task.act table .wake = some (result, pc) ↔
      task.pc = .backingOff ∧ table = result ∧ Pc.checking = pc := by
  unfold Task.act
  cases task.pc <;> simp

theorem Task.act_giveUp_eq_some_iff :
    task.act table .giveUp = some (result, pc) ↔
      task.pc = .backingOff ∧ table.done task.link = true ∧ table = result ∧ Pc.exiting = pc := by
  unfold Task.act
  cases task.pc <;> simp

theorem Task.act_exit_eq_some_iff :
    task.act table .exit = some (result, pc) ↔
      task.pc = .exiting ∧ table.release task.info task.link = result ∧ Pc.finished = pc := by
  unfold Task.act
  cases task.pc <;> simp

/-- All that a goroutine with a record can do to what is shared.  It only writes
to its record where a dial goroutine can be, and only its own connection. -/
theorem Task.act_table {action : Action} (step : task.act table action = some (result, pc)) :
    result = table ∨ result = table.wrap ∨
      (∃ value, task.pc.inbound = false ∧ (∀ conn, value = some conn → task.pc.conn = some conn) ∧
        result = table.setConn task.link value) ∨
      (result = table.release task.info task.link ∧ pc = .finished) := by
  unfold Task.act at step
  split at step <;> grind [Pc.inbound, Pc.conn]

theorem Task.act_unfinished {action : Action} (step : task.act table action = some (result, pc)) :
    task.pc ≠ .finished := by
  intro finished
  simp [Task.act, finished] at step

/-- A connection is the one the goroutine had or one that was just wrapped. -/
theorem Task.act_conn {action : Action} {conn : Nat}
    (step : task.act table action = some (result, pc)) (held : pc.conn = some conn) :
    task.pc.conn = some conn ∨ (conn = table.conns ∧ result = table.wrap) := by
  unfold Task.act LinkType.afterFailure at step
  split at step <;> grind [Pc.conn]

/-- The goroutine of an accepted connection only handles it and ends. -/
theorem Task.act_inbound {action : Action} (step : task.act table action = some (result, pc))
    (accepted : task.dials = false) (inbound : task.pc.inbound = true) : pc.inbound = true := by
  unfold Task.act at step
  split at step <;> grind [Pc.inbound]

end Act

/-- What a step of the system does, with one constructor per outcome. -/
inductive State.Moves (state : State) : Event → State → Prop where
  | rejected {info linkType} (present : state.table.stored info ≠ none) :
      state.Moves (.add info linkType) state
  | configured {info linkType} (absent : state.table.stored info = none) :
      state.Moves (.add info linkType)
        (state.spawn (state.table.configure info linkType).1
          (.running (state.table.configure info linkType).2))
  | unknown {info} (absent : state.table.stored info = none) : state.Moves (.remove info) state
  | removed {info id link} (stored : state.table.stored info = some (id, link))
      (cancel : link.cancel = true) :
      state.Moves (.remove info) { state with table := state.table.cancelLink id }
  | panicked {info id link} (stored : state.table.stored info = some (id, link))
      (missing : link.cancel = false) :
      state.Moves (.remove info) { state with crashed := true }
  | cancelled :
      state.Moves .cancelCore { state with table := { state.table with coreCancelled := true } }
  | connected {info} : state.Moves (.connected info) (state.spawn state.table (.accepted info))
  | accepted {n info} (waiting : state.workers[n]? = some (.accepted info)) :
      state.Moves (.accept n)
        (state.resume n (state.table.accept info).1 (state.table.accept info).2)
  | acted {n action task table pc} (running : state.workers[n]? = some (.running task))
      (step : task.act state.table action = some (table, pc)) :
      state.Moves (.act n action) (state.resume n table { task with pc := pc })

theorem State.moves_of_advance {state target : State} {event : Event}
    (step : state.advance event = some target) : state.Moves event target := by
  cases event with
  | add info linkType =>
      simp only [State.advance, Table.add] at step
      cases stored : state.table.stored info with
      | none =>
          simp only [stored, Option.some.injEq] at step
          exact step ▸ .configured stored
      | some entry =>
          simp only [stored, Option.some.injEq] at step
          exact step ▸ .rejected (by simp [stored])
  | remove info =>
      simp only [State.advance, Table.remove] at step
      cases stored : state.table.stored info with
      | none =>
          simp only [stored, Option.some.injEq] at step
          exact step ▸ .unknown stored
      | some entry =>
          cases cancel : entry.2.cancel with
          | true =>
              simp only [stored, cancel, if_true, Option.some.injEq] at step
              exact step ▸ .removed stored cancel
          | false =>
              simp only [stored, cancel, Bool.false_eq_true, if_false, Option.some.injEq] at step
              exact step ▸ .panicked stored cancel
  | cancelCore =>
      cases step
      exact .cancelled
  | connected info =>
      cases step
      exact .connected
  | accept n =>
      simp only [State.advance] at step
      split at step
      case h_1 info waiting =>
        cases step
        exact .accepted waiting
      case h_2 => cases step
  | act n action =>
      simp only [State.advance] at step
      split at step
      case h_1 task running =>
        obtain ⟨⟨table, pc⟩, acted, resumed⟩ := Option.map_eq_some_iff.mp step
        cases resumed
        exact .acted running acted
      case h_2 => cases step

theorem State.moves_of_next {state target : State} {event : Event}
    (step : state.next event = some target) : state.Moves event target := by
  unfold State.next at step
  split at step
  · cases step
  · exact State.moves_of_advance step

end Uqda.Links
