import Uqda.Links.Coherence

/-!
# No duplicate and no untracked peering

Outgoing and inbound goroutines share link records across several sections.
Both abort branches leave the record to the goroutine that is already attached,
but both also run their deferred section, which deletes the entry, and the
outgoing one has overwritten `_conn` before.  Storing a dial error resets
`_conn` whoever set it.

A run peers properly exactly when no such section meets a connection of another
goroutine.  This is always so when accepted connections find no record of
another goroutine under their key.
-/

namespace Uqda.Links

open Uqda.Store Uqda.Transition

/-- Goroutine `n` has its connection inside `links.handler`. -/
def State.Handles (state : State) (n : Nat) (task : Task) (conn : Nat) : Prop :=
  state.Runs n task ∧ task.pc = .handling conn

/-- The connection is the `_conn` of the link stored under the key. -/
def Table.Tracks (table : Table) (info : LinkInfo) (conn : Nat) : Prop :=
  ∃ id, table.links info = some id ∧ table.Attached id conn

/-- Every connection inside `links.handler` is tracked. -/
def State.Tracked (state : State) : Prop :=
  ∀ n task conn, state.Handles n task conn → state.table.Tracks task.info conn

/-- At most one connection per key is inside `links.handler`, and every one of
them is the `_conn` of the link stored under its key. -/
def State.Peered (state : State) : Prop :=
  (∀ n task conn m other conn', state.Handles n task conn → state.Handles m other conn' →
    task.info = other.info → n = m) ∧ state.Tracked

/-- No connection inside `links.handler` uses the record. -/
def State.Unused (state : State) (id : Nat) : Prop :=
  ∀ n task conn, state.Handles n task conn → task.link ≠ id

/-- A section of a goroutine does not meet a connection of another one.  Storing
a dial error and an aborting attachment need a record that no handler uses, an
attachment that goes on needs the record to be still stored, and the deferred
section must not delete the entry of a key that has a handler. -/
def State.Undisturbed (state : State) : Event → Prop
  | .act n action =>
      ∀ task, state.Runs n task →
        match action with
        | .report => state.Unused task.link
        | .attach =>
            ∀ link, state.table.heap[task.link]? = some link →
              if link.conn.isSome then state.Unused task.link
              else state.table.links task.info = some task.link
        | .exit =>
            state.table.links task.info = some task.link →
              ∀ m other conn, state.Handles m other conn → other.info ≠ task.info
        | _ => True
  | _ => True

/-! ## One step -/

theorem State.Handles.held {state : State} {n conn : Nat} {task : Task}
    (handles : state.Handles n task conn) : task.pc.conn = some conn := by
  rw [handles.2]
  rfl

/-- A goroutine outside the handler is another one than a handling one. -/
theorem State.Handles.ne_of_outside {state : State} {n m conn : Nat} {task other : Task}
    (handles : state.Handles m other conn) (runs : state.Runs n task)
    (outside : ∀ conn, task.pc ≠ .handling conn) : m ≠ n := by
  rintro rfl
  cases runs.symm.trans handles.1
  exact outside conn handles.2

/-- A tracked connection is tracked through its goroutine's own record. -/
theorem State.Tracked.own {state : State} {n conn : Nat} {task : Task} (tracked : state.Tracked)
    (coherent : state.Coherent) (handles : state.Handles n task conn) :
    state.table.links task.info = some task.link ∧ state.table.Attached task.link conn := by
  obtain ⟨id, stored, attached⟩ := tracked n task conn handles
  have equal := (coherent.fits n task handles.1).own conn handles.held id attached
  exact ⟨equal ▸ stored, equal ▸ attached⟩

/-- Tracking is enough: two connections with one key would be the `_conn` of one
record. -/
theorem State.Coherent.peered_iff {state : State} (coherent : state.Coherent) :
    state.Peered ↔ state.Tracked := by
  refine ⟨fun peered => peered.2, fun tracked => ⟨?_, tracked⟩⟩
  intro n task conn m other conn' handles handles' sameInfo
  obtain ⟨stored, attached⟩ := tracked.own coherent handles
  obtain ⟨stored', attached'⟩ := tracked.own coherent handles'
  have sameLink : task.link = other.link :=
    Option.some.inj (stored.symm.trans (sameInfo ▸ stored'))
  have sameConn : conn = conn' := attached.unique (sameLink ▸ attached')
  by_contra distinct
  exact (coherent.apart n task m other handles.1 handles'.1 distinct).conns conn handles.held
    (sameConn ▸ handles'.held)

/-- After a goroutine moved on, its own connection and those of the others have
to be tracked. -/
theorem State.tracked_resume_iff {state : State} {n : Nat} {worker : Worker} {table : Table}
    {task : Task} (present : state.workers[n]? = some worker) :
    (state.resume n table task).Tracked ↔
      (∀ conn, task.pc = .handling conn → table.Tracks task.info conn) ∧
        ∀ m other conn, m ≠ n → state.Handles m other conn → table.Tracks other.info conn := by
  constructor
  · intro tracked
    refine ⟨fun conn handling => ?_, fun m other conn different handles => ?_⟩
    · exact tracked n task conn
        ⟨(State.resume_runs_iff present).mpr (.inl ⟨rfl, rfl⟩), handling⟩
    · exact tracked m other conn
        ⟨(State.resume_runs_iff present).mpr (.inr ⟨different, handles.1⟩), handles.2⟩
  · rintro ⟨own, others⟩ m other conn ⟨runs, handling⟩
    rcases (State.resume_runs_iff present).mp runs with ⟨-, rfl⟩ | ⟨different, ran⟩
    · exact own conn handling
    · exact others m other conn different ⟨ran, handling⟩

section Step

variable {state : State} {n : Nat} {task : Task} {pc : Pc}

/-- A step that leaves the table alone and enters no handler. -/
theorem State.Tracked.resume_quiet {worker : Worker} (tracked : state.Tracked)
    (present : state.workers[n]? = some worker) (outside : ∀ conn, pc ≠ .handling conn) :
    (state.resume n state.table { task with pc := pc }).Tracked :=
  (State.tracked_resume_iff present).mpr ⟨fun conn handling => absurd handling (outside conn),
    fun m other conn _ handles => tracked m other conn handles⟩

/-- Overwriting the `_conn` of a record from outside the handler keeps the
connections tracked exactly when no handler uses the record. -/
theorem State.Tracked.resume_setConn_iff {value : Option Nat} (tracked : state.Tracked)
    (coherent : state.Coherent) (runs : state.Runs n task)
    (before : ∀ conn, task.pc ≠ .handling conn) (after : ∀ conn, pc ≠ .handling conn)
    (own : ∀ conn, value = some conn → task.pc.conn = some conn) :
    (state.resume n (state.table.setConn task.link value) { task with pc := pc }).Tracked ↔
      state.Unused task.link := by
  rw [State.tracked_resume_iff runs]
  constructor
  · rintro ⟨-, others⟩ m other conn handles equal
    have different := handles.ne_of_outside runs before
    obtain ⟨id, stored, attached⟩ := others m other conn different handles
    obtain ⟨stored', -⟩ := tracked.own coherent handles
    cases stored.symm.trans stored'
    -- the record now holds what was written, which is not the handler's connection
    rw [equal] at attached
    have written := (Table.attached_setConn_self (coherent.fits n task runs).allocated).mp attached
    exact (coherent.apart n task m other runs handles.1 different.symm).conns conn
      (own conn written) handles.held
  · intro unused
    refine ⟨fun conn handling => absurd handling (after conn), fun m other conn _ handles => ?_⟩
    obtain ⟨stored, attached⟩ := tracked.own coherent handles
    exact ⟨other.link, stored,
      (Table.attached_setConn_of_ne (unused m other conn handles)).mpr attached⟩

/-- The record of a dial goroutine that has not detached its connection yet is
used by no handler. -/
theorem State.Tracked.unused_of_handled {conn : Nat} (tracked : state.Tracked)
    (coherent : state.Coherent) (runs : state.Runs n task) (handled : task.pc = .handled conn) :
    state.Unused task.link := by
  intro m other conn' handles equal
  have fits := coherent.fits n task runs
  have dials := fits.dials_of_outgoing (by rw [handled]; rfl)
  have attached := fits.attached dials conn (.inr handled)
  have same := attached.unique (equal ▸ (tracked.own coherent handles).2)
  have different := handles.ne_of_outside runs (by rw [handled]; nofun)
  exact (coherent.apart n task m other runs handles.1 different.symm).conns conn
    (by rw [handled]; rfl) (same ▸ handles.held)

/-- Attaching to a vacant record tracks the new connection exactly when the
record is still stored. -/
theorem State.Tracked.resume_attach_iff {conn : Nat} (tracked : state.Tracked)
    (coherent : state.Coherent) (runs : state.Runs n task) (dialed : task.pc = .dialed conn)
    (vacant : ∀ other, ¬ state.table.Attached task.link other) :
    (state.resume n (state.table.setConn task.link (some conn))
      { task with pc := .handling conn }).Tracked ↔
      state.table.links task.info = some task.link := by
  have fits := coherent.fits n task runs
  rw [State.tracked_resume_iff runs]
  constructor
  · rintro ⟨own, -⟩
    obtain ⟨id, stored, attached⟩ := own conn rfl
    by_contra missing
    have different : id ≠ task.link := by
      rintro rfl
      exact missing stored
    exact different (fits.own conn (by rw [dialed]; rfl) id
      ((Table.attached_setConn_of_ne different).mp attached))
  · intro stored
    refine ⟨fun other handling => ?_, fun m other conn' _ handles => ?_⟩
    · cases handling
      exact ⟨task.link, stored, (Table.attached_setConn_self fits.allocated).mpr rfl⟩
    · obtain ⟨stored', attached⟩ := tracked.own coherent handles
      have different : other.link ≠ task.link := by
        intro equal
        exact vacant conn' (equal ▸ attached)
      exact ⟨other.link, stored', (Table.attached_setConn_of_ne different).mpr attached⟩

/-- The deferred section keeps the connections tracked exactly when the entry it
deletes belongs to no handler. -/
theorem State.Tracked.resume_release_iff (tracked : state.Tracked) (runs : state.Runs n task)
    (before : ∀ conn, task.pc ≠ .handling conn) (after : ∀ conn, pc ≠ .handling conn) :
    (state.resume n (state.table.release task.info task.link) { task with pc := pc }).Tracked ↔
      (state.table.links task.info = some task.link →
        ∀ m other conn, state.Handles m other conn → other.info ≠ task.info) := by
  rw [State.tracked_resume_iff runs]
  unfold Table.release
  split
  case isTrue stored =>
    simp only [stored, forall_const]
    constructor
    · rintro ⟨-, others⟩ m other conn handles equal
      have different := handles.ne_of_outside runs before
      obtain ⟨id, kept, -⟩ := others m other conn different handles
      simp [equal] at kept
    · intro apart
      refine ⟨fun conn handling => absurd handling (after conn), fun m other conn _ handles => ?_⟩
      obtain ⟨id, stored, attached⟩ := tracked m other conn handles
      refine ⟨id, ?_, attached⟩
      exact (Function.update_of_ne (apart m other conn handles) _ _).trans stored
  case isFalse missing =>
    refine iff_of_true ⟨fun conn handling => absurd handling (after conn), ?_⟩
      fun stored => absurd stored missing
    exact fun m other conn _ handles => tracked m other conn handles

end Step

/-- An inbound section tracks its connection and keeps the others tracked: a key
with a handler has a stored record that is not vacant. -/
theorem State.Tracked.adopt {state : State} {n id : Nat} {worker : Worker} {info : LinkInfo}
    {table : Table} (present : state.workers[n]? = some worker)
    (kept : ∀ m other conn, state.Handles m other conn → other.info ≠ info ∧
      table.Tracks other.info conn)
    (inside : id < table.heap.length) (vacant : ∀ conn, ¬ table.Attached id conn) :
    (state.resume n (table.adopt info id).1 (table.adopt info id).2).Tracked := by
  refine (State.tracked_resume_iff present).mpr
    ⟨fun conn handling => ?_, fun m other conn _ handles => ?_⟩
  · cases handling
    exact ⟨id, Function.update_self _ _ _, (Table.attached_setConn_self inside).mpr rfl⟩
  · obtain ⟨different, pointer, stored, attached⟩ := kept m other conn handles
    refine ⟨pointer, (Function.update_of_ne different _ _).trans stored,
      (Table.attached_setConn_of_ne ?_).mpr attached⟩
    rintro rfl
    exact vacant conn attached

theorem State.Tracked.accept {state : State} {n : Nat} {worker : Worker}
    (tracked : state.Tracked) (present : state.workers[n]? = some worker) (info : LinkInfo) :
    (state.resume n (state.table.accept info).1 (state.table.accept info).2).Tracked := by
  rcases state.table.accept_cases info with
    ⟨id, link, conn, -, -, outcome⟩ | ⟨id, link, stored, empty, outcome⟩ | ⟨absent, outcome⟩
  · rw [outcome]
    exact (State.tracked_resume_iff present).mpr
      ⟨nofun, fun m other conn _ handles => tracked m other conn handles⟩
  · rw [outcome]
    have vacant := Table.vacant_of_stored stored empty
    refine State.Tracked.adopt present (fun m other conn handles => ?_)
      (Table.lt_length_of_stored stored) vacant
    obtain ⟨pointer, entry, attached⟩ := tracked m other conn handles
    refine ⟨?_, pointer, entry, attached⟩
    rintro rfl
    cases entry.symm.trans (Table.stored_eq_some_iff.mp stored).1
    exact vacant conn attached
  · rw [outcome]
    refine State.Tracked.adopt present (fun m other conn handles => ?_) (by simp [Table.alloc])
      Table.alloc_vacant
    obtain ⟨pointer, entry, attached⟩ := tracked m other conn handles
    refine ⟨?_, pointer, entry, attached.alloc _⟩
    rintro rfl
    exact Table.stored_ne_none entry attached.lt_length absent

theorem State.Tracked.configure {state : State} (tracked : state.Tracked) {info : LinkInfo}
    {linkType : LinkType} (absent : state.table.stored info = none) :
    (state.spawn (state.table.configure info linkType).1
      (.running (state.table.configure info linkType).2)).Tracked := by
  rintro m other conn ⟨runs, handling⟩
  rcases State.spawn_runs_iff.mp runs with ⟨-, same⟩ | ran
  · cases same
    cases handling
  · obtain ⟨pointer, entry, attached⟩ := tracked m other conn ⟨ran, handling⟩
    refine ⟨pointer, (Function.update_of_ne ?_ _ _).trans entry, attached.alloc _⟩
    rintro rfl
    exact Table.stored_ne_none entry attached.lt_length absent

/-- The steps of a goroutine keep the connections tracked exactly when they are
undisturbed. -/
theorem State.Tracked.act_iff {state : State} {n : Nat} {task : Task} {action : Action}
    {table : Table} {pc : Pc} (tracked : state.Tracked) (coherent : state.Coherent)
    (runs : state.Runs n task) (step : task.act state.table action = some (table, pc)) :
    (state.resume n table { task with pc := pc }).Tracked ↔ state.Undisturbed (.act n action) := by
  simp only [State.Undisturbed, runs.forall_iff]
  cases action with
  | check =>
      obtain ⟨-, rfl, rfl⟩ := Task.act_check_eq_some_iff.mp step
      exact iff_of_true (tracked.resume_quiet runs fun conn => by split <;> nofun) trivial
  | dial success =>
      obtain ⟨-, ⟨-, rfl, rfl⟩ | ⟨-, rfl, rfl⟩⟩ := Task.act_dial_eq_some_iff.mp step
      · exact iff_of_true ((State.tracked_resume_iff runs).mpr
          ⟨nofun, fun m other conn _ handles => tracked m other conn handles⟩) trivial
      · exact iff_of_true (tracked.resume_quiet runs fun conn => by
          unfold LinkType.afterFailure
          split <;> nofun) trivial
  | report =>
      obtain ⟨failed, rfl, rfl⟩ := Task.act_report_eq_some_iff.mp step
      exact tracked.resume_setConn_iff coherent runs (by rw [failed]; nofun) nofun nofun
  | attach =>
      obtain ⟨conn, link, dialed, found, rfl, rfl⟩ := Task.act_attach_eq_some_iff.mp step
      have outside (other : Nat) : task.pc ≠ .handling other := by rw [dialed]; nofun
      simp only [found, Option.some.injEq, forall_eq']
      -- the section writes `_conn` in both branches, but enters the handler in one
      split
      · refine tracked.resume_setConn_iff coherent runs outside nofun fun other written => ?_
        cases written
        rw [dialed]
        rfl
      case isFalse empty =>
        refine tracked.resume_attach_iff coherent runs dialed fun other => ?_
        rintro ⟨same, again, held⟩
        cases found.symm.trans again
        simp [held] at empty
  | handlerReturns =>
      obtain ⟨conn, -, rfl, rfl⟩ := Task.act_handlerReturns_eq_some_iff.mp step
      exact iff_of_true (tracked.resume_quiet runs fun conn => by split <;> nofun) trivial
  | detach =>
      obtain ⟨conn, handled, rfl, rfl⟩ := Task.act_detach_eq_some_iff.mp step
      -- the record still holds the goroutine's own connection, so no handler uses it
      have unused := tracked.unused_of_handled coherent runs handled
      refine iff_of_true ((tracked.resume_setConn_iff coherent runs ?_ ?_ ?_).mpr unused) trivial
      · rw [handled]
        nofun
      · unfold LinkType.afterFailure
        split <;> nofun
      · nofun
  | wake =>
      obtain ⟨-, rfl, rfl⟩ := Task.act_wake_eq_some_iff.mp step
      exact iff_of_true (tracked.resume_quiet runs nofun) trivial
  | giveUp =>
      obtain ⟨-, -, rfl, rfl⟩ := Task.act_giveUp_eq_some_iff.mp step
      exact iff_of_true (tracked.resume_quiet runs nofun) trivial
  | exit =>
      obtain ⟨exiting, rfl, rfl⟩ := Task.act_exit_eq_some_iff.mp step
      exact tracked.resume_release_iff runs (by rw [exiting]; nofun) nofun

/-- Connections stay tracked over a step exactly when it is undisturbed. -/
theorem State.Tracked.next_iff {state target : State} {event : Event} (tracked : state.Tracked)
    (coherent : state.Coherent) (step : state.next event = some target) :
    target.Tracked ↔ state.Undisturbed event := by
  cases State.moves_of_next step with
  | rejected | unknown | panicked | cancelled => exact iff_of_true tracked trivial
  | configured absent => exact iff_of_true (tracked.configure absent) trivial
  | removed =>
      refine iff_of_true (fun n task conn handles => ?_) trivial
      obtain ⟨pointer, entry, attached⟩ := tracked n task conn handles
      exact ⟨pointer, entry, Table.attached_cancelLink.mpr attached⟩
  | connected =>
      refine iff_of_true (fun n task conn handles => ?_) trivial
      exact tracked n task conn ⟨State.connected_runs_iff.mp handles.1, handles.2⟩
  | @accepted n info waiting => exact iff_of_true (tracked.accept waiting info) trivial
  | acted running acted => exact tracked.act_iff coherent running acted

/-! ## Uncontended runs -/

/-- An accepted connection finds no record under its key. -/
def State.Uncontended (state : State) : Event → Prop
  | .accept n => ∀ info, state.workers[n]? = some (.accepted info) → state.table.stored info = none
  | _ => True

/-- No two goroutines share a record, and a goroutine's record is stored until
its deferred section has run. -/
structure State.Exclusive (state : State) : Prop where
  coherent : state.Coherent
  owner : ∀ n task m other, state.Runs n task → state.Runs m other → task.link = other.link → n = m
  stored : ∀ n task, state.Runs n task → task.pc ≠ .finished →
    state.table.links task.info = some task.link

/-- In an exclusive state no section meets a connection of another goroutine. -/
theorem State.Exclusive.undisturbed {state target : State} {event : Event}
    (exclusive : state.Exclusive) (step : state.next event = some target) :
    state.Undisturbed event := by
  cases State.moves_of_next step with
  | @acted n action task table pc runs acted =>
      have unused (outside : ∀ conn, task.pc ≠ .handling conn) : state.Unused task.link := by
        intro m other conn handles equal
        exact handles.ne_of_outside runs outside
          (exclusive.owner m other n task handles.1 runs equal)
      refine (State.Runs.forall_iff runs).mpr ?_
      cases action with
      | report =>
          obtain ⟨failed, -⟩ := Task.act_report_eq_some_iff.mp acted
          exact unused (by rw [failed]; nofun)
      | attach =>
          obtain ⟨conn, link, dialed, -⟩ := Task.act_attach_eq_some_iff.mp acted
          intro link found
          split
          · exact unused (by rw [dialed]; nofun)
          · exact exclusive.stored n task runs (by rw [dialed]; nofun)
      | exit =>
          obtain ⟨exiting, -⟩ := Task.act_exit_eq_some_iff.mp acted
          intro entry m other conn handles equal
          have entry' := exclusive.stored m other handles.1 (by rw [handles.2]; nofun)
          rw [equal] at entry'
          exact unused (by rw [exiting]; nofun) m other conn handles
            (Option.some.inj (entry'.symm.trans entry))
      | _ => trivial
  | _ => trivial

/-- A new goroutine with a new record, stored under a key that had none. -/
theorem State.Exclusive.fresh_record {state target : State} (exclusive : state.Exclusive) (n : Nat)
    (task : Task) (coherent : target.Coherent)
    (absent : state.table.stored task.info = none)
    (runs : ∀ m other, target.Runs m other ↔
      (m = n ∧ task = other) ∨ (m ≠ n ∧ state.Runs m other))
    (record : task.link = state.table.heap.length)
    (links : target.table.links = Function.update state.table.links task.info (some task.link)) :
    target.Exclusive where
  coherent := coherent
  owner m first k second first' second' equal := by
    have older {m : Nat} {other : Task} (runs : state.Runs m other) : other.link ≠ task.link := by
      rw [record]
      exact Nat.ne_of_lt (exclusive.coherent.fits m other runs).allocated
    rcases (runs m first).mp first' with ⟨rfl, rfl⟩ | ⟨-, first'⟩
    · rcases (runs k second).mp second' with ⟨rfl, -⟩ | ⟨-, second'⟩
      · rfl
      · exact absurd equal.symm (older second')
    · rcases (runs k second).mp second' with ⟨rfl, rfl⟩ | ⟨-, second'⟩
      · exact absurd equal (older first')
      · exact exclusive.owner m first k second first' second' equal
  stored m other other' unfinished := by
    rw [links]
    rcases (runs m other).mp other' with ⟨-, rfl⟩ | ⟨-, other'⟩
    · exact Function.update_self _ _ _
    · have entry := exclusive.stored m other other' unfinished
      refine (Function.update_of_ne (fun equal => ?_) _ _).trans entry
      exact Table.stored_ne_none (equal ▸ entry)
        (exclusive.coherent.fits m other other').allocated absent

/-- A step of a goroutine deletes at most its own entry. -/
theorem State.Exclusive.act {state : State} {n : Nat} {task : Task} {action : Action}
    {table : Table} {pc : Pc} (exclusive : state.Exclusive) (runs : state.Runs n task)
    (step : task.act state.table action = some (table, pc))
    (coherent : (state.resume n table { task with pc := pc }).Coherent) :
    (state.resume n table { task with pc := pc }).Exclusive where
  coherent := coherent
  owner m first k second first' second' equal := by
    have before {m : Nat} {other : Task}
        (resumed : (state.resume n table { task with pc := pc }).Runs m other) :
        ∃ old, state.Runs m old ∧ old.link = other.link := by
      rcases (State.resume_runs_iff runs).mp resumed with ⟨rfl, rfl⟩ | ⟨-, ran⟩
      · exact ⟨task, runs, rfl⟩
      · exact ⟨other, ran, rfl⟩
    obtain ⟨old, ran, link⟩ := before first'
    obtain ⟨old', ran', link'⟩ := before second'
    exact exclusive.owner m old k old' ran ran' (link.trans (equal.trans link'.symm))
  stored m other other' unfinished := by
    rcases (State.resume_runs_iff runs).mp other' with ⟨rfl, rfl⟩ | ⟨different, ran⟩
    · have entry := exclusive.stored m task runs (Task.act_unfinished step)
      rcases Task.act_table step with rfl | rfl | ⟨value, -, -, rfl⟩ | ⟨-, rfl⟩
      · exact entry
      · exact entry
      · exact entry
      · exact absurd rfl unfinished
    · have entry := exclusive.stored m other ran unfinished
      rcases Task.act_table step with rfl | rfl | ⟨value, -, -, rfl⟩ | ⟨rfl, -⟩
      · exact entry
      · exact entry
      · exact entry
      · refine Table.links_release_of_ne entry fun equal => ?_
        exact different (exclusive.owner m other n task ran runs equal)

theorem State.Exclusive.next {state target : State} {event : Event} (exclusive : state.Exclusive)
    (uncontended : state.Uncontended event) (step : state.next event = some target) :
    target.Exclusive := by
  have coherent := exclusive.coherent.next step
  cases State.moves_of_next step with
  | rejected | unknown => exact exclusive
  | @configured info linkType absent =>
      refine exclusive.fresh_record state.workers.length (state.table.configure info linkType).2
        coherent absent (fun m other => ?_) rfl rfl
      rw [State.spawn_runs_iff, Worker.running.injEq]
      exact or_congr_right ⟨fun ran => ⟨Nat.ne_of_lt ran.lt_length, ran⟩, And.right⟩
  | removed | panicked | cancelled => exact ⟨coherent, exclusive.owner, exclusive.stored⟩
  | connected =>
      refine ⟨coherent, fun n task m other runs runs' => ?_, fun n task runs => ?_⟩
      · exact exclusive.owner n task m other (State.connected_runs_iff.mp runs)
          (State.connected_runs_iff.mp runs')
      · exact exclusive.stored n task (State.connected_runs_iff.mp runs)
  | @accepted n info waiting =>
      have absent := uncontended info waiting
      have outcome : state.table.accept info =
          (state.table.alloc ⟨.incoming, false, false, none⟩).adopt info
            state.table.heap.length := by
        simp [Table.accept, absent]
      rw [outcome] at coherent ⊢
      exact exclusive.fresh_record n (Table.adopt _ info _).2 coherent absent
        (fun m other => State.resume_runs_iff waiting) rfl rfl
  | acted running acted => exact exclusive.act running acted coherent

/-- If no accepted connection finds a record under its key, every section is
undisturbed. -/
theorem undisturbed_of_uncontended {events : List Event}
    (uncontended : EveryStep State.next State.Uncontended .init events) :
    EveryStep State.next State.Undisturbed .init events := by
  have initially : State.init.Exclusive :=
    ⟨State.coherent_init, fun _ _ _ _ runs => absurd runs State.not_runs_init,
      fun _ _ runs => absurd runs State.not_runs_init⟩
  exact uncontended.imp initially (fun exclusive met step => exclusive.next met step)
    fun exclusive _ step => exclusive.undisturbed step

/-! ## Runs -/

theorem State.peered_init : State.init.Peered :=
  State.coherent_init.peered_iff.mpr fun _ _ _ handles => absurd handles.1 State.not_runs_init

/-- In any interleaving, there is no duplicate and no untracked peering in any
state exactly when every section is undisturbed by the connections of other
goroutines.  This is so if no accepted connection finds a record under its key. -/
theorem peered_iff_undisturbed (events : List Event) :
    (Throughout State.next State.Peered .init events ↔
      EveryStep State.next State.Undisturbed .init events) ∧
    (EveryStep State.next State.Uncontended .init events →
      Throughout State.next State.Peered .init events) := by
  have exact_iff : Throughout State.next State.Peered .init events ↔
      EveryStep State.next State.Undisturbed .init events :=
    throughout_iff_everyStep events State.coherent_init State.peered_init
      (fun coherent _ step => coherent.next step) fun coherent peered step =>
        (coherent.next step).peered_iff.trans (peered.2.next_iff coherent step)
  exact ⟨exact_iff, fun uncontended => exact_iff.mpr (undisturbed_of_uncontended uncontended)⟩

/-- Three accepted connections with one key: the second aborts, and its deferred
section deletes the entry of the first. -/
def threeClients (info : LinkInfo) : List Event :=
  [.connected info, .accept 0, .connected info, .accept 1, .act 1 .exit, .connected info, .accept 2]

/-- The third connection is peered next to the first, which is no longer tracked. -/
theorem threeClients_peered (info : LinkInfo) :
    ∃ state first third,
      run State.next .init (threeClients info) = some state ∧
      state.Handles 0 first 0 ∧ state.Handles 2 third 1 ∧
      first.info = info ∧ third.info = info ∧ ¬ state.table.Tracks info 0 := by
  have ended : run State.next .init (threeClients info) =
      some ⟨⟨Function.update (fun _ => none) info (some 1),
          [⟨.incoming, false, false, some 0⟩, ⟨.incoming, false, false, some 1⟩], 2, false⟩,
        [.running ⟨info, false, .incoming, 0, .handling 0⟩,
          .running ⟨info, false, .incoming, 0, .finished⟩,
          .running ⟨info, false, .incoming, 1, .handling 1⟩], false⟩ := by
    simp [threeClients, run, State.next, State.advance, State.init, State.spawn, State.resume,
      Table.accept, Table.stored, Table.adopt, Table.alloc, Table.store, Table.wrap, Table.setConn,
      Task.act, Table.release]
  refine ⟨_, _, _, ended, ⟨rfl, rfl⟩, ⟨rfl, rfl⟩, rfl, rfl, ?_⟩
  rintro ⟨id, entry, link, found, held⟩
  simp only [Function.update_self, Option.some.injEq] at entry
  subst entry
  cases found
  cases held

/-- The key of every client of a UNIX socket listener: such clients are unnamed. -/
def unixClient : LinkInfo := ⟨"unix://%40/run/uqda.sock", ""⟩

/-- Two clients of a UNIX socket are peered under one key, and one of them is not
tracked. -/
theorem unixClient_peered_twice :
    ∃ state first third,
      run State.next .init (threeClients unixClient) = some state ∧
      state.Handles 0 first 0 ∧ state.Handles 2 third 1 ∧
      first.info = unixClient ∧ third.info = unixClient ∧
      ¬ state.table.Tracks unixClient 0 :=
  threeClients_peered unixClient

end Uqda.Links
