import Uqda.Links.Coherence

/-!
# Persistent peers

A persistent link should stay in the table, with its dial loop running, until it
is removed or the node stops.  An accepted connection with the same key shares
the record: its deferred section deletes the entry, and the dial loop returns
when it finds the `_conn` of such a connection set.  Nothing else ends a
persistent link.
-/

namespace Uqda.Links

open Uqda.Store Uqda.Transition

/-- The table holds the link under its key, and the loop of its dial goroutine
has not returned. -/
def State.Durable (info : LinkInfo) (id dialer : Nat) (state : State) : Prop :=
  state.table.links info = some id ∧
    ∃ task, state.Runs dialer task ∧ task.pc ≠ .exiting ∧ task.pc ≠ .finished

/-- No deferred section runs with the link's record, and the dial goroutine
attaches its connection only when no other one is attached. -/
def State.Undivided (info : LinkInfo) (id dialer : Nat) (state : State) : Event → Prop
  | .act n .exit => ∀ task, state.Runs n task → task.info = info → task.link ≠ id
  | .act n .attach => n = dialer → ∀ conn, ¬ state.table.Attached id conn
  | _ => True

/-- The events before the link is removed and before the core context is
cancelled. -/
def Event.Keeps (info : LinkInfo) (event : Event) : Prop :=
  event ≠ .remove info ∧ event ≠ .cancelCore

/-- The record exists, its context is not done, and no other key leads to it. -/
structure Table.Guards (info : LinkInfo) (id : Nat) (table : Table) : Prop where
  inside : id < table.heap.length
  live : table.done id = false
  home : ∀ other, table.links other = some id → other = info

/-- The goroutine that dials for the link. -/
structure Task.DialsFor (info : LinkInfo) (id : Nat) (task : Task) : Prop where
  info : task.info = info
  persistent : task.linkType = .persistent
  dials : task.dials = true
  link : task.link = id

/-- What stays so until the link is removed, whoever connects. -/
structure State.Configured (info : LinkInfo) (id dialer : Nat) (state : State) : Prop where
  guards : state.table.Guards info id
  dialing : ∃ task, state.Runs dialer task ∧ task.DialsFor info id

/-! ## The table -/

section Table

variable {table : Table} {info : LinkInfo} {id : Nat}

theorem Table.done_modify (pointer : Nat) (write : Link → Link)
    (kept : pointer = id → ∀ link, (write link).cancelled = link.cancelled) :
    Table.done { table with heap := table.heap.modify pointer write } id = table.done id := by
  unfold Table.done
  by_cases equal : pointer = id
  · subst equal
    cases found : table.heap[pointer]? <;> simp [found, kept rfl]
  · simp [equal]

theorem Table.Guards.setConn (guards : table.Guards info id) (pointer : Nat)
    (value : Option Nat) : (table.setConn pointer value).Guards info id where
  inside := by simpa [Table.setConn] using guards.inside
  live := by
    exact (Table.done_modify pointer (fun link => { link with conn := value })
      fun _ _ => rfl).trans guards.live
  home := guards.home

theorem Table.Guards.alloc (guards : table.Guards info id) (link : Link) :
    (table.alloc link).Guards info id where
  inside := by simpa [Table.alloc] using Nat.lt_succ_of_lt guards.inside
  live := by
    have live := guards.live
    simpa [Table.done, Table.alloc, List.getElem?_append_left guards.inside] using live
  home := guards.home

theorem Table.Guards.store (guards : table.Guards info id) {other : LinkInfo} {pointer : Nat}
    (kept : pointer = id → other = info) : (table.store other pointer).Guards info id where
  inside := guards.inside
  live := guards.live
  home found entry := by
    rcases update_eq_some_iff.mp entry with ⟨rfl, same⟩ | ⟨-, entry⟩
    · exact kept (Option.some.inj same)
    · exact guards.home found entry

theorem Table.Guards.release (guards : table.Guards info id) (other : LinkInfo) (pointer : Nat) :
    (table.release other pointer).Guards info id where
  inside := by simpa using guards.inside
  live := by
    have live := guards.live
    unfold Table.release
    split <;> exact live
  home found entry := guards.home found (Table.links_of_release entry)

theorem Table.Guards.act {task : Task} {action : Action} {result : Table} {pc : Pc}
    (guards : table.Guards info id) (step : task.act table action = some (result, pc)) :
    result.Guards info id := by
  rcases Task.act_table step with rfl | rfl | ⟨value, -, -, rfl⟩ | ⟨rfl, -⟩
  · exact guards
  · exact ⟨guards.inside, guards.live, guards.home⟩
  · exact guards.setConn task.link value
  · exact guards.release task.info task.link

theorem Table.Guards.adopt (guards : table.Guards info id) {other : LinkInfo} {pointer : Nat}
    (kept : pointer = id → other = info) : (table.adopt other pointer).1.Guards info id := by
  have written := guards.setConn pointer (some table.conns)
  have wrapped : (table.setConn pointer (some table.conns)).wrap.Guards info id :=
    ⟨written.inside, written.live, written.home⟩
  exact wrapped.store kept

theorem Table.Guards.accept (guards : table.Guards info id) (other : LinkInfo) :
    (table.accept other).1.Guards info id := by
  rcases table.accept_cases other with
    ⟨pointer, link, conn, -, -, outcome⟩ | ⟨pointer, link, stored, -, outcome⟩ | ⟨-, outcome⟩
  · rw [outcome]
    exact guards
  · rw [outcome]
    refine guards.adopt fun equal => ?_
    exact guards.home other (equal ▸ (Table.stored_eq_some_iff.mp stored).1)
  · rw [outcome]
    exact (guards.alloc _).adopt fun equal => absurd equal (Nat.ne_of_lt guards.inside).symm

theorem Table.Guards.configure (guards : table.Guards info id) (other : LinkInfo)
    (linkType : LinkType) : (table.configure other linkType).1.Guards info id :=
  (guards.alloc _).store fun equal => absurd equal (Nat.ne_of_lt guards.inside).symm

/-- The entry of the link survives an inbound section. -/
theorem Table.Guards.links_accept (guards : table.Guards info id)
    (entry : table.links info = some id) (other : LinkInfo) :
    (table.accept other).1.links info = some id := by
  rcases table.accept_cases other with
    ⟨pointer, link, conn, -, -, outcome⟩ | ⟨pointer, link, stored, -, outcome⟩ | ⟨absent, outcome⟩
  · rw [outcome]
    exact entry
  · rw [outcome]
    refine update_eq_some_iff.mpr ?_
    by_cases equal : info = other
    · subst equal
      exact .inl ⟨rfl, (Table.stored_eq_some_iff.mp stored).1.symm.trans entry⟩
    · exact .inr ⟨equal, entry⟩
  · rw [outcome]
    refine update_eq_some_iff.mpr (.inr ⟨?_, entry⟩)
    rintro rfl
    exact Table.stored_ne_none entry guards.inside absent

end Table

/-! ## The dial loop -/

section Loop

variable {info : LinkInfo} {id dialer : Nat}

/-- While the context is not done, the loop only returns when it finds another
connection attached. -/
theorem Task.DialsFor.act_iff {table result : Table} {task : Task} {action : Action} {pc : Pc}
    (serves : task.DialsFor info id) (guards : table.Guards info id)
    (looping : task.pc ≠ .exiting) (step : task.act table action = some (result, pc)) :
    (pc ≠ .exiting ∧ pc ≠ .finished) ↔
      (action = .attach → ∀ conn, ¬ table.Attached id conn) := by
  have live := guards.live
  -- a persistent link retries where an ephemeral one returns
  have retry (again : Pc) : task.linkType.afterFailure again = again := if_pos serves.persistent
  rw [← serves.link] at live ⊢
  cases action with
  | check =>
      obtain ⟨-, rfl, rfl⟩ := Task.act_check_eq_some_iff.mp step
      simp [live]
  | dial success =>
      obtain ⟨-, ⟨-, rfl, rfl⟩ | ⟨-, rfl, rfl⟩⟩ := Task.act_dial_eq_some_iff.mp step
      · simp
      · simp [retry]
  | report =>
      obtain ⟨-, rfl, rfl⟩ := Task.act_report_eq_some_iff.mp step
      simp
  | attach =>
      obtain ⟨conn, link, -, found, rfl, rfl⟩ := Task.act_attach_eq_some_iff.mp step
      cases held : link.conn <;> simp [Table.Attached, found, held]
  | handlerReturns =>
      obtain ⟨conn, -, rfl, rfl⟩ := Task.act_handlerReturns_eq_some_iff.mp step
      simp [serves.dials]
  | detach =>
      obtain ⟨conn, -, rfl, rfl⟩ := Task.act_detach_eq_some_iff.mp step
      simp [retry]
  | wake =>
      obtain ⟨-, rfl, rfl⟩ := Task.act_wake_eq_some_iff.mp step
      simp
  | giveUp =>
      obtain ⟨-, done, -⟩ := Task.act_giveUp_eq_some_iff.mp step
      cases done.symm.trans live
  | exit =>
      obtain ⟨exiting, -⟩ := Task.act_exit_eq_some_iff.mp step
      exact absurd exiting looping

/-- A step of a goroutine keeps the entry exactly when it is not a deferred
section that runs with the link's record. -/
theorem Task.act_links_iff {table result : Table} {task : Task} {action : Action} {pc : Pc}
    (entry : table.links info = some id) (step : task.act table action = some (result, pc)) :
    result.links info = some id ↔ (action = .exit → task.info = info → task.link ≠ id) := by
  by_cases exits : action = .exit
  · subst exits
    obtain ⟨-, rfl, -⟩ := Task.act_exit_eq_some_iff.mp step
    simp only [forall_const]
    constructor
    · rintro kept rfl rfl
      simp [Table.release, entry] at kept
    · intro different
      by_cases sameInfo : task.info = info
      · exact Table.links_release_of_ne entry (different sameInfo).symm
      · unfold Table.release
        split
        · exact (Function.update_of_ne (Ne.symm sameInfo) _ _).trans entry
        · exact entry
  · refine iff_of_true ?_ fun equal => absurd equal exits
    unfold Task.act at step
    split at step <;> grind [Table.wrap, Table.setConn]

end Loop

/-! ## Runs -/

section Run

variable {info : LinkInfo} {id dialer : Nat} {state target : State} {event : Event}

/-- Removing another peer cancels another link. -/
theorem Table.Guards.cancelLink {table : Table} {pointer : Nat} (guards : table.Guards info id)
    (different : pointer ≠ id) : (table.cancelLink pointer).Guards info id where
  inside := by simpa [Table.cancelLink] using guards.inside
  live := by
    refine (Table.done_modify pointer (fun link => { link with cancelled := true }) ?_).trans
      guards.live
    exact fun equal => absurd equal different
  home := guards.home

theorem State.Configured.next (configured : state.Configured info id dialer)
    (keeps : event.Keeps info) (step : state.next event = some target) :
    target.Configured info id dialer := by
  obtain ⟨guards, task, runs, serves⟩ := configured
  cases State.moves_of_next step with
  | rejected | unknown | panicked => exact ⟨guards, task, runs, serves⟩
  | @configured other linkType absent =>
      exact ⟨guards.configure other linkType, task, State.spawn_runs_iff.mpr (.inr runs), serves⟩
  | @removed other pointer link stored cancel =>
      have different : pointer ≠ id := by
        rintro rfl
        exact keeps.1 (guards.home other (Table.stored_eq_some_iff.mp stored).1 ▸ rfl)
      exact ⟨guards.cancelLink different, task, runs, serves⟩
  | cancelled => exact absurd rfl keeps.2
  | connected => exact ⟨guards, task, State.connected_runs_iff.mpr runs, serves⟩
  | @accepted n other waiting =>
      exact ⟨guards.accept other, task, runs.resume_waiting waiting, serves⟩
  | @acted n action actor table pc running acted =>
      refine ⟨guards.act acted, ?_⟩
      by_cases equal : dialer = n
      · subst equal
        cases runs.symm.trans running
        exact ⟨{ task with pc := pc }, (State.resume_runs_iff running).mpr (.inl ⟨rfl, rfl⟩),
          ⟨serves.info, serves.persistent, serves.dials, serves.link⟩⟩
      · exact ⟨task, (State.resume_runs_iff running).mpr (.inr ⟨equal, runs⟩), serves⟩

theorem State.undivided_act_iff {n : Nat} {actor : Task} {action : Action}
    (running : state.Runs n actor) :
    state.Undivided info id dialer (.act n action) ↔
      (action = .exit → actor.info = info → actor.link ≠ id) ∧
        (n = dialer → action = .attach → ∀ conn, ¬ state.table.Attached id conn) := by
  cases action <;> simp [State.Undivided, running.forall_iff]

/-- A step of a goroutine keeps the link exactly when it is undivided. -/
theorem State.Durable.act_iff {n : Nat} {actor : Task} {action : Action} {table : Table} {pc : Pc}
    (durable : state.Durable info id dialer) (configured : state.Configured info id dialer)
    (running : state.Runs n actor) (acted : actor.act state.table action = some (table, pc)) :
    (state.resume n table { actor with pc := pc }).Durable info id dialer ↔
      state.Undivided info id dialer (.act n action) := by
  obtain ⟨entry, task, runs, looping, unfinished⟩ := durable
  obtain ⟨guards, same, again, serves⟩ := configured
  cases runs.symm.trans again
  have link := Task.act_links_iff entry acted
  rw [State.undivided_act_iff running]
  by_cases equal : n = dialer
  · subst equal
    cases runs.symm.trans running
    refine and_congr link ?_
    have loop := serves.act_iff guards looping acted
    simp [State.resume_runs_iff running, loop]
  · simp only [State.Durable, equal, false_implies, and_true]
    refine (and_iff_left ?_).trans link
    exact ⟨task, (State.resume_runs_iff running).mpr (.inr ⟨Ne.symm equal, runs⟩), looping,
      unfinished⟩

/-- Before the link is removed, a step keeps it exactly when it is undivided. -/
theorem State.Durable.next_iff (durable : state.Durable info id dialer)
    (configured : state.Configured info id dialer) (keeps : event.Keeps info)
    (step : state.next event = some target) :
    target.Durable info id dialer ↔ state.Undivided info id dialer event := by
  have guards := configured.guards
  cases State.moves_of_next step with
  | rejected | unknown | removed | panicked => exact iff_of_true durable trivial
  | @configured other linkType absent =>
      obtain ⟨entry, task, runs, looping⟩ := durable
      refine iff_of_true ⟨update_eq_some_iff.mpr (.inr ⟨?_, entry⟩), task,
        State.spawn_runs_iff.mpr (.inr runs), looping⟩ trivial
      rintro rfl
      exact Table.stored_ne_none entry guards.inside absent
  | cancelled => exact absurd rfl keeps.2
  | connected =>
      obtain ⟨entry, task, runs, looping⟩ := durable
      exact iff_of_true ⟨entry, task, State.connected_runs_iff.mpr runs, looping⟩ trivial
  | @accepted n other waiting =>
      obtain ⟨entry, task, runs, looping⟩ := durable
      refine iff_of_true ⟨guards.links_accept entry other, task, ?_, looping⟩ trivial
      exact runs.resume_waiting waiting
  | acted running acted => exact durable.act_iff configured running acted

end Run

/-- A new link of a running node. -/
theorem Table.Valid.guards_configure {table : Table} (valid : table.Valid)
    (running : table.coreCancelled = false) (info : LinkInfo) (linkType : LinkType) :
    (table.configure info linkType).1.Guards info table.heap.length where
  inside := by simp [Table.configure, Table.store, Table.alloc]
  live := by simp [Table.configure, Table.store, Table.alloc, Table.done, running]
  home other entry := by
    rcases update_eq_some_iff.mp entry with ⟨equal, -⟩ | ⟨-, entry⟩
    · exact equal
    · exact absurd (valid.entries other _ entry) (Nat.lt_irrefl _)

/-- What `links.add` leaves behind when it returns nil while the node runs. -/
theorem State.configured_of_add {state : State} {info : LinkInfo} {table : Table} {task : Task}
    (coherent : state.Coherent) (running : state.table.coreCancelled = false)
    (added : state.table.add info .persistent = .ok (table, task)) :
    (state.spawn table (.running task)).Configured info task.link state.workers.length ∧
      (state.spawn table (.running task)).Durable info task.link state.workers.length := by
  obtain ⟨-, outcome⟩ := Table.add_eq_ok_iff.mp added
  have runs : (state.spawn table (.running task)).Runs state.workers.length task :=
    State.spawn_runs_iff.mpr (.inl ⟨rfl, rfl⟩)
  cases outcome
  refine ⟨⟨coherent.valid.guards_configure running info .persistent, _, runs, ?_⟩, ?_, _, runs, ?_⟩
  · exact ⟨rfl, rfl, rfl, rfl⟩
  · exact Function.update_self _ _ _
  · exact ⟨nofun, nofun⟩

/-! ## Runs in which no accepted connection has the key -/

/-- No accepted connection with the key runs its section. -/
def State.Avoids (info : LinkInfo) (state : State) : Event → Prop
  | .accept n => state.workers[n]? ≠ some (.accepted info)
  | _ => True

/-- The positions of the dial loop at which its connection is not attached. -/
def Pc.idle : Pc → Bool
  | .checking | .dialing | .failed | .dialed _ | .backingOff => true
  | _ => false

/-- The dial goroutine is the only one with the record, and leaves it vacant
between its connections. -/
structure State.Sole (info : LinkInfo) (id dialer : Nat) (state : State) : Prop where
  configured : state.Configured info id dialer
  only : ∀ n task, state.Runs n task → task.link = id → n = dialer
  vacant : ∀ task, state.Runs dialer task → task.pc.idle = true →
    ∀ conn, ¬ state.table.Attached id conn

/-- A goroutine that ends up idle has left the records alone or emptied its own. -/
theorem Task.act_idle {table result : Table} {task : Task} {action : Action} {pc : Pc}
    (step : task.act table action = some (result, pc)) (idle : pc.idle = true) :
    (task.pc.idle = true ∧ result.heap = table.heap) ∨ result = table.setConn task.link none := by
  unfold Task.act LinkType.afterFailure at step
  split at step <;> grind [Pc.idle, Table.wrap]

section Sole

variable {info : LinkInfo} {id dialer : Nat} {state target : State} {event : Event}

/-- A sole dial goroutine is undivided. -/
theorem State.Sole.undivided (sole : state.Sole info id dialer)
    (durable : state.Durable info id dialer) (step : state.next event = some target) :
    state.Undivided info id dialer event := by
  cases State.moves_of_next step with
  | @acted n action actor table pc running acted =>
      rw [State.undivided_act_iff running]
      constructor
      · rintro rfl - link
        obtain ⟨exiting, -⟩ := Task.act_exit_eq_some_iff.mp acted
        obtain ⟨-, task, runs, looping, -⟩ := durable
        cases sole.only n actor running link
        cases runs.symm.trans running
        exact looping exiting
      · rintro rfl rfl
        obtain ⟨conn, link, dialed, -⟩ := Task.act_attach_eq_some_iff.mp acted
        exact sole.vacant actor running (by rw [dialed]; rfl)
  | _ => trivial

/-- A step of a goroutine keeps the dial goroutine sole. -/
theorem State.Sole.act {n : Nat} {actor : Task} {action : Action} {table : Table} {pc : Pc}
    (sole : state.Sole info id dialer) (running : state.Runs n actor)
    (acted : actor.act state.table action = some (table, pc))
    (configured : (state.resume n table { actor with pc := pc }).Configured info id dialer) :
    (state.resume n table { actor with pc := pc }).Sole info id dialer where
  configured := configured
  only m task runs link := by
    rcases (State.resume_runs_iff running).mp runs with ⟨rfl, rfl⟩ | ⟨-, ran⟩
    · exact sole.only m actor running link
    · exact sole.only m task ran link
  vacant task runs idle conn attached := by
    rcases (State.resume_runs_iff running).mp runs with ⟨rfl, rfl⟩ | ⟨different, ran⟩
    · -- the dial goroutine itself: idle before, or it has just detached
      rcases Task.act_idle acted idle with ⟨before, same⟩ | emptied
      · refine sole.vacant actor running before conn ?_
        obtain ⟨link, found, held⟩ := attached
        exact ⟨link, same ▸ found, held⟩
      · subst emptied
        obtain ⟨guards, task, runs', serves⟩ := sole.configured
        cases runs'.symm.trans running
        rw [serves.link] at attached
        cases (Table.attached_setConn_self guards.inside).mp attached
    · have vacant := sole.vacant task ran idle conn
      rcases Task.act_table acted with rfl | rfl | ⟨value, -, -, rfl⟩ | ⟨rfl, -⟩
      · exact vacant attached
      · exact vacant attached
      · refine vacant ((Table.attached_setConn_of_ne fun link => ?_).mp attached)
        exact different (sole.only n actor running link.symm).symm
      · exact vacant (Table.attached_release.mp attached)

/-- A section of an accepted connection with another key leaves the record alone. -/
theorem State.Sole.accept {n : Nat} {other : LinkInfo} (sole : state.Sole info id dialer)
    (accepted : state.workers[n]? = some (.accepted other)) (different : other ≠ info)
    (configured : (state.resume n (state.table.accept other).1
      (state.table.accept other).2).Configured info id dialer) :
    (state.resume n (state.table.accept other).1 (state.table.accept other).2).Sole
      info id dialer := by
  have guards := sole.configured.guards
  have foreign : (state.table.accept other).2.link ≠ id ∧
      ∀ conn, (state.table.accept other).1.Attached id conn → state.table.Attached id conn := by
    rcases state.table.accept_cases other with
      ⟨pointer, link, conn, stored, -, outcome⟩ | ⟨pointer, link, stored, -, outcome⟩ | ⟨-, outcome⟩
    · rw [outcome]
      refine ⟨?_, fun conn attached => attached⟩
      rintro rfl
      exact different (guards.home other (Table.stored_eq_some_iff.mp stored).1)
    · have apart : id ≠ pointer := by
        rintro rfl
        exact different (guards.home other (Table.stored_eq_some_iff.mp stored).1)
      rw [outcome]
      exact ⟨apart.symm, fun conn attached => (Table.attached_setConn_of_ne apart).mp attached⟩
    · have apart : id ≠ state.table.heap.length := Nat.ne_of_lt guards.inside
      rw [outcome]
      refine ⟨apart.symm, fun conn attached => ?_⟩
      exact Table.Attached.of_alloc ((Table.attached_setConn_of_ne apart).mp attached) rfl
  refine ⟨configured, fun m task runs link => ?_, fun task runs idle conn attached => ?_⟩
  · rcases (State.resume_runs_iff accepted).mp runs with ⟨-, rfl⟩ | ⟨-, ran⟩
    · exact absurd link foreign.1
    · exact sole.only m task ran link
  · obtain ⟨-, dialing, runs', -⟩ := sole.configured
    rcases (State.resume_runs_iff accepted).mp runs with ⟨rfl, -⟩ | ⟨-, ran⟩
    · cases runs'.symm.trans accepted
    · exact sole.vacant task ran idle conn (foreign.2 conn attached)

theorem State.Sole.next (sole : state.Sole info id dialer) (keeps : event.Keeps info)
    (avoids : state.Avoids info event) (step : state.next event = some target) :
    target.Sole info id dialer := by
  have configured := sole.configured.next keeps step
  have guards := sole.configured.guards
  cases State.moves_of_next step with
  | rejected | unknown => exact sole
  | @configured other linkType absent =>
      refine ⟨configured, fun n task runs link => ?_, fun task runs idle conn attached => ?_⟩
      · rcases State.spawn_runs_iff.mp runs with ⟨-, same⟩ | ran
        · cases same
          exact absurd link (Nat.ne_of_lt guards.inside).symm
        · exact sole.only n task ran link
      · obtain ⟨-, dialing, runs', -⟩ := sole.configured
        rcases State.spawn_runs_iff.mp runs with ⟨equal, -⟩ | ran
        · exact absurd runs'.lt_length (equal ▸ Nat.lt_irrefl _)
        · exact sole.vacant task ran idle conn (Table.Attached.of_alloc attached rfl)
  | removed =>
      refine ⟨configured, sole.only, fun task runs idle conn attached => ?_⟩
      exact sole.vacant task runs idle conn (Table.attached_cancelLink.mp attached)
  | panicked => exact ⟨configured, sole.only, sole.vacant⟩
  | cancelled => exact absurd rfl keeps.2
  | connected =>
      refine ⟨configured, fun n task runs => ?_, fun task runs => ?_⟩
      · exact sole.only n task (State.connected_runs_iff.mp runs)
      · exact sole.vacant task (State.connected_runs_iff.mp runs)
  | @accepted n other waiting =>
      refine sole.accept waiting ?_ configured
      rintro rfl
      exact avoids waiting
  | acted running acted => exact sole.act running acted configured

end Sole

theorem State.Coherent.sole_of_add {state : State} {info : LinkInfo} {table : Table} {task : Task}
    (coherent : state.Coherent) (running : state.table.coreCancelled = false)
    (added : state.table.add info .persistent = .ok (table, task)) :
    (state.spawn table (.running task)).Sole info task.link state.workers.length := by
  have configured := (State.configured_of_add coherent running added).1
  obtain ⟨-, outcome⟩ := Table.add_eq_ok_iff.mp added
  cases outcome
  refine ⟨configured, fun n other runs link => ?_, fun other runs idle => Table.alloc_vacant⟩
  rcases State.spawn_runs_iff.mp runs with ⟨equal, -⟩ | ran
  · exact equal
  · exact absurd link (Nat.ne_of_lt (coherent.fits n other ran).allocated)

/-- A persistent link is kept, from the moment `add` returned nil until it is
removed or the core context is cancelled, exactly in the runs in which no
accepted connection's deferred section runs with its record and none is attached
to it when the dial goroutine attaches its own.  This is so if no accepted
connection has the key of the link. -/
theorem persistent_durable_iff {before events : List Event} {state : State} {info : LinkInfo}
    {table : Table} {task : Task} (reached : run State.next .init before = some state)
    (running : state.table.coreCancelled = false)
    (added : state.table.add info .persistent = .ok (table, task))
    (later : ∀ event ∈ events, event.Keeps info) :
    (Throughout State.next (State.Durable info task.link state.workers.length)
        (state.spawn table (.running task)) events ↔
      EveryStep State.next (State.Undivided info task.link state.workers.length)
        (state.spawn table (.running task)) events) ∧
    (EveryStep State.next (State.Avoids info) (state.spawn table (.running task)) events →
      Throughout State.next (State.Durable info task.link state.workers.length)
        (state.spawn table (.running task)) events) := by
  have coherent := invariant_of_run reached State.coherent_init fun coherent step =>
    coherent.next step
  obtain ⟨configured, durable⟩ := State.configured_of_add coherent running added
  have sole := coherent.sole_of_add running added
  constructor
  · exact throughout_iff_everyStep_of_permitted later configured durable
      (fun keeps configured _ step => configured.next keeps step)
      fun keeps configured durable step => durable.next_iff configured keeps step
  · intro avoids
    have held : Throughout State.next
        (fun reached => reached.Sole info task.link state.workers.length ∧
          reached.Durable info task.link state.workers.length)
        (state.spawn table (.running task)) events := by
      refine (avoids.and_of_forall_mem later).throughout ⟨sole, durable⟩ ?_
      rintro reached event target ⟨sole, durable⟩ ⟨keeps, avoids⟩ step
      exact ⟨sole.next keeps avoids step,
        (durable.next_iff sole.configured keeps step).mpr (sole.undivided durable step)⟩
    exact held.mono fun _ holds => holds.2

/-- The key of a configured peer. -/
def tcpPeer : LinkInfo := ⟨"tcp://192.0.2.1:9001", ""⟩

/-- A peer that cannot be reached stays configured. -/
theorem persistent_durable_unreachable :
    Throughout State.next (State.Durable tcpPeer 0 0)
      (State.init.spawn (State.init.table.configure tcpPeer .persistent).1
        (.running (State.init.table.configure tcpPeer .persistent).2))
      [.act 0 .check, .act 0 (.dial false), .act 0 .report, .act 0 .wake, .act 0 .check] := by
  refine (@persistent_durable_iff [] _ State.init tcpPeer _ _ rfl rfl rfl ?_).2 ?_
  · simp [Event.Keeps]
  · exact fun _ _ => ⟨trivial, fun _ _ => ⟨trivial, fun _ _ => ⟨trivial, fun _ _ =>
      ⟨trivial, fun _ _ => ⟨trivial, trivial⟩⟩⟩⟩⟩

/-- An accepted connection with the key of a configured peer comes and goes. -/
def sharedVisit (info : LinkInfo) : List Event :=
  [.connected info, .accept 1, .act 1 .handlerReturns, .act 1 .exit]

theorem run_sharedVisit (info : LinkInfo) :
    ∃ state, run State.next (State.init.spawn (State.init.table.configure info .persistent).1
        (.running (State.init.table.configure info .persistent).2)) (sharedVisit info) =
          some state ∧
      state.table.links info = none := by
  simp [sharedVisit, run, State.next, State.advance, State.init, State.spawn, State.resume,
    Table.configure, Table.accept, Table.stored, Table.adopt, Table.alloc, Table.store, Table.wrap,
    Table.setConn, Task.act, Table.release]

/-- After such a visit the peer is no longer configured. -/
theorem tcpPeer_forgotten :
    ∃ state, run State.next (State.init.spawn (State.init.table.configure tcpPeer .persistent).1
        (.running (State.init.table.configure tcpPeer .persistent).2)) (sharedVisit tcpPeer) =
          some state ∧
      (∀ event ∈ sharedVisit tcpPeer, event.Keeps tcpPeer) ∧
      ¬ state.Durable tcpPeer 0 0 := by
  obtain ⟨state, ended, deleted⟩ := run_sharedVisit tcpPeer
  refine ⟨state, ended, by simp [sharedVisit, Event.Keeps], ?_⟩
  rintro ⟨entry, -⟩
  cases entry.symm.trans deleted

end Uqda.Links
