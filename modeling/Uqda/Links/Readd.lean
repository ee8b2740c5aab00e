import Uqda.Links.Durable
import Uqda.Links.Peering

/-!
# Removing a peer and adding it again

`remove` cancels the context of a link and leaves its entry to the deferred
section of the dial goroutine, which runs when that goroutine next looks at the
context.  `add` looks at the entry only.  Between the two, an `add` finds the
link that is on its way out, reports it as already configured and starts
nothing, and the deferred section then deletes the entry.

Without accepted connections the entries of the table are exactly the links
whose dial goroutine has not returned, so an `add` is lost exactly when it runs
before the dial goroutine of a removed link has.
-/

namespace Uqda.Links

open Uqda.Store Uqda.Transition

/-- Requests for persistent peers and steps of their goroutines. -/
def Event.Requested : Event → Prop
  | .add _ linkType => linkType = .persistent
  | .remove _ | .act _ _ => True
  | .cancelCore | .connected _ | .accept _ => False

/-- The link stored under the key has a context that is not done. -/
def State.Retains (info : LinkInfo) (state : State) : Prop :=
  ∃ id, state.table.links info = some id ∧ state.table.done id = false

/-- When `add` has run its section, the table holds a link that was not removed. -/
def State.AddRetained (state : State) : Event → Prop
  | .add info linkType =>
      ∀ target, state.next (.add info linkType) = some target → target.Retains info
  | _ => True

/-- No dial goroutine of a removed link with the key of an `add` is left. -/
def State.Vacated (state : State) : Event → Prop
  | .add info _ => ∀ n task, state.Runs n task → task.info = info → task.pc ≠ .finished →
      state.table.done task.link = false
  | _ => True

/-- What holds while no connection is accepted and the core context is not
cancelled.  A persistent dial loop returns only when its link was removed. -/
structure State.Outbound (state : State) : Prop extends state.Exclusive where
  running : state.table.coreCancelled = false
  persistent : ∀ n task, state.Runs n task → task.dials = true ∧ task.linkType = .persistent
  attended : ∀ info id, state.table.links info = some id →
    ∃ n task, state.Runs n task ∧ task.info = info ∧ task.link = id ∧ task.pc ≠ .finished
  vacant : ∀ n task, state.Runs n task → task.pc.idle = true →
    ∀ conn, ¬ state.table.Attached task.link conn
  removed : ∀ n task, state.Runs n task → task.pc = .exiting → state.table.done task.link = true

/-! ## Contexts -/

section Contexts

variable {table result : Table} {task : Task} {action : Action} {pc : Pc} {id : Nat}

/-- Goroutines do not cancel contexts. -/
theorem Task.act_done (step : task.act table action = some (result, pc)) :
    result.done id = table.done id := by
  rcases Task.act_table step with rfl | rfl | ⟨value, -, -, rfl⟩ | ⟨rfl, -⟩
  · rfl
  · rfl
  · exact Table.done_modify task.link (fun link => { link with conn := value }) fun _ _ => rfl
  · unfold Table.release
    split <;> rfl

/-- A goroutine finishes by running its deferred section. -/
theorem Task.act_finished (step : task.act table action = some (result, .finished)) :
    result = table.release task.info task.link := by
  unfold Task.act LinkType.afterFailure at step
  split at step <;> grind

theorem Task.act_coreCancelled (step : task.act table action = some (result, pc)) :
    result.coreCancelled = table.coreCancelled := by
  rcases Task.act_table step with rfl | rfl | ⟨value, -, -, rfl⟩ | ⟨rfl, -⟩
  · rfl
  · rfl
  · rfl
  · unfold Table.release
    split <;> rfl

theorem Table.done_configure (info : LinkInfo) (linkType : LinkType)
    (inside : id < table.heap.length) :
    (table.configure info linkType).1.done id = table.done id := by
  simp [Table.configure, Table.done, Table.alloc, Table.store, List.getElem?_append_left inside]

/-- The context of a new link is done only if the core context is. -/
theorem Table.done_configure_self (info : LinkInfo) (linkType : LinkType) :
    (table.configure info linkType).1.done table.heap.length = table.coreCancelled := by
  simp [Table.configure, Table.done, Table.alloc, Table.store]

/-- A context stays done. -/
theorem Table.done_cancelLink {pointer : Nat} (done : table.done id = true) :
    (table.cancelLink pointer).done id = true := by
  unfold Table.done Table.cancelLink at *
  by_cases equal : pointer = id
  · subst equal
    cases found : table.heap[pointer]? <;> simp_all
  · simpa [equal] using done

end Contexts

/-! ## Steps -/

section Steps

variable {state target : State} {event : Event}

/-- Only one key leads to a record. -/
theorem State.Outbound.guards (outbound : state.Outbound) {n : Nat} {task : Task}
    (runs : state.Runs n task) (live : state.table.done task.link = false) :
    state.table.Guards task.info task.link where
  inside := (outbound.coherent.fits n task runs).allocated
  live := live
  home info entry := by
    obtain ⟨m, other, runs', rfl, link, -⟩ := outbound.attended info task.link entry
    cases outbound.owner m other n task runs' runs link
    cases runs.symm.trans runs'
    rfl

/-- A goroutine starts to return only when its link was removed. -/
theorem State.Outbound.returns {n : Nat} {task : Task} {action : Action} {table : Table} {pc : Pc}
    (outbound : state.Outbound) (runs : state.Runs n task)
    (step : task.act state.table action = some (table, pc)) (exiting : pc = .exiting) :
    state.table.done task.link = true := by
  by_contra live
  rw [Bool.not_eq_true] at live
  obtain ⟨dials, persistent⟩ := outbound.persistent n task runs
  have looping : task.pc ≠ .exiting := fun already => by
    rw [outbound.removed n task runs already] at live
    cases live
  have serves : task.DialsFor task.info task.link := ⟨rfl, persistent, dials, rfl⟩
  refine ((serves.act_iff (outbound.guards runs live) looping step).mpr ?_).1 exiting
  rintro rfl
  obtain ⟨conn, link, dialed, -⟩ := Task.act_attach_eq_some_iff.mp step
  exact outbound.vacant n task runs (by rw [dialed]; rfl)

theorem State.Outbound.act {n : Nat} {task : Task} {action : Action} {table : Table} {pc : Pc}
    (outbound : state.Outbound) (runs : state.Runs n task)
    (step : task.act state.table action = some (table, pc))
    (exclusive : (state.resume n table { task with pc := pc }).Exclusive) :
    (state.resume n table { task with pc := pc }).Outbound where
  toExclusive := exclusive
  running := (Task.act_coreCancelled step).trans outbound.running
  persistent m other runs' := by
    rcases (State.resume_runs_iff runs).mp runs' with ⟨rfl, rfl⟩ | ⟨-, ran⟩
    · exact outbound.persistent m task runs
    · exact outbound.persistent m other ran
  attended info id entry := by
    have before : state.table.links info = some id := by
      rcases Task.act_table step with rfl | rfl | ⟨value, -, -, rfl⟩ | ⟨rfl, -⟩
      · exact entry
      · exact entry
      · exact entry
      · exact Table.links_of_release entry
    obtain ⟨m, other, ran, rfl, rfl, unfinished⟩ := outbound.attended info id before
    by_cases equal : m = n
    · subst equal
      cases runs.symm.trans ran
      refine ⟨m, _, (State.resume_runs_iff runs).mpr (.inl ⟨rfl, rfl⟩), rfl, rfl, ?_⟩
      -- the goroutine that finishes has just deleted its entry
      rintro rfl
      cases Task.act_finished step
      simp [State.resume, Table.release, before] at entry
    · exact ⟨m, other, (State.resume_runs_iff runs).mpr (.inr ⟨equal, ran⟩), rfl, rfl, unfinished⟩
  vacant m other runs' idle conn attached := by
    rcases (State.resume_runs_iff runs).mp runs' with ⟨rfl, rfl⟩ | ⟨different, ran⟩
    · rcases Task.act_idle step idle with ⟨before, same⟩ | rfl
      · obtain ⟨link, found, held⟩ := attached
        exact outbound.vacant m task runs before conn ⟨link, same ▸ found, held⟩
      · have inside := (outbound.coherent.fits m task runs).allocated
        cases (Table.attached_setConn_self inside).mp attached
    · have vacant := outbound.vacant m other ran idle conn
      rcases Task.act_table step with rfl | rfl | ⟨value, -, -, rfl⟩ | ⟨rfl, -⟩
      · exact vacant attached
      · exact vacant attached
      · refine vacant ((Table.attached_setConn_of_ne fun link => ?_).mp attached)
        exact different (outbound.owner m other n task ran runs link)
      · exact vacant (Table.attached_release.mp attached)
  removed m other runs' exiting := by
    refine (Task.act_done step).trans ?_
    rcases (State.resume_runs_iff runs).mp runs' with ⟨rfl, rfl⟩ | ⟨-, ran⟩
    · have removed := outbound.returns runs step exiting
      exact removed
    · exact outbound.removed m other ran exiting

theorem State.Outbound.configure (outbound : state.Outbound) (info : LinkInfo)
    (exclusive : (state.spawn (state.table.configure info .persistent).1
      (.running (state.table.configure info .persistent).2)).Exclusive) :
    (state.spawn (state.table.configure info .persistent).1
      (.running (state.table.configure info .persistent).2)).Outbound where
  toExclusive := exclusive
  running := outbound.running
  persistent n task runs := by
    rcases State.spawn_runs_iff.mp runs with ⟨-, same⟩ | ran
    · cases same
      exact ⟨rfl, rfl⟩
    · exact outbound.persistent n task ran
  attended other id entry := by
    rcases update_eq_some_iff.mp entry with ⟨rfl, same⟩ | ⟨-, before⟩
    · cases same
      exact ⟨_, _, State.spawn_runs_iff.mpr (.inl ⟨rfl, rfl⟩), rfl, rfl, nofun⟩
    · obtain ⟨n, task, ran, rest⟩ := outbound.attended other id before
      exact ⟨n, task, State.spawn_runs_iff.mpr (.inr ran), rest⟩
  vacant n task runs idle conn attached := by
    rcases State.spawn_runs_iff.mp runs with ⟨-, same⟩ | ran
    · cases same
      exact Table.alloc_vacant conn attached
    · exact outbound.vacant n task ran idle conn (Table.Attached.of_alloc attached rfl)
  removed n task runs exiting := by
    rcases State.spawn_runs_iff.mp runs with ⟨-, same⟩ | ran
    · cases same
      cases exiting
    · have inside := (outbound.coherent.fits n task ran).allocated
      exact (Table.done_configure info .persistent inside).trans
        (outbound.removed n task ran exiting)

theorem State.Outbound.next (outbound : state.Outbound) (requested : event.Requested)
    (step : state.next event = some target) : target.Outbound := by
  have uncontended : state.Uncontended event := by
    cases event with
    | accept n => exact requested.elim
    | _ => trivial
  have exclusive := outbound.toExclusive.next uncontended step
  cases State.moves_of_next step with
  | rejected | unknown => exact outbound
  | @configured info =>
      cases requested
      exact outbound.configure info exclusive
  | removed =>
      refine ⟨exclusive, outbound.running, outbound.persistent, outbound.attended, ?_, ?_⟩
      · intro n task runs idle conn attached
        exact outbound.vacant n task runs idle conn (Table.attached_cancelLink.mp attached)
      · intro n task runs exiting
        exact Table.done_cancelLink (outbound.removed n task runs exiting)
  | panicked =>
      exact ⟨exclusive, outbound.running, outbound.persistent, outbound.attended, outbound.vacant,
        outbound.removed⟩
  | cancelled | connected | accepted => exact requested.elim
  | acted runs acted => exact outbound.act runs acted exclusive

theorem State.outbound_init : State.init.Outbound where
  coherent := State.coherent_init
  owner _ _ _ _ runs := absurd runs State.not_runs_init
  stored _ _ runs := absurd runs State.not_runs_init
  running := rfl
  persistent _ _ runs := absurd runs State.not_runs_init
  attended _ _ := nofun
  vacant _ _ runs := absurd runs State.not_runs_init
  removed _ _ runs := absurd runs State.not_runs_init

/-- The section of `add` leaves a link that was not removed exactly when no
goroutine of a removed one is left. -/
theorem State.Outbound.addRetained_iff (outbound : state.Outbound)
    (step : state.next event = some target) : state.AddRetained event ↔ state.Vacated event := by
  cases event with
  | add info linkType =>
      have retained : state.AddRetained (.add info linkType) ↔ target.Retains info :=
        ⟨fun retained => retained target step, fun retains other step' => by
          cases step.symm.trans step'
          exact retains⟩
      rw [retained]
      cases State.moves_of_next step with
      | rejected present =>
          constructor
          · rintro ⟨id, entry, live⟩ n task runs rfl unfinished
            cases entry.symm.trans (outbound.stored n task runs unfinished)
            exact live
          · intro vacated
            obtain ⟨⟨id, link⟩, stored⟩ := Option.ne_none_iff_exists'.mp present
            have entry := (Table.stored_eq_some_iff.mp stored).1
            obtain ⟨n, task, runs, rfl, rfl, unfinished⟩ := outbound.attended info id entry
            exact ⟨task.link, entry, vacated n task runs rfl unfinished⟩
      | configured absent =>
          refine iff_of_true ?_ ?_
          · exact ⟨state.table.heap.length, Function.update_self _ _ _,
              (Table.done_configure_self info linkType).trans outbound.running⟩
          · rintro n task runs rfl unfinished
            exact absurd absent (Table.stored_ne_none (outbound.stored n task runs unfinished)
              (outbound.coherent.fits n task runs).allocated)
  | _ => exact iff_of_true trivial trivial

/-- A link that was not removed stays until it is. -/
theorem State.Retains.next {info : LinkInfo} (retains : state.Retains info)
    (outbound : state.Outbound) (requested : event.Requested) (kept : event ≠ .remove info)
    (step : state.next event = some target) : target.Retains info := by
  obtain ⟨id, entry, live⟩ := retains
  obtain ⟨n, task, runs, rfl, rfl, -⟩ := outbound.attended info id entry
  have guards := outbound.guards runs live
  cases State.moves_of_next step with
  | rejected | unknown | panicked => exact ⟨task.link, entry, live⟩
  | @configured other linkType absent =>
      refine ⟨task.link, update_eq_some_iff.mpr (.inr ⟨?_, entry⟩),
        (guards.configure other linkType).live⟩
      rintro rfl
      exact Table.stored_ne_none entry guards.inside absent
  | @removed other pointer link stored cancel =>
      have different : pointer ≠ task.link := by
        rintro rfl
        exact kept (guards.home other (Table.stored_eq_some_iff.mp stored).1 ▸ rfl)
      exact ⟨task.link, entry, (guards.cancelLink different).live⟩
  | cancelled | connected | accepted => exact requested.elim
  | @acted m action actor table pc running acted =>
      refine ⟨task.link, (Task.act_links_iff entry acted).mpr ?_, (guards.act acted).live⟩
      rintro rfl - link
      obtain ⟨exiting, -⟩ := Task.act_exit_eq_some_iff.mp acted
      rw [← link, outbound.removed m actor running exiting] at live
      cases live

end Steps

/-! ## Runs -/

section Run

variable {events : List Event} {state target : State}

theorem State.Outbound.run (outbound : state.Outbound)
    (requested : ∀ event ∈ events, event.Requested)
    (ended : run State.next state events = some target) : target.Outbound :=
  (throughout_of_permitted requested outbound fun requested outbound step =>
    outbound.next requested step).last ended

/-- Until it is removed, a link is retained in every run. -/
theorem State.Retains.run {info : LinkInfo} (retains : state.Retains info)
    (outbound : state.Outbound) (requested : ∀ event ∈ events, event.Requested)
    (kept : .remove info ∉ events) (ended : run State.next state events = some target) :
    target.Retains info := by
  have permitted : ∀ event ∈ events, event.Requested ∧ event ≠ .remove info :=
    fun event member => ⟨requested event member, fun equal => kept (equal ▸ member)⟩
  have held : Throughout State.next (fun reached => reached.Outbound ∧ reached.Retains info)
      state events := by
    refine throughout_of_permitted permitted ⟨outbound, retains⟩ ?_
    rintro reached event target ⟨requested, kept⟩ ⟨outbound, retains⟩ step
    exact ⟨outbound.next requested step, retains.next outbound requested kept step⟩
  exact (held.last ended).2

theorem everyStep_addRetained_iff (requested : ∀ event ∈ events, event.Requested) :
    EveryStep State.next State.AddRetained .init events ↔
      EveryStep State.next State.Vacated .init events :=
  everyStep_congr_of_permitted requested State.outbound_init
    (fun requested outbound step => outbound.next requested step)
    fun _ outbound step => outbound.addRetained_iff step

/-- A peer whose last `add` has not been followed by a `remove` is configured. -/
theorem retains_of_everyStep {before after : List Event} {info : LinkInfo}
    (requested : ∀ event ∈ before ++ .add info .persistent :: after, event.Requested)
    (retained : EveryStep State.next State.AddRetained .init
      (before ++ .add info .persistent :: after))
    (kept : .remove info ∉ after)
    (ended : run State.next .init (before ++ .add info .persistent :: after) = some target) :
    target.Retains info := by
  obtain ⟨state, reached, rest⟩ := run_append_eq_some_iff.mp ended
  obtain ⟨added, step, last⟩ := run_cons_eq_some_iff.mp rest
  obtain ⟨requestedBefore, requestedAdd⟩ := List.forall_mem_append.mp requested
  obtain ⟨persistent, requestedAfter⟩ := List.forall_mem_cons.mp requestedAdd
  have outbound := State.outbound_init.run requestedBefore reached
  have retains := ((retained.of_append reached) added step).1 added step
  exact retains.run (outbound.next persistent step) requestedAfter kept last

end Run

/-- In any interleaving of requests for persistent peers with the steps of their
dial goroutines, every `add` leaves a link that was not removed exactly when each
`add` runs after the goroutines of the removed links with its key have returned.
A peer that was then added and not removed again is configured. -/
theorem addRetained_iff_vacated (events : List Event)
    (requested : ∀ event ∈ events, event.Requested) :
    (EveryStep State.next State.AddRetained .init events ↔
      EveryStep State.next State.Vacated .init events) ∧
    (EveryStep State.next State.Vacated .init events →
      ∀ before after info state, events = before ++ .add info .persistent :: after →
        .remove info ∉ after → run State.next .init events = some state →
          state.Retains info) := by
  refine ⟨everyStep_addRetained_iff requested, ?_⟩
  rintro vacated before after info state rfl kept ended
  have met := (everyStep_addRetained_iff requested).mpr vacated
  exact retains_of_everyStep requested met kept ended

/-- A peer is removed and, after its dial goroutine has returned, added again. -/
def orderlyReadd (info : LinkInfo) : List Event :=
  [.add info .persistent, .remove info, .act 0 .check, .act 0 .exit, .add info .persistent]

theorem run_orderlyReadd (info : LinkInfo) :
    ∃ state, run State.next .init (orderlyReadd info) = some state := by
  simp [orderlyReadd, run, State.next, State.advance, State.init, State.spawn, State.resume,
    Table.add, Table.configure, Table.stored, Table.alloc, Table.store, Table.remove,
    Table.cancelLink, Table.done, Task.act, Table.release]

theorem vacated_orderlyReadd (info : LinkInfo) :
    EveryStep State.next State.Vacated .init (orderlyReadd info) := by
  simp [orderlyReadd, EveryStep, State.next, State.advance, State.init, State.spawn, State.resume,
    State.Vacated, State.Runs, Table.add, Table.configure, Table.stored, Table.alloc, Table.store,
    Table.remove, Table.cancelLink, Table.done, Task.act, Table.release]
  intro n task runs _ unfinished
  have member := List.mem_of_getElem? runs
  rw [List.mem_singleton, Worker.running.injEq] at member
  exact absurd (congrArg Task.pc member) unfinished

/-- After an orderly removal, the peer is configured again. -/
theorem tcpPeer_readded :
    ∃ state, run State.next .init (orderlyReadd tcpPeer) = some state ∧ state.Retains tcpPeer := by
  obtain ⟨state, ended⟩ := run_orderlyReadd tcpPeer
  refine ⟨state, ended, (addRetained_iff_vacated (orderlyReadd tcpPeer) ?_).2
    (vacated_orderlyReadd tcpPeer)
    [.add tcpPeer .persistent, .remove tcpPeer, .act 0 .check, .act 0 .exit] [] tcpPeer state rfl
    List.not_mem_nil ended⟩
  simp [orderlyReadd, Event.Requested]

/-- A peer is removed and added again while its dial goroutine backs off. -/
def hastyReadd (info : LinkInfo) : List Event :=
  [.add info .persistent, .act 0 .check, .act 0 (.dial false), .act 0 .report, .remove info,
    .add info .persistent, .act 0 .giveUp, .act 0 .exit]

theorem run_hastyReadd (info : LinkInfo) :
    ∃ state, run State.next .init (hastyReadd info) = some state ∧
      state.table.links info = none ∧
      ∀ worker ∈ state.workers, ∃ task, worker = .running task ∧ task.pc = .finished := by
  simp [hastyReadd, run, State.next, State.advance, State.init, State.spawn, State.resume,
    Table.add, Table.configure, Table.stored, Table.alloc, Table.store, Table.remove,
    Table.cancelLink, Table.done, Table.setConn, Task.act, LinkType.afterFailure, Table.release]

/-- The second `add` is lost: it meets the link on its way out, and when every
goroutine has returned the peer is not configured. -/
theorem tcpPeer_readd_lost :
    (∀ event ∈ hastyReadd tcpPeer, event.Requested) ∧
    ¬ EveryStep State.next State.AddRetained .init (hastyReadd tcpPeer) ∧
    ∃ state, run State.next .init (hastyReadd tcpPeer) = some state ∧
      state.table.links tcpPeer = none ∧
      ∀ worker ∈ state.workers, ∃ task, worker = .running task ∧ task.pc = .finished := by
  have requested : ∀ event ∈ hastyReadd tcpPeer, event.Requested := by
    simp [hastyReadd, Event.Requested]
  obtain ⟨state, ended, deleted, finished⟩ := run_hastyReadd tcpPeer
  refine ⟨requested, fun retained => ?_, state, ended, deleted, finished⟩
  obtain ⟨id, entry, -⟩ := @retains_of_everyStep state
    [.add tcpPeer .persistent, .act 0 .check, .act 0 (.dial false), .act 0 .report, .remove tcpPeer]
    [.act 0 .giveUp, .act 0 .exit] tcpPeer requested retained (by simp) ended
  cases entry.symm.trans deleted

end Uqda.Links
