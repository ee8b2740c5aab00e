import Uqda.Transition.Core
import Mathlib.Data.List.Count

/-!
# The announce timer

The messages between `AnnounceNow`, `_announce` and its timer in
`src/multicast/multicast.go`, for a module that was started.  What `_announce` does
beside arming the timer is left out here.

`_announce` arms a timer whose function posts `_announce` again.  `AnnounceNow` runs a
section on the actor that stops the timer and posts `_announce` itself.  If the timer
cannot be stopped, the section receives from the channel of the timer.  A timer made by
`time.AfterFunc` has no channel, and such a receive never returns: the timer may have
fired, with its `_announce` still to come, or an earlier `AnnounceNow` may have stopped
it.
-/

namespace Uqda.Multicast

open Uqda.Transition

/-- Where a timer stands.  One that has `fired` has started the goroutine of its function,
which has not posted `_announce` yet. -/
inductive TimerStatus where
  | armed
  | stopped
  | fired
  | posted
  deriving DecidableEq, Repr

/-- The timer will post `_announce` unless it is stopped. -/
def TimerStatus.pending (status : TimerStatus) : Bool :=
  status = .armed ∨ status = .fired

/-- The sections in the inbox of the actor. -/
inductive Task where
  | announce
  | announceNow
  | stop
  deriving DecidableEq, Repr

/-- The actor with all timers that it has made.  `timer` is `_timer`, and `blocked` says
that a section waits for a channel that nobody sends to. -/
structure Announcer where
  running : Bool
  timer : Option Nat
  timers : List TimerStatus
  inbox : List Task
  blocked : Bool
  deriving DecidableEq, Repr

/-- The actor after `_start`. -/
def Announcer.start : Announcer :=
  ⟨true, none, [], [.announce], false⟩

/-- `m.Act`. -/
def Announcer.act (m : Announcer) (task : Task) : Announcer :=
  { m with inbox := m.inbox ++ [task] }

/-- The end of `_announce`. -/
def Announcer.announce (m : Announcer) : Announcer :=
  if m.running then
    { m with timer := some m.timers.length, timers := m.timers ++ [.armed] }
  else
    m

/-- The section of `AnnounceNow`. -/
def Announcer.announceNow (m : Announcer) : Announcer :=
  match m.timer with
  | none => m.act .announce
  | some timer =>
      if m.timers[timer]? = some .armed then
        { m with timers := m.timers.set timer .stopped }.act .announce
      else
        { m with blocked := true }

/-- One section of the inbox. -/
def Announcer.perform (m : Announcer) : Task → Announcer
  | .announce => m.announce
  | .announceNow => m.announceNow
  | .stop => { m with running := false }

/-- What can happen: calls of `AnnounceNow` and `Stop`, a timer that fires, its goroutine
that posts, and the next section of the inbox. -/
inductive AnnounceEvent where
  | announceNow
  | stop
  | fire (timer : Nat)
  | post (timer : Nat)
  | run
  deriving DecidableEq, Repr

/-- One event.  A timer fires only if it is armed. -/
def Announcer.next : Step Announcer AnnounceEvent
  | m, .announceNow => some (m.act .announceNow)
  | m, .stop => some (m.act .stop)
  | m, .fire timer =>
      if m.timers[timer]? = some .armed then
        some { m with timers := m.timers.set timer .fired }
      else
        none
  | m, .post timer =>
      if m.timers[timer]? = some .fired then
        some ({ m with timers := m.timers.set timer .posted }.act .announce)
      else
        none
  | m, .run =>
      match m.blocked, m.inbox with
      | false, task :: rest => some ({ m with inbox := rest }.perform task)
      | _, _ => none

/-! ## Pending announcements -/

/-- The announcements to come: timers that will post one and those in the inbox. -/
def Announcer.pending (m : Announcer) : Nat :=
  m.timers.countP TimerStatus.pending + m.inbox.count .announce

/-- While the module runs, no section waits for a channel and at most one announcement is
pending. -/
def Announcer.Live (m : Announcer) : Prop :=
  m.running = true → m.blocked = false ∧ m.pending ≤ 1

/-- A section of `AnnounceNow` that runs finds the timer armed. -/
def Announcer.Prompt (m : Announcer) (event : AnnounceEvent) : Prop :=
  event = .run → m.running = true → m.inbox.head? = some .announceNow →
    ∃ timer, m.timer = some timer ∧ m.timers[timer]? = some .armed

/-- While the module runs and nothing is blocked, one announcement is pending.  Before
the first one there is no timer, and it is the first section of the inbox. -/
structure Announcer.Counted (m : Announcer) : Prop where
  one : m.running = true → m.blocked = false → m.pending = 1
  first : m.running = true → m.timer = none → m.inbox.head? = some .announce

/-- Writing the status of a timer moves the count by what is gained and lost. -/
theorem countP_set_add {timers : List TimerStatus} {timer : Nat} {old new : TimerStatus}
    (found : timers[timer]? = some old) :
    (timers.set timer new).countP TimerStatus.pending + old.pending.toNat =
      timers.countP TimerStatus.pending + new.pending.toNat := by
  induction timers generalizing timer with
  | nil => cases found
  | cons first timers ih =>
      cases timer with
      | zero =>
          cases found
          cases old <;> cases new <;> simp [TimerStatus.pending]
      | succ timer =>
          have rest := @ih timer found
          simp only [List.set_cons_succ, List.countP_cons]
          omega

theorem Announcer.pending_act (m : Announcer) (task : Task) :
    (m.act task).pending = m.pending + if task = .announce then 1 else 0 := by
  cases task <;> simp [Announcer.pending, Announcer.act, List.count_append, Nat.add_assoc]

section Steps

variable {m target : Announcer} {event : AnnounceEvent}

/-- The section that is taken out of the inbox. -/
theorem Announcer.pending_tail {task : Task} {rest : List Task} (next : m.inbox = task :: rest) :
    m.pending = Announcer.pending { m with inbox := rest } + if task = .announce then 1 else 0 := by
  simp only [Announcer.pending, next, List.count_cons, beq_iff_eq]
  omega

theorem Announcer.pending_announce (running : m.running = true) :
    m.announce.pending = m.pending + 1 := by
  simp only [Announcer.announce, running, if_true, Announcer.pending, List.countP_append]
  simp [TimerStatus.pending]
  omega

/-- Stopping the timer and posting an announcement cancel out. -/
theorem Announcer.pending_announceNow {timer : Nat} (current : m.timer = some timer)
    (armed : m.timers[timer]? = some .armed) :
    m.announceNow.pending = m.pending ∧ m.announceNow.blocked = m.blocked := by
  have stopped := @countP_set_add m.timers timer .armed .stopped armed
  simp only [Announcer.announceNow, current, armed, if_true, Announcer.pending_act]
  refine ⟨?_, rfl⟩
  simp only [Announcer.pending]
  simp [TimerStatus.pending] at stopped
  omega

/-- A timer that cannot be stopped blocks the actor. -/
theorem Announcer.blocked_announceNow {timer : Nat} (current : m.timer = some timer)
    (spent : m.timers[timer]? ≠ some .armed) : m.announceNow.blocked = true := by
  simp [Announcer.announceNow, current, spent]

theorem head?_append_of_eq_some {task : Task} {tasks more : List Task}
    (first : tasks.head? = some task) : (tasks ++ more).head? = some task := by
  cases tasks with
  | nil => cases first
  | cons other tasks => exact first

/-- A call or a timer leaves the number of pending announcements as it is. -/
theorem Announcer.Counted.of_call (counted : m.Counted) (running : target.running = m.running)
    (blocked : target.blocked = m.blocked) (timer : target.timer = m.timer)
    (pending : target.pending = m.pending) {more : List Task}
    (inbox : target.inbox = m.inbox ++ more) : target.Counted where
  one live free := by
    rw [pending]
    exact counted.one (running ▸ live) (blocked ▸ free)
  first live none := by
    rw [inbox]
    exact head?_append_of_eq_some (counted.first (running ▸ live) (timer ▸ none))

theorem Announcer.counted_of_not_running (idle : m.running = false) : m.Counted where
  one running := absurd (idle.symm.trans running) Bool.false_ne_true
  first running := absurd (idle.symm.trans running) Bool.false_ne_true

theorem Announcer.live_of_not_running (idle : m.running = false) : m.Live :=
  fun running => absurd (idle.symm.trans running) Bool.false_ne_true

@[simp]
theorem Announcer.running_announceNow (m : Announcer) : m.announceNow.running = m.running := by
  unfold Announcer.announceNow
  split
  · rfl
  · split <;> rfl

@[simp]
theorem Announcer.timer_announceNow (m : Announcer) : m.announceNow.timer = m.timer := by
  unfold Announcer.announceNow
  split
  · rfl
  · split <;> rfl

/-- An announcement that was pending arms the timer for the next one. -/
theorem Announcer.live_announce (running : m.running = true) (free : m.blocked = false)
    (last : m.pending = 0) : m.announce.Counted ∧ m.announce.Live := by
  have one : m.announce.pending = 1 := by
    rw [Announcer.pending_announce running, last]
  have armed : m.announce.timer ≠ none := by
    simp [Announcer.announce, running]
  have stillFree : m.announce.blocked = false := by
    simp [Announcer.announce, running, free]
  exact ⟨⟨fun _ _ => one, fun _ none => absurd none armed⟩,
    fun _ => ⟨stillFree, Nat.le_of_eq one⟩⟩

/-- A section of `AnnounceNow` goes through exactly if the timer is armed. -/
theorem Announcer.live_announceNow_iff (running : m.running = true) (free : m.blocked = false)
    (one : m.pending = 1) {timer : Nat} (current : m.timer = some timer) :
    m.announceNow.Counted ∧ (m.announceNow.Live ↔ m.timers[timer]? = some .armed) := by
  have present : m.announceNow.timer ≠ none := by
    simp [current]
  by_cases armed : m.timers[timer]? = some .armed
  · obtain ⟨same, stillFree⟩ := Announcer.pending_announceNow current armed
    have oneAgain : m.announceNow.pending = 1 := same.trans one
    exact ⟨⟨fun _ _ => oneAgain, fun _ none => absurd none present⟩,
      iff_of_true (fun _ => ⟨stillFree.trans free, Nat.le_of_eq oneAgain⟩) armed⟩
  · have stuck := Announcer.blocked_announceNow current armed
    refine ⟨⟨fun _ unblocked => ?_, fun _ none => absurd none present⟩,
      iff_of_false (fun live => ?_) armed⟩
    · cases stuck.symm.trans unblocked
    · have unblocked := (live ((Announcer.running_announceNow m).trans running)).1
      cases stuck.symm.trans unblocked

/-- A running actor works off a section. -/
theorem Announcer.Counted.perform (counted : m.Counted) (running : m.running = true)
    (free : m.blocked = false) {task : Task} {rest : List Task} (head : m.inbox = task :: rest) :
    (Announcer.perform { m with inbox := rest } task).Counted ∧
      ((Announcer.perform { m with inbox := rest } task).Live ↔ m.Prompt .run) := by
  have one := counted.one running free
  rw [Announcer.pending_tail head] at one
  cases task with
  | announce =>
      have last : Announcer.pending { m with inbox := rest } = 0 := Nat.succ.inj one
      obtain ⟨announced, live⟩ :=
        @Announcer.live_announce { m with inbox := rest } running free last
      exact ⟨announced, iff_of_true live fun _ _ other => by simp [head] at other⟩
  | announceNow =>
      cases current : m.timer with
      | none =>
          have first := counted.first running current
          simp [head] at first
      | some timer =>
          obtain ⟨announced, live⟩ :=
            @Announcer.live_announceNow_iff { m with inbox := rest } running free one timer current
          rw [current] at announced live
          refine ⟨announced, live.trans ⟨fun armed _ _ _ => ⟨timer, current, armed⟩, ?_⟩⟩
          intro prompt
          obtain ⟨found, same, armed⟩ := prompt rfl running (by simp [head])
          cases current.symm.trans same
          exact armed
  | stop =>
      exact ⟨Announcer.counted_of_not_running rfl,
        iff_of_true (Announcer.live_of_not_running rfl) fun _ _ other => by simp [head] at other⟩

theorem Announcer.running_perform_of_idle (idle : m.running = false) (task : Task) :
    (m.perform task).running = false := by
  cases task with
  | announce => simp [Announcer.perform, Announcer.announce, idle]
  | announceNow => simp [Announcer.perform, idle]
  | stop => rfl

/-- Calls and timers leave the actor live. -/
theorem Announcer.Live.of_call (live : m.Live) (running : target.running = m.running)
    (blocked : target.blocked = m.blocked) (pending : target.pending = m.pending) :
    target.Live := by
  intro runs
  rw [blocked, pending]
  exact live (running ▸ runs)

/-- What each step does to the invariant and to the property. -/
theorem Announcer.Counted.next (counted : m.Counted) (live : m.Live)
    (step : m.next event = some target) :
    target.Counted ∧ (target.Live ↔ m.Prompt event) := by
  cases event with
  | announceNow =>
      cases step
      have pending : (m.act .announceNow).pending = m.pending := m.pending_act .announceNow
      exact ⟨counted.of_call rfl rfl rfl pending rfl,
        iff_of_true (live.of_call rfl rfl pending) fun other => by cases other⟩
  | stop =>
      cases step
      have pending : (m.act .stop).pending = m.pending := m.pending_act .stop
      exact ⟨counted.of_call rfl rfl rfl pending rfl,
        iff_of_true (live.of_call rfl rfl pending) fun other => by cases other⟩
  | fire timer =>
      obtain ⟨armed, stepped⟩ := Option.ite_none_right_eq_some.mp step
      cases stepped
      have pending :
          Announcer.pending { m with timers := m.timers.set timer .fired } = m.pending := by
        have moved := @countP_set_add m.timers timer .armed .fired armed
        simp [TimerStatus.pending] at moved
        simp only [Announcer.pending]
        omega
      exact ⟨counted.of_call rfl rfl rfl pending (List.append_nil _).symm,
        iff_of_true (live.of_call rfl rfl pending) fun other => by cases other⟩
  | post timer =>
      obtain ⟨fired, stepped⟩ := Option.ite_none_right_eq_some.mp step
      cases stepped
      have pending : (Announcer.act { m with timers := m.timers.set timer .posted }
          .announce).pending = m.pending := by
        have moved := @countP_set_add m.timers timer .fired .posted fired
        rw [Announcer.pending_act]
        simp [TimerStatus.pending] at moved
        simp only [Announcer.pending, if_true]
        omega
      exact ⟨counted.of_call rfl rfl rfl pending rfl,
        iff_of_true (live.of_call rfl rfl pending) fun other => by cases other⟩
  | run =>
      simp only [Announcer.next] at step
      split at step
      case h_1 task rest free head =>
        cases step
        rcases Bool.eq_false_or_eq_true m.running with running | idle
        · exact counted.perform running free head
        · have stopped := @Announcer.running_perform_of_idle { m with inbox := rest } idle task
          refine ⟨Announcer.counted_of_not_running stopped,
            iff_of_true (Announcer.live_of_not_running stopped) fun _ running => ?_⟩
          cases idle.symm.trans running
      case h_2 => cases step

end Steps

/-! ## Runs -/

/-- The actor is never blocked and at most one announcement is pending exactly as long as
every section of `AnnounceNow` runs while the timer is armed. -/
theorem announce_live_iff (events : List AnnounceEvent) :
    Throughout Announcer.next Announcer.Live Announcer.start events ↔
      EveryStep Announcer.next Announcer.Prompt Announcer.start events := by
  have counted : Announcer.start.Counted := ⟨fun _ _ => rfl, fun _ _ => rfl⟩
  have live : Announcer.start.Live := fun _ => ⟨rfl, Nat.le_refl 1⟩
  exact throughout_iff_everyStep events counted live
    (fun counted live step => (counted.next live step).1)
    fun counted live step => (counted.next live step).2

/-- Of two calls of `AnnounceNow` that are queued together the second blocks the actor. -/
theorem second_announceNow_blocks :
    run Announcer.next Announcer.start [.run, .announceNow, .announceNow, .run, .run] =
      some ⟨true, some 0, [.stopped], [.announce], true⟩ := by
  decide

end Uqda.Multicast
