import Uqda.Links.Options

/-!
# Reconnecting

The variable `backoff` of the dial goroutine in `links.add` of `src/core/link.go`: the
closures `backoffNow` and `resetBackoff`, the error switch after the handler, and the
loop of a persistent link around them.

The variable counts waits up to 32 and holds -1 after a connection of the node to
itself.  Only a completed handshake takes it back from there, so a link that was
kicked out of such a wait and then fails in another way waits without a timeout again.
-/

namespace Uqda.Links

open Uqda.Handshake Uqda.Transition

/-- `time.Second` in nanoseconds. -/
def second : Int := 10 ^ 9

/-- `n << shift` on `int64`. -/
def shiftLeft64 (n : Int) (shift : Nat) : Int :=
  (n * 2 ^ shift).bmod (2 ^ 64)

/-- How an attempt of the dial goroutine ends.  A completed handshake is one after which
the handler called `resetBackoff` and then lost the connection. -/
inductive Outcome where
  | dialError
  | handshakeError
  | toSelf
  | completed
  deriving DecidableEq, Repr

/-- What an attempt does to `backoff`: `resetBackoff` and the error switch. -/
def Outcome.settle : Outcome → Int → Int
  | .completed, _ => 0
  | .toSelf, _ => -1
  | _, backoff => backoff

/-- `backoffNow` up to its `select`: the new value and the timeout, if there is one. -/
def backoffNow (maxBackoff backoff : Int) : Int × Option Int :=
  let backoff := if backoff ≥ 0 ∧ backoff < 32 then backoff + 1 else backoff
  if backoff < 0 then
    (backoff, none)
  else
    let duration := shiftLeft64 second backoff.toNat
    (backoff, some (if duration > maxBackoff then maxBackoff else duration))

/-- Where the dial goroutine is: it dials, waits for a kick with or without a timeout, or has
returned. -/
inductive Phase where
  | attempting
  | waiting (timeout : Option Int)
  | stopped
  deriving DecidableEq, Repr

/-- The dial goroutine of a persistent link.  The outcomes so far, the newest first, are
bookkeeping of the model. -/
structure Dialer where
  backoff : Int
  phase : Phase
  history : List Outcome
  deriving DecidableEq, Repr

/-- What happens to the goroutine: an attempt ends, someone kicks the link, the timeout
elapses, or the context of the link is cancelled. -/
inductive DialEvent where
  | attempt (outcome : Outcome)
  | kick
  | elapse
  | cancel
  deriving DecidableEq, Repr

/-- The goroutine before its first attempt. -/
def Dialer.start : Dialer :=
  ⟨0, .attempting, []⟩

/-- A goroutine whose attempt ended, in the `select` of `backoffNow`. -/
def Dialer.wait (maxBackoff : Int) (dialer : Dialer) (outcome : Outcome) : Dialer where
  backoff := (backoffNow maxBackoff (outcome.settle dialer.backoff)).1
  phase := .waiting (backoffNow maxBackoff (outcome.settle dialer.backoff)).2
  history := outcome :: dialer.history

/-- The transitions.  A kick is dropped unless the goroutine is waiting. -/
def Dialer.next (maxBackoff : Int) : Step Dialer DialEvent
  | dialer, .attempt outcome =>
      if dialer.phase = .attempting then some (dialer.wait maxBackoff outcome) else none
  | dialer, .kick =>
      match dialer.phase with
      | .waiting _ => some { dialer with phase := .attempting }
      | _ => some dialer
  | dialer, .elapse =>
      match dialer.phase with
      | .waiting (some _) => some { dialer with phase := .attempting }
      | _ => none
  | dialer, .cancel => some { dialer with phase := .stopped }

/-! ## Histories -/

/-- The attempts since the last completed handshake, that one included. -/
def sinceHandshake : List Outcome → List Outcome
  | [] => []
  | .completed :: _ => [.completed]
  | outcome :: older => outcome :: sinceHandshake older

/-- The number of waits since the last completed handshake that no connection of the
node to itself led to. -/
def waits (history : List Outcome) : Nat :=
  (sinceHandshake history).countP (· ≠ .toSelf)

/-- The value of `backoff` that belongs to a history. -/
def backoffOf (history : List Outcome) : Int :=
  if .toSelf ∈ sinceHandshake history then -1 else ((min (waits history) 32 : Nat) : Int)

/-- The timeout that a wait should have. -/
def intendedWait (maxBackoff : Int) (history : List Outcome) : Int :=
  min (2 ^ min (waits history) 32 * second) maxBackoff

/-- The timeout that a wait has. -/
def actualWait (maxBackoff : Int) (history : List Outcome) : Option Int :=
  if .toSelf ∈ sinceHandshake history then none else some (intendedWait maxBackoff history)

/-- A wait is armed with the intended timeout unless the attempt before it was a
connection of the node to itself; only then there is none.  The duration that
`backoffNow` computes is an `int64`. -/
structure Dialer.Armed (maxBackoff : Int) (dialer : Dialer) : Prop where
  intended : ∀ timeout, dialer.phase = .waiting timeout → dialer.history.head? ≠ some .toSelf →
    timeout = some (intendedWait maxBackoff dialer.history)
  endless : dialer.phase = .waiting none → dialer.history.head? = some .toSelf
  range : 0 ≤ dialer.backoff → second * 2 ^ dialer.backoff.toNat < 2 ^ 63

/-- The step is not an attempt that fails in another way after a connection of the node
to itself, with no completed handshake in between. -/
def Dialer.Recovered (dialer : Dialer) : DialEvent → Prop
  | .attempt .dialError | .attempt .handshakeError => .toSelf ∉ sinceHandshake dialer.history
  | _ => True

instance (dialer : Dialer) : (event : DialEvent) → Decidable (dialer.Recovered event)
  | .attempt .dialError | .attempt .handshakeError =>
      inferInstanceAs (Decidable (.toSelf ∉ sinceHandshake dialer.history))
  | .attempt .toSelf | .attempt .completed | .kick | .elapse | .cancel =>
      inferInstanceAs (Decidable True)

/-- The shift of a second by at most 32 bits is exact. -/
theorem second_mul_lt {shift : Nat} (small : shift ≤ 32) : second * 2 ^ shift < 2 ^ 63 := by
  have power : (2 : Int) ^ shift ≤ 2 ^ 32 := by
    exact_mod_cast Nat.pow_le_pow_right (by decide) small
  simp only [second]
  omega

theorem shiftLeft64_second {shift : Nat} (small : shift ≤ 32) :
    shiftLeft64 second shift = second * 2 ^ shift := by
  have below := second_mul_lt small
  have positive : 0 ≤ second * 2 ^ shift := by
    simp only [second]
    positivity
  exact Int.bmod_eq_of_le (by omega) (by omega)

/-- A value that counts waits is raised up to 32 and gives the intended wait. -/
theorem backoffNow_of_count (maxBackoff : Int) (count : Nat) :
    backoffNow maxBackoff ((min count 32 : Nat) : Int) =
      (((min (count + 1) 32 : Nat) : Int),
        some (min (2 ^ min (count + 1) 32 * second) maxBackoff)) := by
  have raised : (if ((min count 32 : Nat) : Int) ≥ 0 ∧ ((min count 32 : Nat) : Int) < 32 then
      ((min count 32 : Nat) : Int) + 1 else ((min count 32 : Nat) : Int)) =
        ((min (count + 1) 32 : Nat) : Int) := by
    split <;> omega
  have small : min (count + 1) 32 ≤ 32 := Nat.min_le_right ..
  simp only [backoffNow, raised]
  rw [if_neg (by omega), Int.toNat_natCast, shiftLeft64_second small, mul_comm second]
  generalize (2 : Int) ^ min (count + 1) 32 * second = duration
  congr 2
  by_cases longer : duration > maxBackoff
  · rw [if_pos longer, min_eq_right longer.le]
  · rw [if_neg longer, min_eq_left (not_lt.mp longer)]

/-- The sentinel stays and gives a wait without a timeout. -/
theorem backoffNow_sentinel (maxBackoff : Int) : backoffNow maxBackoff (-1) = (-1, none) :=
  rfl

/-! ## One step -/

section Steps

variable {maxBackoff : Int} {dialer target : Dialer} {event : DialEvent}

/-- An attempt that neither completed nor reached the node itself extends the history. -/
theorem sinceHandshake_of_failed {outcome : Outcome} (failed : outcome ≠ .completed)
    (history : List Outcome) :
    sinceHandshake (outcome :: history) = outcome :: sinceHandshake history := by
  cases outcome <;> first | rfl | contradiction

theorem toSelf_mem_of_failed {outcome : Outcome} (failed : outcome ≠ .completed)
    (foreign : outcome ≠ .toSelf) (history : List Outcome) :
    .toSelf ∈ sinceHandshake (outcome :: history) ↔ .toSelf ∈ sinceHandshake history := by
  rw [sinceHandshake_of_failed failed, List.mem_cons, or_iff_right (Ne.symm foreign)]

/-- One attempt and the wait after it. -/
theorem backoffNow_backoffOf (outcome : Outcome) (history : List Outcome) :
    backoffNow maxBackoff (outcome.settle (backoffOf history)) =
      (backoffOf (outcome :: history), actualWait maxBackoff (outcome :: history)) := by
  by_cases completed : outcome = .completed
  · subst completed
    exact backoffNow_of_count maxBackoff 0
  by_cases self : outcome = .toSelf
  · subst self
    have present : .toSelf ∈ sinceHandshake (.toSelf :: history) := List.mem_cons_self
    simp [Outcome.settle, backoffOf, actualWait, present, backoffNow_sentinel]
  have unsettled : outcome.settle (backoffOf history) = backoffOf history := by
    cases outcome <;> first | rfl | contradiction
  have counted : waits (outcome :: history) = waits history + 1 := by
    simp [waits, sinceHandshake_of_failed completed, self]
  have member := toSelf_mem_of_failed completed self history
  rw [unsettled]
  by_cases earlier : .toSelf ∈ sinceHandshake history
  · simp only [backoffOf, actualWait, member, if_pos earlier, backoffNow_sentinel]
  · simp only [backoffOf, actualWait, member, if_neg earlier, backoffNow_of_count, intendedWait,
      counted]

theorem Dialer.wait_eq (counted : dialer.backoff = backoffOf dialer.history) (outcome : Outcome) :
    dialer.wait maxBackoff outcome =
      ⟨backoffOf (outcome :: dialer.history),
        .waiting (actualWait maxBackoff (outcome :: dialer.history)),
        outcome :: dialer.history⟩ := by
  simp only [Dialer.wait, counted, backoffNow_backoffOf]

/-- The integer is a function of the history. -/
theorem Dialer.backoff_of_next (counted : dialer.backoff = backoffOf dialer.history)
    (step : dialer.next maxBackoff event = some target) :
    target.backoff = backoffOf target.history := by
  cases event with
  | attempt outcome =>
      obtain ⟨-, stepped⟩ := Option.ite_none_right_eq_some.mp step
      cases stepped
      rw [Dialer.wait_eq counted]
  | kick =>
      simp only [Dialer.next] at step
      split at step <;> cases step <;> exact counted
  | elapse =>
      simp only [Dialer.next] at step
      split at step <;> cases step
      exact counted
  | cancel =>
      cases step
      exact counted

theorem backoffOf_range (history : List Outcome) (counts : 0 ≤ backoffOf history) :
    second * 2 ^ (backoffOf history).toNat < 2 ^ 63 := by
  by_cases self : .toSelf ∈ sinceHandshake history
  · rw [backoffOf, if_pos self] at counts
    exact absurd counts (by decide)
  · rw [backoffOf, if_neg self, Int.toNat_natCast]
    exact second_mul_lt (Nat.min_le_right ..)

/-- Where nobody waits there is nothing to be armed. -/
theorem Dialer.armed_of_not_waiting (counted : dialer.backoff = backoffOf dialer.history)
    (awake : ∀ timeout, dialer.phase ≠ .waiting timeout) : dialer.Armed maxBackoff where
  intended timeout waiting := absurd waiting (awake timeout)
  endless waiting := absurd waiting (awake none)
  range := counted ▸ backoffOf_range dialer.history

/-- A wait has a timeout if the node was not connected to itself since the last
completed handshake. -/
theorem Dialer.armed_wait_iff (counted : dialer.backoff = backoffOf dialer.history)
    (outcome : Outcome) :
    (dialer.wait maxBackoff outcome).Armed maxBackoff ↔
      outcome = .toSelf ∨ .toSelf ∉ sinceHandshake (outcome :: dialer.history) := by
  rw [Dialer.wait_eq counted]
  constructor
  · intro armed
    by_contra unarmed
    obtain ⟨foreign, self⟩ := not_or.mp unarmed
    have waited := armed.intended _ rfl (by simpa using foreign)
    rw [actualWait, if_pos (not_not.mp self)] at waited
    cases waited
  · rintro (rfl | foreign)
    · exact ⟨fun _ _ other => absurd rfl other, fun _ => rfl,
        backoffOf_range (.toSelf :: dialer.history)⟩
    · refine ⟨fun timeout waiting _ => ?_, fun waiting => ?_,
        backoffOf_range (outcome :: dialer.history)⟩
      · rw [actualWait, if_neg foreign] at waiting
        cases waiting
        rfl
      · rw [actualWait, if_neg foreign] at waiting
        cases waiting

theorem Dialer.recovered_attempt_iff (outcome : Outcome) :
    dialer.Recovered (.attempt outcome) ↔
      outcome = .toSelf ∨ .toSelf ∉ sinceHandshake (outcome :: dialer.history) := by
  cases outcome with
  | dialError => simp [Dialer.Recovered, toSelf_mem_of_failed]
  | handshakeError => simp [Dialer.Recovered, toSelf_mem_of_failed]
  | toSelf => simp [Dialer.Recovered]
  | completed => simp [Dialer.Recovered, sinceHandshake]

theorem Dialer.armed_of_next_iff (counted : dialer.backoff = backoffOf dialer.history)
    (step : dialer.next maxBackoff event = some target) :
    target.Armed maxBackoff ↔ dialer.Recovered event := by
  have countedTarget := Dialer.backoff_of_next counted step
  cases event with
  | attempt outcome =>
      obtain ⟨-, stepped⟩ := Option.ite_none_right_eq_some.mp step
      cases stepped
      rw [Dialer.armed_wait_iff counted, Dialer.recovered_attempt_iff]
  | kick =>
      refine iff_of_true ?_ trivial
      refine Dialer.armed_of_not_waiting countedTarget fun timeout waiting => ?_
      simp only [Dialer.next] at step
      split at step <;> cases step
      · cases waiting
      · simp_all
  | elapse =>
      refine iff_of_true ?_ trivial
      refine Dialer.armed_of_not_waiting countedTarget fun timeout waiting => ?_
      simp only [Dialer.next] at step
      split at step <;> cases step
      cases waiting
  | cancel =>
      cases step
      exact iff_of_true (Dialer.armed_of_not_waiting countedTarget fun timeout => by simp) trivial

end Steps

/-! ## Runs -/

/-- In a run of a persistent link the waits are armed as intended exactly as long as
no attempt fails in another way between a connection of the node to itself and the next
completed handshake. -/
theorem backoff_armed_iff (maxBackoff : Int) (events : List DialEvent) :
    Throughout (Dialer.next maxBackoff) (Dialer.Armed maxBackoff) Dialer.start events ↔
      EveryStep (Dialer.next maxBackoff) Dialer.Recovered Dialer.start events := by
  have counted : Dialer.start.backoff = backoffOf Dialer.start.history := rfl
  exact throughout_iff_everyStep events counted
    (Dialer.armed_of_not_waiting counted fun timeout => Phase.noConfusion)
    (fun counted _ step => Dialer.backoff_of_next counted step)
    fun counted _ step => Dialer.armed_of_next_iff counted step

/-- A link that reached its own node, is kicked and then cannot dial waits for good. -/
theorem kicked_waits_for_good :
    run (Dialer.next defaultBackoffLimit) Dialer.start
        [.attempt .toSelf, .kick, .attempt .dialError] =
      some ⟨-1, .waiting none, [.dialError, .toSelf]⟩ := by
  decide

/-! ## The options and the goroutine -/

/-- The limit of every link that is added is at least the minimum. -/
theorem Library.minimumBackoffLimit_le {lib : Library} {u : Url} {options : DialOptions}
    (parsed : lib.dialOptions u = .ok options) : minimumBackoffLimit ≤ options.maxBackoff := by
  obtain ⟨pinned, -, parsed⟩ := bind_eq_ok_iff.mp parsed
  obtain ⟨shared, -, parsed⟩ := bind_eq_ok_iff.mp parsed
  obtain ⟨maxBackoff, limit, parsed⟩ := bind_eq_ok_iff.mp parsed
  cases parsed
  change minimumBackoffLimit ≤ maxBackoff
  unfold OptionKey.read at limit
  split at limit
  · cases limit
    decide
  · unfold Library.parseMaxBackoff at limit
    split at limit
    · split at limit <;> cases limit
      exact not_lt.mp ‹_›
    · cases limit

/-- A link that is added never retries before two seconds have passed, unless it is
kicked. -/
theorem Library.two_seconds_le_intendedWait {lib : Library} {u : Url} {options : DialOptions}
    (parsed : lib.dialOptions u = .ok options) {outcome : Outcome} {history : List Outcome}
    (foreign : outcome ≠ .toSelf) :
    2 * second ≤ intendedWait options.maxBackoff (outcome :: history) := by
  have limit := lib.minimumBackoffLimit_le parsed
  have counted : 1 ≤ waits (outcome :: history) := by
    cases outcome <;> simp_all [waits, sinceHandshake]
  have doubled : (2 : Int) ^ 1 ≤ 2 ^ min (waits (outcome :: history)) 32 := by
    exact_mod_cast Nat.pow_le_pow_right (by decide) (le_min counted (by decide))
  refine le_min ?_ ?_
  · simp only [second]
    omega
  · simp only [minimumBackoffLimit, second] at limit ⊢
    omega

/-- What the goroutine of a link does in an attempt, in terms of the link table. -/
def Outcome.actions : Outcome → List Action
  | .dialError => [.check, .dial false, .report]
  | _ => [.check, .dial true, .attach, .handlerReturns, .detach]

/-- A goroutine together with what it shares. -/
def Task.next : Step (Table × Task) Action := fun (table, task) action =>
  (task.act table action).map fun (result, pc) => (result, { task with pc := pc })

/-- An attempt takes the goroutine of a persistent link that has no connection from the
head of its loop to the wait, and leaves it without a connection. -/
theorem Outcome.run_actions {table : Table} {task : Task} {link : Link}
    (persistent : task.linkType = .persistent) (dials : task.dials = true)
    (checking : task.pc = .checking) (alive : table.done task.link = false)
    (stored : table.heap[task.link]? = some link) (free : link.conn = none) (outcome : Outcome) :
    ∃ result, run Task.next (table, task) outcome.actions =
        some (result, { task with pc := .backingOff }) ∧
      result.heap[task.link]? = some link := by
  obtain ⟨info, dialing, linkType, id, pc⟩ := task
  obtain ⟨kind, cancel, cancelled, conn⟩ := link
  simp only at persistent dials checking alive stored free
  subst persistent dials checking free
  have checked : Task.next (table, ⟨info, true, .persistent, id, .checking⟩) .check =
      some (table, ⟨info, true, .persistent, id, .dialing⟩) := by
    simp [Task.next, Task.act, alive]
  by_cases undialed : outcome = .dialError
  · subst undialed
    refine ⟨table.setConn id none, ?_, by simp [Table.setConn, stored]⟩
    rw [Outcome.actions, run, checked]
    rfl
  · have connected : outcome.actions = [.check, .dial true, .attach, .handlerReturns, .detach] := by
      cases outcome <;> first | rfl | contradiction
    have attached : Task.next (table.wrap, ⟨info, true, .persistent, id, .dialed table.conns⟩)
        .attach = some (table.wrap.setConn id (some table.conns),
          ⟨info, true, .persistent, id, .handling table.conns⟩) := by
      simp [Task.next, Task.act, Table.wrap, stored]
    refine ⟨(table.wrap.setConn id (some table.conns)).setConn id none, ?_,
      by simp [Table.setConn, Table.wrap, stored]⟩
    have dialed : Task.next (table, ⟨info, true, .persistent, id, .dialing⟩) (.dial true) =
        some (table.wrap, ⟨info, true, .persistent, id, .dialed table.conns⟩) := rfl
    rw [connected, run, checked, Option.bind_some, run, dialed, Option.bind_some, run, attached]
    rfl

end Uqda.Links
