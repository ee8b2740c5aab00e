import Mathlib.Logic.Basic

/-!
# Runs of event-driven systems

A system is a partial transition function on states and events: an event that
is not enabled in a state has no successor.  All nondeterminism is in the choice
of events, so a run is a list of events.

`Throughout` says that a property holds in every state a run visits and
`EveryStep` that every step it takes meets a condition on the state before the
step.  The rules below reduce statements about whole runs to single steps.
-/

namespace Uqda.Transition

universe u v

/-- A partial transition function labelled by events. -/
abbrev Step (σ : Type u) (ε : Type v) := σ → ε → Option σ

variable {σ : Type u} {ε : Type v}

/-- Execute the events in order.  A disabled event fails the run. -/
def run (next : Step σ ε) : σ → List ε → Option σ
  | state, [] => some state
  | state, event :: events => (next state event).bind fun target => run next target events

/-- The property holds in every state that the run visits. -/
def Throughout (next : Step σ ε) (property : σ → Prop) : σ → List ε → Prop
  | state, [] => property state
  | state, event :: events =>
      property state ∧
        ∀ target, next state event = some target → Throughout next property target events

/-- Every step that the run takes meets the condition in the state before it. -/
def EveryStep (next : Step σ ε) (condition : σ → ε → Prop) : σ → List ε → Prop
  | _, [] => True
  | state, event :: events =>
      ∀ target, next state event = some target →
        condition state event ∧ EveryStep next condition target events

/-- A decidable condition can be checked along a run. -/
instance decidableEveryStep (next : Step σ ε) (condition : σ → ε → Prop)
    [∀ state event, Decidable (condition state event)] (state : σ) (events : List ε) :
    Decidable (EveryStep next condition state events) :=
  match events with
  | [] => inferInstanceAs (Decidable True)
  | event :: events =>
      match stepped : next state event with
      | none => .isTrue fun target step => by rw [stepped] at step; cases step
      | some target =>
          have := decidableEveryStep next condition target events
          decidable_of_iff (condition state event ∧ EveryStep next condition target events)
            ⟨fun met other step => by rw [stepped] at step; cases step; exact met,
              fun met => met target stepped⟩

variable {next : Step σ ε} {property invariant : σ → Prop} {condition : σ → ε → Prop}

@[simp]
theorem run_nil (state : σ) : run next state [] = some state :=
  rfl

theorem run_cons_eq_some_iff {state target : σ} {event : ε} {events : List ε} :
    run next state (event :: events) = some target ↔
      ∃ middle, next state event = some middle ∧ run next middle events = some target :=
  Option.bind_eq_some_iff

theorem run_append_eq_some_iff {state target : σ} {events rest : List ε} :
    run next state (events ++ rest) = some target ↔
      ∃ middle, run next state events = some middle ∧ run next middle rest = some target := by
  induction events generalizing state with
  | nil => simp
  | cons event events ih =>
      rw [List.cons_append, run_cons_eq_some_iff]
      simp only [ih, run_cons_eq_some_iff]
      constructor
      · rintro ⟨first, step, middle, reached, ended⟩
        exact ⟨middle, ⟨first, step, reached⟩, ended⟩
      · rintro ⟨middle, ⟨first, step, reached⟩, ended⟩
        exact ⟨first, step, middle, reached, ended⟩

/-- What holds throughout a run holds where it starts. -/
theorem Throughout.head {state : σ} {events : List ε}
    (holds : Throughout next property state events) : property state := by
  cases events with
  | nil => exact holds
  | cons event events => exact holds.1

/-- What holds throughout a run holds where it ends. -/
theorem Throughout.last {state target : σ} {events : List ε}
    (holds : Throughout next property state events)
    (ended : run next state events = some target) : property target := by
  induction events generalizing state with
  | nil =>
      rw [run_nil, Option.some.injEq] at ended
      exact ended ▸ holds
  | cons event events ih =>
      obtain ⟨middle, step, rest⟩ := run_cons_eq_some_iff.mp ended
      exact ih (holds.2 middle step) rest

theorem Throughout.mono {stronger : σ → Prop} {state : σ} {events : List ε}
    (holds : Throughout next stronger state events)
    (weaken : ∀ state, stronger state → property state) :
    Throughout next property state events := by
  induction events generalizing state with
  | nil => exact weaken state holds
  | cons event events ih =>
      exact ⟨weaken state holds.1, fun target step => ih (holds.2 target step)⟩

/-- What all events of a run satisfy can be assumed of each step. -/
theorem EveryStep.and_of_forall_mem {permitted : ε → Prop} {state : σ} {events : List ε}
    (meets : EveryStep next condition state events) (allowed : ∀ event ∈ events, permitted event) :
    EveryStep next (fun state event => permitted event ∧ condition state event) state events := by
  induction events generalizing state with
  | nil => trivial
  | cons event events ih =>
      obtain ⟨permits, allowed⟩ := List.forall_mem_cons.mp allowed
      intro target step
      exact ⟨⟨permits, (meets target step).1⟩, ih (meets target step).2 allowed⟩

/-- A condition that every step meets is met in every run. -/
theorem everyStep_of_forall (always : ∀ state event, condition state event) (state : σ)
    (events : List ε) : EveryStep next condition state events := by
  induction events generalizing state with
  | nil => trivial
  | cons event events ih => exact fun target _ => ⟨always state event, ih target⟩

/-- Invariant rule: a property that holds at the start and is kept by every step
meeting the condition holds throughout each run whose steps all meet it. -/
theorem EveryStep.throughout {state : σ} {events : List ε}
    (meets : EveryStep next condition state events) (initially : invariant state)
    (kept : ∀ {state event target}, invariant state → condition state event →
      next state event = some target → invariant target) :
    Throughout next invariant state events := by
  induction events generalizing state with
  | nil => exact initially
  | cons event events ih =>
      refine ⟨initially, fun target step => ?_⟩
      obtain ⟨met, rest⟩ := meets target step
      exact ih rest (kept initially met step)

/-- Strengthening rule: a condition kept up by an invariant implies every condition
that follows from it and the invariant. -/
theorem EveryStep.imp {stronger : σ → ε → Prop} {state : σ} {events : List ε}
    (meets : EveryStep next stronger state events) (initially : invariant state)
    (kept : ∀ {state event target}, invariant state → stronger state event →
      next state event = some target → invariant target)
    (implied : ∀ {state event target}, invariant state → stronger state event →
      next state event = some target → condition state event) :
    EveryStep next condition state events := by
  induction events generalizing state with
  | nil => trivial
  | cons event events ih =>
      intro target step
      obtain ⟨met, rest⟩ := meets target step
      exact ⟨implied initially met step, ih rest (kept initially met step)⟩

/-- Two conditions that agree on the permitted steps from states of an invariant
are met by the same runs of permitted events. -/
theorem everyStep_congr_of_permitted {condition' : σ → ε → Prop} {permitted : ε → Prop}
    {state : σ} {events : List ε} (allowed : ∀ event ∈ events, permitted event)
    (initially : invariant state)
    (kept : ∀ {state event target}, permitted event → invariant state →
      next state event = some target → invariant target)
    (agree : ∀ {state event target}, permitted event → invariant state →
      next state event = some target → (condition state event ↔ condition' state event)) :
    EveryStep next condition state events ↔ EveryStep next condition' state events :=
  ⟨fun meets => (meets.and_of_forall_mem allowed).imp initially
      (fun holds met step => kept met.1 holds step)
      fun holds met step => (agree met.1 holds step).mp met.2,
    fun meets => (meets.and_of_forall_mem allowed).imp initially
      (fun holds met step => kept met.1 holds step)
      fun holds met step => (agree met.1 holds step).mpr met.2⟩

/-- The rest of a run meets what the whole run meets. -/
theorem EveryStep.of_append {state middle : σ} {events rest : List ε}
    (meets : EveryStep next condition state (events ++ rest))
    (reached : run next state events = some middle) : EveryStep next condition middle rest := by
  induction events generalizing state with
  | nil =>
      cases reached
      exact meets
  | cons event events ih =>
      obtain ⟨first, step, reached⟩ := run_cons_eq_some_iff.mp reached
      exact ih (meets first step).2 reached

/-- Invariant rule for unrestricted runs. -/
theorem throughout_of_step {state : σ} (events : List ε) (initially : invariant state)
    (kept : ∀ {state event target}, invariant state →
      next state event = some target → invariant target) :
    Throughout next invariant state events :=
  (@everyStep_of_forall σ ε next (fun _ _ => True) (fun _ _ => trivial) state events).throughout
    initially fun holds _ step => kept holds step

/-- A condition that every step from a state of an invariant meets is met in every
run from there. -/
theorem everyStep_of_step {state : σ} (events : List ε) (initially : invariant state)
    (kept : ∀ {state event target}, invariant state →
      next state event = some target → invariant target)
    (implied : ∀ {state event target}, invariant state →
      next state event = some target → condition state event) :
    EveryStep next condition state events :=
  (@everyStep_of_forall σ ε next (fun _ _ => True) (fun _ _ => trivial) state events).imp
    initially (fun holds _ step => kept holds step) fun holds _ step => implied holds step

/-- Invariant rule for runs of permitted events. -/
theorem throughout_of_permitted {permitted : ε → Prop} {state : σ} {events : List ε}
    (allowed : ∀ event ∈ events, permitted event) (initially : invariant state)
    (kept : ∀ {state event target}, permitted event → invariant state →
      next state event = some target → invariant target) :
    Throughout next invariant state events :=
  ((@everyStep_of_forall σ ε next (fun _ _ => True) (fun _ _ => trivial) state
    events).and_of_forall_mem allowed).throughout initially
      fun holds met step => kept met.1 holds step

/-- The invariant at the end of an unrestricted run. -/
theorem invariant_of_run {state target : σ} {events : List ε}
    (ended : run next state events = some target) (initially : invariant state)
    (kept : ∀ {state event target}, invariant state →
      next state event = some target → invariant target) : invariant target :=
  (throughout_of_step events initially kept).last ended

/-- A run of steps that all raise a rank is no longer than the rank it reaches. -/
theorem length_add_rank_le {rank : σ → Nat} {state target : σ} {events : List ε}
    (ended : run next state events = some target) (initially : invariant state)
    (kept : ∀ {state event target}, invariant state →
      next state event = some target → invariant target)
    (raised : ∀ {state event target}, invariant state →
      next state event = some target → rank state < rank target) :
    events.length + rank state ≤ rank target := by
  induction events generalizing state with
  | nil =>
      cases ended
      exact Nat.le_of_eq (Nat.zero_add _)
  | cons event events ih =>
      obtain ⟨middle, step, rest⟩ := run_cons_eq_some_iff.mp ended
      have more := raised initially step
      have bound := ih rest (kept initially step)
      rw [List.length_cons]
      omega

/-- Exactness rule for runs of permitted events: if, as long as an invariant and
the property have held, the property survives a permitted step exactly when the
step meets the condition, then it holds throughout a run exactly when every step
of the run meets the condition. -/
theorem throughout_iff_everyStep_of_permitted {permitted : ε → Prop} {state : σ} {events : List ε}
    (allowed : ∀ event ∈ events, permitted event) (initially : invariant state)
    (holds : property state)
    (kept : ∀ {state event target}, permitted event → invariant state → property state →
      next state event = some target → invariant target)
    (survival : ∀ {state event target}, permitted event → invariant state → property state →
      next state event = some target → (property target ↔ condition state event)) :
    Throughout next property state events ↔ EveryStep next condition state events := by
  induction events generalizing state with
  | nil => exact ⟨fun _ => trivial, fun _ => holds⟩
  | cons event events ih =>
      obtain ⟨permits, allowed⟩ := List.forall_mem_cons.mp allowed
      constructor
      · intro throughout target step
        have rest := throughout.2 target step
        have survives := rest.head
        exact ⟨(survival permits initially holds step).mp survives,
          (ih allowed (kept permits initially holds step) survives).mp rest⟩
      · intro everyStep
        refine ⟨holds, fun target step => ?_⟩
        obtain ⟨met, rest⟩ := everyStep target step
        have survives := (survival permits initially holds step).mpr met
        exact (ih allowed (kept permits initially holds step) survives).mpr rest

/-- Exactness rule for unrestricted runs. -/
theorem throughout_iff_everyStep {state : σ} (events : List ε) (initially : invariant state)
    (holds : property state)
    (kept : ∀ {state event target}, invariant state → property state →
      next state event = some target → invariant target)
    (survival : ∀ {state event target}, invariant state → property state →
      next state event = some target → (property target ↔ condition state event)) :
    Throughout next property state events ↔ EveryStep next condition state events :=
  throughout_iff_everyStep_of_permitted (fun _ _ => trivial) initially holds
    (fun _ => kept) fun _ => survival

end Uqda.Transition
