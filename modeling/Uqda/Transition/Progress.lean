import Uqda.Transition.Core

/-!
# Runs that do not get stuck

A system is driven by events that are permitted in the states in which they occur.  If every
permitted event has a successor that keeps an invariant, then every such run goes through.
-/

namespace Uqda.Transition

universe u v

variable {σ : Type u} {ε : Type v}

/-- Each event of the list is permitted in the state in which it occurs. -/
def Permits (next : Step σ ε) (permitted : σ → ε → Prop) : σ → List ε → Prop
  | _, [] => True
  | state, event :: events =>
      permitted state event ∧
        ∀ target, next state event = some target → Permits next permitted target events

/-- Whether the events are permitted can be checked along their run. -/
instance decidablePermits (next : Step σ ε) (permitted : σ → ε → Prop)
    [∀ state event, Decidable (permitted state event)] (state : σ) (events : List ε) :
    Decidable (Permits next permitted state events) :=
  match events with
  | [] => inferInstanceAs (Decidable True)
  | event :: events =>
      match stepped : next state event with
      | none =>
          decidable_of_iff (permitted state event)
            ⟨fun permits => ⟨permits, fun target step => by rw [stepped] at step; cases step⟩,
              And.left⟩
      | some target =>
          have := decidablePermits next permitted target events
          decidable_of_iff (permitted state event ∧ Permits next permitted target events)
            ⟨fun both =>
                ⟨both.1, fun other step => by rw [stepped] at step; cases step; exact both.2⟩,
              fun both => ⟨both.1, both.2 target stepped⟩⟩

variable {next : Step σ ε} {permitted : σ → ε → Prop} {invariant : σ → Prop}

/-- Progress and preservation: a run of permitted events reaches its end. -/
theorem Permits.exists_run {state : σ} {events : List ε}
    (allowed : Permits next permitted state events) (initially : invariant state)
    (progress : ∀ {state event}, invariant state → permitted state event →
      ∃ target, next state event = some target ∧ invariant target) :
    ∃ target, run next state events = some target ∧ invariant target := by
  induction events generalizing state with
  | nil => exact ⟨state, rfl, initially⟩
  | cons event events ih =>
      obtain ⟨permits, rest⟩ := allowed
      obtain ⟨middle, step, kept⟩ := progress initially permits
      obtain ⟨target, reached, holds⟩ := ih (rest middle step) kept
      exact ⟨target, run_cons_eq_some_iff.mpr ⟨middle, step, reached⟩, holds⟩

/-! ## Loops -/

/-- A loop does not fail if an invariant carries it over each element. -/
theorem exists_foldlM {state : σ} {events : List ε} (initially : invariant state)
    (progress : ∀ {state event}, event ∈ events → invariant state →
      ∃ target, next state event = some target ∧ invariant target) :
    ∃ target, events.foldlM next state = some target ∧ invariant target := by
  induction events generalizing state with
  | nil => exact ⟨state, rfl, initially⟩
  | cons event events ih =>
      obtain ⟨middle, step, kept⟩ := progress List.mem_cons_self initially
      obtain ⟨target, reached, holds⟩ :=
        ih kept fun {state event} later => progress (List.mem_cons_of_mem _ later)
      refine ⟨target, ?_, holds⟩
      rw [List.foldlM_cons, step]
      exact reached

/-- What each iteration keeps, the loop keeps. -/
theorem invariant_of_foldlM {state target : σ} {events : List ε}
    (ended : events.foldlM next state = some target) (initially : invariant state)
    (kept : ∀ {state event target}, event ∈ events → invariant state →
      next state event = some target → invariant target) : invariant target := by
  induction events generalizing state with
  | nil =>
      cases ended
      exact initially
  | cons event events ih =>
      rw [List.foldlM_cons, Option.bind_eq_bind, Option.bind_eq_some_iff] at ended
      obtain ⟨middle, step, rest⟩ := ended
      exact ih rest (kept List.mem_cons_self initially step)
        fun {state event target} later => kept (List.mem_cons_of_mem _ later)

end Uqda.Transition
