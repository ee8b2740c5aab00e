import Uqda.Store.Table

/-!
# One-shot requests

Callbacks wait in a table, at most one per slot, for an answer to their slot.  Each slot
belongs to an actor, and an actor works off its mailbox in order.  A request and an answer
reach the actor as messages; the section of a request puts its callback into the slot and
so replaces the one that was there, and the section of an answer takes the callback out
and invokes it.  Any section but that of a request may drop callbacks.

A journal lists what happened.  A message is known by the position of its entry, and so
is a callback by the position of its request.  In every reachable ledger a callback has
been invoked at most once, and only with an answer to its slot that came after it.
-/

namespace Uqda.Store

/-- An entry of the journal: a request and an answer that were posted, a callback that
was invoked with the answer posted at `source`, or anything else. -/
inductive Entry (κ π : Type) where
  | requested (slot : κ)
  | answered (slot : κ) (payload : π)
  | invoked (callback source : Nat) (payload : π)
  | noted

/-- What a message makes the actor do. -/
inductive Job (κ π : Type) where
  | register (slot : κ)
  | answer (slot : κ) (payload : π)
  | other

/-- The table of callbacks, the mailboxes of the actors and the journal. -/
@[ext]
structure Ledger (ι κ π : Type) where
  pending : κ → Option Nat
  queue : ι → List (Nat × Job κ π)
  journal : List (Entry κ π)

variable {ι κ π : Type}

/-- The entry that posting a message leaves. -/
def Job.entry : Job κ π → Entry κ π
  | .register slot => .requested slot
  | .answer slot payload => .answered slot payload
  | .other => .noted

/-- The message is for this actor. -/
def Job.For (owner : κ → ι) (actor : ι) : Job κ π → Prop
  | .register slot | .answer slot _ => owner slot = actor
  | .other => True

/-! ## Invariants -/

/-- Every callback was invoked with an answer to its own slot that was posted after it,
and none was invoked twice. -/
structure Genuine (journal : List (Entry κ π)) : Prop where
  own : ∀ (time callback source : Nat) (payload : π),
    journal[time]? = some (.invoked callback source payload) →
      ∃ slot, journal[callback]? = some (.requested slot) ∧
        journal[source]? = some (.answered slot payload) ∧ callback < source ∧ source < time
  once : ∀ (first second callback source source' : Nat) (payload payload' : π),
    journal[first]? = some (.invoked callback source payload) →
      journal[second]? = some (.invoked callback source' payload') → first = second

/-- The callback was not invoked. -/
def Unused (journal : List (Entry κ π)) (callback : Nat) : Prop :=
  ∀ (time source : Nat) (payload : π), journal[time]? ≠ some (.invoked callback source payload)

/-- Messages are in order and as they were posted; a callback in the table waits in its
own slot, is older than every message its actor still has, and is unused. -/
structure Ledger.Sound (owner : κ → ι) (ledger : Ledger ι κ π) : Prop where
  ordered : ∀ actor, (ledger.queue actor).Pairwise fun first second => first.1 < second.1
  posted : ∀ actor, ∀ mail ∈ ledger.queue actor,
    ledger.journal[mail.1]? = some mail.2.entry ∧ mail.2.For owner actor
  waiting : ∀ slot callback, ledger.pending slot = some callback →
    ledger.journal[callback]? = some (.requested slot) ∧ Unused ledger.journal callback ∧
      ∀ mail ∈ ledger.queue (owner slot), callback < mail.1
  unregistered : ∀ actor time slot, (time, .register slot) ∈ ledger.queue actor →
    Unused ledger.journal time
  genuine : Genuine ledger.journal

section Journal

variable {journal : List (Entry κ π)} {entry : Entry κ π}

theorem getElem?_append_of_some {time : Nat} {old new : List (Entry κ π)}
    (recorded : old[time]? = some entry) : (old ++ new)[time]? = some entry := by
  rw [List.getElem?_append_left (List.getElem?_eq_some_iff.mp recorded).1, recorded]

/-- An entry that invokes nothing leaves callbacks unused. -/
theorem Unused.append {callback : Nat} (unused : Unused journal callback)
    (other : ∀ source payload, entry ≠ .invoked callback source payload) :
    Unused (journal ++ [entry]) callback := by
  intro time source payload found
  rcases getElem?_concat_eq_some_iff.mp found with ⟨-, invoked⟩ | earlier
  · exact other source payload invoked
  · exact unused time source payload earlier

theorem Genuine.append (genuine : Genuine journal)
    (other : ∀ callback source payload, entry ≠ .invoked callback source payload) :
    Genuine (journal ++ [entry]) where
  own time callback source payload found := by
    rcases getElem?_concat_eq_some_iff.mp found with ⟨-, invoked⟩ | earlier
    · exact absurd invoked (other callback source payload)
    · obtain ⟨slot, requested, answered, order⟩ := genuine.own _ _ _ _ earlier
      exact ⟨slot, getElem?_append_of_some requested, getElem?_append_of_some answered, order⟩
  once first second callback source source' payload payload' found found' := by
    rcases getElem?_concat_eq_some_iff.mp found with ⟨-, invoked⟩ | earlier
    · exact absurd invoked (other callback source payload)
    rcases getElem?_concat_eq_some_iff.mp found' with ⟨-, invoked⟩ | earlier'
    · exact absurd invoked (other callback source' payload')
    · exact genuine.once _ _ _ _ _ _ _ earlier earlier'

/-- Invoking an unused callback with a later answer to its slot. -/
theorem Genuine.invoke (genuine : Genuine journal) {callback source : Nat} {slot : κ}
    {payload : π} (requested : journal[callback]? = some (.requested slot))
    (answered : journal[source]? = some (.answered slot payload)) (later : callback < source)
    (unused : Unused journal callback) :
    Genuine (journal ++ [.invoked callback source payload]) where
  own time other source' payload' found := by
    rcases getElem?_concat_eq_some_iff.mp found with ⟨rfl, invoked⟩ | earlier
    · cases invoked
      exact ⟨slot, getElem?_append_of_some requested, getElem?_append_of_some answered, later,
        (List.getElem?_eq_some_iff.mp answered).1⟩
    · obtain ⟨slot', requested', answered', order⟩ := genuine.own _ _ _ _ earlier
      exact ⟨slot', getElem?_append_of_some requested', getElem?_append_of_some answered', order⟩
  once first second other source' source'' payload' payload'' found found' := by
    rcases getElem?_concat_eq_some_iff.mp found with ⟨rfl, invoked⟩ | earlier
    · rcases getElem?_concat_eq_some_iff.mp found' with ⟨rfl, -⟩ | earlier'
      · rfl
      · cases invoked
        exact absurd earlier' (unused _ _ _)
    · rcases getElem?_concat_eq_some_iff.mp found' with ⟨rfl, invoked⟩ | earlier'
      · cases invoked
        exact absurd earlier (unused _ _ _)
      · exact genuine.once _ _ _ _ _ _ _ earlier earlier'

/-- A callback that is not requested yet is unused. -/
theorem Genuine.unused_length (genuine : Genuine journal) : Unused journal journal.length := by
  intro time source payload found
  obtain ⟨slot, requested, -⟩ := genuine.own _ _ _ _ found
  exact absurd (List.getElem?_eq_some_iff.mp requested).1 (Nat.lt_irrefl _)

theorem Job.entry_ne_invoked (job : Job κ π) (callback source : Nat) (payload : π) :
    job.entry ≠ .invoked callback source payload := by
  cases job <;> simp [Job.entry]

theorem Ledger.Sound.time_lt {owner : κ → ι} {ledger : Ledger ι κ π}
    (sound : ledger.Sound owner) {actor : ι} {mail : Nat × Job κ π}
    (queued : mail ∈ ledger.queue actor) : mail.1 < ledger.journal.length :=
  (List.getElem?_eq_some_iff.mp (sound.posted actor mail queued).1).1

end Journal

/-! ## Steps -/

variable [DecidableEq ι] [DecidableEq κ]

/-- Put a message into the mailbox of an actor. -/
def Ledger.post (ledger : Ledger ι κ π) (actor : ι) (job : Job κ π) : Ledger ι κ π where
  pending := ledger.pending
  queue := Function.update ledger.queue actor
    (ledger.queue actor ++ [(ledger.journal.length, job)])
  journal := ledger.journal ++ [job.entry]

/-- Take the first message out of the mailbox of an actor. -/
def Ledger.pop (ledger : Ledger ι κ π) (actor : ι) : Ledger ι κ π :=
  { ledger with queue := Function.update ledger.queue actor (ledger.queue actor).tail }

/-- The steps of a ledger. -/
inductive Ledger.Step (owner : κ → ι) (ledger : Ledger ι κ π) : Ledger ι κ π → Prop where
  | post {actor job} (served : job.For owner actor) : ledger.Step owner (ledger.post actor job)
  | note : ledger.Step owner { ledger with journal := ledger.journal ++ [.noted] }
  | register {actor time slot rest}
      (next : ledger.queue actor = (time, .register slot) :: rest) :
      ledger.Step owner
        { ledger.pop actor with pending := Function.update ledger.pending slot (some time) }
  | answer {actor time slot payload rest callback}
      (next : ledger.queue actor = (time, .answer slot payload) :: rest)
      (found : ledger.pending slot = some callback) :
      ledger.Step owner
        { ledger.pop actor with
          pending := Function.update ledger.pending slot none
          journal := ledger.journal ++ [.invoked callback time payload] }
  | drop {actor mail rest pending} (next : ledger.queue actor = mail :: rest)
      (kept : ∀ slot callback, pending slot = some callback →
        ledger.pending slot = some callback) :
      ledger.Step owner { ledger.pop actor with pending := pending }

section Steps

variable {owner : κ → ι} {ledger target : Ledger ι κ π}

omit [DecidableEq κ] in
theorem Ledger.mem_queue_post_iff {actor other : ι} {job : Job κ π} {mail : Nat × Job κ π} :
    mail ∈ (ledger.post actor job).queue other ↔
      mail ∈ ledger.queue other ∨ other = actor ∧ mail = (ledger.journal.length, job) := by
  by_cases same : other = actor
  · subst same
    simp [Ledger.post]
  · simp [Ledger.post, same]

omit [DecidableEq κ] in
theorem Ledger.mem_of_mem_pop {actor other : ι} {mail : Nat × Job κ π}
    (queued : mail ∈ (ledger.pop actor).queue other) : mail ∈ ledger.queue other := by
  by_cases same : other = actor
  · subst same
    simp only [Ledger.pop, Function.update_self] at queued
    exact List.mem_of_mem_tail queued
  · simpa [Ledger.pop, same] using queued

omit [DecidableEq κ] in
theorem Ledger.Sound.post (sound : ledger.Sound owner) {actor : ι} {job : Job κ π}
    (served : job.For owner actor) : (ledger.post actor job).Sound owner where
  ordered other := by
    by_cases same : other = actor
    · subst same
      simp only [Ledger.post, Function.update_self]
      refine List.pairwise_append.mpr ⟨sound.ordered other, List.pairwise_singleton .., ?_⟩
      intro mail queued newest added
      rw [List.mem_singleton.mp added]
      exact sound.time_lt queued
    · simpa [Ledger.post, same] using sound.ordered other
  posted other mail queued := by
    rcases Ledger.mem_queue_post_iff.mp queued with old | ⟨rfl, rfl⟩
    · obtain ⟨recorded, served⟩ := sound.posted other mail old
      exact ⟨getElem?_append_of_some recorded, served⟩
    · exact ⟨List.getElem?_concat_length, served⟩
  waiting slot callback stored := by
    obtain ⟨requested, unused, older⟩ := sound.waiting slot callback stored
    refine ⟨getElem?_append_of_some requested, unused.append (job.entry_ne_invoked callback), ?_⟩
    intro mail queued
    rcases Ledger.mem_queue_post_iff.mp queued with old | ⟨-, rfl⟩
    · exact older mail old
    · exact (List.getElem?_eq_some_iff.mp requested).1
  unregistered other time slot queued := by
    rcases Ledger.mem_queue_post_iff.mp queued with old | ⟨-, newest⟩
    · exact (sound.unregistered other time slot old).append (job.entry_ne_invoked time)
    · cases newest
      exact sound.genuine.unused_length.append (Job.entry_ne_invoked _ _)
  genuine := sound.genuine.append job.entry_ne_invoked

omit [DecidableEq ι] [DecidableEq κ] in
theorem Ledger.Sound.note (sound : ledger.Sound owner) :
    Ledger.Sound owner { ledger with journal := ledger.journal ++ [.noted] } where
  ordered := sound.ordered
  posted actor mail queued := by
    obtain ⟨recorded, served⟩ := sound.posted actor mail queued
    exact ⟨getElem?_append_of_some recorded, served⟩
  waiting slot callback stored := by
    obtain ⟨requested, unused, older⟩ := sound.waiting slot callback stored
    exact ⟨getElem?_append_of_some requested, unused.append (by simp), older⟩
  unregistered actor time slot queued :=
    (sound.unregistered actor time slot queued).append (by simp)
  genuine := sound.genuine.append (by simp)

omit [DecidableEq κ] in
/-- Working off a message and forgetting callbacks. -/
theorem Ledger.Sound.drop (sound : ledger.Sound owner) (actor : ι) {pending : κ → Option Nat}
    (kept : ∀ slot callback, pending slot = some callback →
      ledger.pending slot = some callback) :
    Ledger.Sound owner { ledger.pop actor with pending := pending } where
  ordered other := by
    by_cases same : other = actor
    · subst same
      simpa [Ledger.pop] using (sound.ordered other).tail
    · simpa [Ledger.pop, same] using sound.ordered other
  posted other mail queued := sound.posted other mail (Ledger.mem_of_mem_pop queued)
  waiting slot callback stored := by
    obtain ⟨requested, unused, older⟩ := sound.waiting slot callback (kept slot callback stored)
    exact ⟨requested, unused, fun mail queued => older mail (Ledger.mem_of_mem_pop queued)⟩
  unregistered other time slot queued :=
    sound.unregistered other time slot (Ledger.mem_of_mem_pop queued)
  genuine := sound.genuine

/-- The section of a request: its callback is older than all messages behind it. -/
theorem Ledger.Sound.register (sound : ledger.Sound owner) {actor : ι} {time : Nat} {slot : κ}
    {rest : List (Nat × Job κ π)} (next : ledger.queue actor = (time, .register slot) :: rest) :
    Ledger.Sound owner
      { ledger.pop actor with pending := Function.update ledger.pending slot (some time) } := by
  have head : (time, .register slot) ∈ ledger.queue actor := next ▸ List.mem_cons_self
  obtain ⟨requested, served⟩ := sound.posted actor _ head
  have order := sound.ordered actor
  rw [next] at order
  have dropped := sound.drop actor fun _ _ stored => stored
  refine { dropped with waiting := fun other callback stored => ?_ }
  rcases update_eq_some_iff.mp stored with ⟨rfl, replaced⟩ | ⟨-, kept⟩
  · cases replaced
    refine ⟨requested, sound.unregistered actor time other head, fun mail queued => ?_⟩
    cases served
    have behind : mail ∈ rest := by simpa [Ledger.pop, next] using queued
    exact (List.pairwise_cons.mp order).1 mail behind
  · exact dropped.waiting other callback kept

/-- The section of an answer: the callback that waits is not used yet, and no other
callback in the table or in a mailbox is the same. -/
theorem Ledger.Sound.answer (sound : ledger.Sound owner) {actor : ι} {time : Nat} {slot : κ}
    {payload : π} {rest : List (Nat × Job κ π)} {callback : Nat}
    (next : ledger.queue actor = (time, .answer slot payload) :: rest)
    (found : ledger.pending slot = some callback) :
    Ledger.Sound owner
      { ledger.pop actor with
        pending := Function.update ledger.pending slot none
        journal := ledger.journal ++ [.invoked callback time payload] } := by
  have head : (time, .answer slot payload) ∈ ledger.queue actor := next ▸ List.mem_cons_self
  obtain ⟨answered, served⟩ := sound.posted actor _ head
  obtain ⟨requested, unused, older⟩ := sound.waiting slot callback found
  cases served
  have kept : ∀ other waiting, Function.update ledger.pending slot none other = some waiting →
      ledger.pending other = some waiting :=
    fun _ _ => eq_some_of_update_none
  have dropped := sound.drop (owner slot) kept
  refine ⟨dropped.ordered, fun other mail queued => ?_, fun other waiting stored => ?_,
    fun other time' slot' queued => ?_,
    sound.genuine.invoke requested answered (older _ head) unused⟩
  · obtain ⟨recorded, served⟩ := dropped.posted other mail queued
    exact ⟨getElem?_append_of_some recorded, served⟩
  · obtain ⟨requested', unused', older'⟩ := dropped.waiting other waiting stored
    refine ⟨getElem?_append_of_some requested', unused'.append ?_, older'⟩
    rintro source payload' same
    cases same
    cases requested.symm.trans requested'
    simp at stored
  · refine (dropped.unregistered other time' slot' queued).append ?_
    rintro source payload' same
    cases same
    have mailed := Ledger.mem_of_mem_pop queued
    obtain ⟨recorded, served⟩ := sound.posted other _ mailed
    cases requested.symm.trans recorded
    cases served
    exact absurd (older _ mailed) (Nat.lt_irrefl _)

/-- The journal only grows. -/
theorem Ledger.Step.exists_journal (step : ledger.Step owner target) :
    ∃ entries, target.journal = ledger.journal ++ entries := by
  cases step with
  | post served => exact ⟨_, rfl⟩
  | note => exact ⟨_, rfl⟩
  | register next => exact ⟨[], (List.append_nil _).symm⟩
  | answer next found => exact ⟨_, rfl⟩
  | drop next kept => exact ⟨[], (List.append_nil _).symm⟩

/-- A step keeps the ledger sound. -/
theorem Ledger.Sound.step (sound : ledger.Sound owner) (step : ledger.Step owner target) :
    target.Sound owner := by
  cases step with
  | post served => exact sound.post served
  | note => exact sound.note
  | register next => exact sound.register next
  | answer next found => exact sound.answer next found
  | drop next kept => exact sound.drop _ kept

end Steps

end Uqda.Store
