import Uqda.KeyStore.Timers

/-!
# Refreshing and expiry

The timers of the store delete what has not been used for a while.  Using a record
or refilling a buffer stops its timer and arms a new one, but `Stop` does not
reach a callback that has started and waits for the mutex, and the callback asks
only whether its object is still the stored one, which a refreshed object is.

So a callback can delete what was refreshed after the callback's timer was armed.
It never does exactly if no section stops a timer whose callback is waiting.
-/

namespace Uqda.KeyStore

open Uqda.Addressing Uqda.Transition Uqda.Store

/-- The step from `k` to `target` keeps all records and buffers whose timer was
armed after `timer`.  Timers are numbered in the order in which they are armed. -/
structure Spares (timer : Nat) (k target : State) : Prop where
  keyToInfo : ∀ {key info latest}, k.keyToInfo key = some info →
    k.infoTimeout info.id = some latest → timer < latest → target.keyToInfo key = some info
  addrToInfo : ∀ {addr info latest}, k.addrs.toInfo addr = some info →
    k.infoTimeout info.id = some latest → timer < latest → target.addrs.toInfo addr = some info
  subnetToInfo : ∀ {subnet info latest}, k.subnets.toInfo subnet = some info →
    k.infoTimeout info.id = some latest → timer < latest →
      target.subnets.toInfo subnet = some info
  addrBuffer : ∀ {addr buf}, k.addrs.buffer addr = some buf → timer < buf.timeout →
    target.addrs.buffer addr = some buf
  subnetBuffer : ∀ {subnet buf}, k.subnets.buffer subnet = some buf → timer < buf.timeout →
    target.subnets.buffer subnet = some buf

/-- Whichever callback runs next, it keeps what was refreshed after the callback's
timer was armed. -/
def State.RefreshBeatsExpiry (k : State) : Prop :=
  ∀ timer target, k.perform (.event (.callback timer)) = some target → Spares timer k target

/-- The section stops no timer whose callback has started and waits for the
mutex. -/
def State.StopsInTime (k : State) (called : Section) : Prop :=
  ∀ timer, k.stops called = some timer → ¬ k.Waiting timer

/-! ## Refreshing and expiry -/

/-- A callback that has been overtaken by a newer timer of its object deletes the
object. -/
theorem State.not_spares_of_lt {k : State} {timer latest : Nat} {callback : Callback}
    {timers : List Timer}
    (stored : k.latest callback = some latest) (late : timer < latest) :
    ¬ Spares timer k (State.expire { k with timers := timers } callback) := by
  intro spares
  cases callback with
  | expireInfo info =>
      obtain ⟨known, timeout⟩ := latest_expireInfo_eq_some_iff.mp stored
      have kept := spares.keyToInfo known timeout late
      exact (forget_eq_some_iff.mp kept).2 ⟨rfl, rfl⟩
  | expireAddrBuffer addr buf =>
      obtain ⟨held, found, rfl, rfl⟩ := Index.latest_eq_some_iff.mp stored
      have kept := spares.addrBuffer found late
      exact (discard_eq_some_iff.mp kept).2 ⟨rfl, rfl⟩
  | expireSubnetBuffer subnet buf =>
      obtain ⟨held, found, rfl, rfl⟩ := Index.latest_eq_some_iff.mp stored
      have kept := spares.subnetBuffer found late
      exact (discard_eq_some_iff.mp kept).2 ⟨rfl, rfl⟩

/-- A callback that has not been overtaken deletes nothing with a newer timer. -/
theorem State.Linked.spares_of_le {k : State} (inv : k.Linked) {timer : Nat}
    {callback : Callback} {timers : List Timer}
    (last : ∀ {latest}, k.latest callback = some latest → latest ≤ timer) :
    Spares timer k (State.expire { k with timers := timers } callback) := by
  cases callback with
  | expireInfo info =>
      have expired : ∀ {latest}, k.keyToInfo info.key = some info →
          k.infoTimeout info.id = some latest → timer < latest → False := by
        intro latest known timeout late
        exact absurd (last (latest_expireInfo_eq_some_iff.mpr ⟨known, timeout⟩))
          (Nat.not_le_of_lt late)
      refine ⟨?_, ?_, ?_, fun stored _ => stored, fun stored _ => stored⟩
      · intro key record latest stored timeout late
        refine forget_eq_some_iff.mpr ⟨stored, ?_⟩
        rintro ⟨rfl, rfl⟩
        exact expired stored timeout late
      · intro addr record latest stored timeout late
        refine forget_eq_some_iff.mpr ⟨stored, ?_⟩
        rintro ⟨rfl, rfl⟩
        exact expired (inv.addrs.entry stored).2 timeout late
      · intro subnet record latest stored timeout late
        refine forget_eq_some_iff.mpr ⟨stored, ?_⟩
        rintro ⟨rfl, rfl⟩
        exact expired (inv.subnets.entry stored).2 timeout late
  | expireAddrBuffer slot buf =>
      refine ⟨fun stored _ _ => stored, fun stored _ _ => stored, fun stored _ _ => stored, ?_,
        fun stored _ => stored⟩
      intro addr held stored late
      refine discard_eq_some_iff.mpr ⟨stored, ?_⟩
      rintro ⟨rfl, same⟩
      exact absurd (last (Index.latest_eq_some_iff.mpr ⟨held, stored, same, rfl⟩))
        (Nat.not_le_of_lt late)
  | expireSubnetBuffer slot buf =>
      refine ⟨fun stored _ _ => stored, fun stored _ _ => stored, fun stored _ _ => stored,
        fun stored _ => stored, ?_⟩
      intro subnet held stored late
      refine discard_eq_some_iff.mpr ⟨stored, ?_⟩
      rintro ⟨rfl, same⟩
      exact absurd (last (Index.latest_eq_some_iff.mpr ⟨held, stored, same, rfl⟩))
        (Nat.not_le_of_lt late)

/-- Nothing refreshed is deleted by the next callback exactly if no waiting callback
is late. -/
theorem State.Timed.refreshBeatsExpiry_iff {k : State} (inv : k.Timed) :
    k.RefreshBeatsExpiry ↔ k.Prompt := by
  constructor
  · intro beats timer callback latest held stored
    have spares := beats timer _ (perform_callback_eq_some_iff.mpr ⟨callback, held, rfl⟩)
    rcases Nat.lt_or_eq_of_le (inv.before held stored) with late | last
    · exact absurd spares (not_spares_of_lt stored late)
    · exact last
  · intro prompt timer target step
    obtain ⟨callback, held, rfl⟩ := perform_callback_eq_some_iff.mp step
    exact inv.spares_of_le fun stored => Nat.le_of_eq (prompt held stored).symm

/-- In a run of the store every callback keeps what was refreshed after its timer
was armed, in whichever order callbacks run, exactly when no section of the run
stops a timer whose callback waits for the mutex. -/
theorem refreshBeatsExpiry_throughout_iff (publicKey : KeyArray) (sections : List Section) :
    Throughout State.perform State.RefreshBeatsExpiry (State.init publicKey) sections ↔
      EveryStep State.perform State.StopsInTime (State.init publicKey) sections := by
  refine throughout_iff_everyStep sections (State.init_timed publicKey) ?_ ?_ ?_
  · rw [(State.init_timed publicKey).refreshBeatsExpiry_iff]
    intro timer callback latest held
    simp [State.init] at held
  · intro k called target inv _ step
    exact inv.perform step
  · intro k called target inv holds step
    rw [(inv.perform step).refreshBeatsExpiry_iff]
    rw [inv.refreshBeatsExpiry_iff] at holds
    rcases inv.moves step with ⟨callback, rearms, stops⟩ | ⟨calms, stops⟩
    · rw [rearms.prompt_iff inv.toOrdered holds, State.StopsInTime, stops]
    · refine iff_of_true (calms.prompt inv.toOrdered holds) ?_
      intro timer stopped
      rw [stops] at stopped
      cases stopped

/-! ## Losing what was refreshed -/

/-- A key is learnt, its timer fires, and the key is used again before the callback
gets the mutex. -/
def refreshLate (key : KeyArray) : List Section :=
  [.event (.update key.toList), .event (.fire 0), .event (.update key.toList)]

/-- A packet is buffered, its timer fires, and the buffer is refilled before the
callback gets the mutex. -/
def refillLate (addr : Address) (first second : Packet) : List Section :=
  [.sendToAddress addr first, .event (.fire 0), .sendToAddress addr second]

theorem run_refreshLate (publicKey key : KeyArray) :
    ∃ before after info, run State.perform (State.init publicKey) (refreshLate key) = some before ∧
      before.perform (.event (.callback 0)) = some after ∧
      before.keyToInfo key = some info ∧ before.infoTimeout info.id = some 1 ∧
      after.keyToInfo key = none := by
  simp [refreshLate, run, State.perform, State.next, State.init, State.update,
    copyAt_zero_toList, State.newInfo, State.learn, Index.learn_eq, State.resetTimeout,
    State.stop, State.afterFunc, Timer.stop, State.expire, forget]

theorem run_refillLate (publicKey : KeyArray) (addr : Address) (first second : Packet) :
    ∃ before after buf,
      run State.perform (State.init publicKey) (refillLate addr first second) = some before ∧
      before.perform (.event (.callback 0)) = some after ∧
      before.addrs.buffer addr = some buf ∧ buf.packet = second ∧ buf.timeout = 1 ∧
      after.addrs.buffer addr = none := by
  simp [refillLate, run, State.perform, State.next, State.init, State.sendToAddress, State.fill,
    State.stop, State.afterFunc, Timer.stop, State.expire, discard]

/-- The callback of the first timer deletes the record that was refreshed and the
buffer that was refilled after that timer was armed. -/
theorem late_callbacks_delete :
    (∃ before after info,
      run State.perform (State.init peerKey) (refreshLate nodeKey) = some before ∧
      before.perform (.event (.callback 0)) = some after ∧
      before.keyToInfo nodeKey = some info ∧ before.infoTimeout info.id = some 1 ∧
      after.keyToInfo nodeKey = none) ∧
    (∃ before after buf,
      run State.perform (State.init peerKey)
        (refillLate (addressOf nodeKey) ⟨0, [0x60]⟩ ⟨1, [0x61]⟩) = some before ∧
      before.perform (.event (.callback 0)) = some after ∧
      before.addrs.buffer (addressOf nodeKey) = some buf ∧ buf.packet = ⟨1, [0x61]⟩ ∧
      buf.timeout = 1 ∧ after.addrs.buffer (addressOf nodeKey) = none) ∧
    ¬ ∀ publicKey sections,
      Throughout State.perform State.RefreshBeatsExpiry (State.init publicKey) sections := by
  refine ⟨run_refreshLate peerKey nodeKey, run_refillLate peerKey (addressOf nodeKey) _ _, ?_⟩
  intro always
  obtain ⟨before, after, info, reached, expired, known, refreshed, deleted⟩ :=
    run_refreshLate peerKey nodeKey
  have spares := (always peerKey (refreshLate nodeKey)).last reached 0 after expired
  have kept := spares.keyToInfo known refreshed (by decide)
  rw [deleted] at kept
  cases kept

end Uqda.KeyStore
