import Uqda.KeyStore.Usable

/-!
# The timers of the key store

The runs here are wider than those of `State.next`: the two senders may be called
with any address or subnet, whether or not `writePC` would call them with it.  The
forwarding maps stay sound in them.

Timers are numbered in the order in which they are armed.  Every record and every
buffer has one timer that was armed last, and a section either restarts that timer
for one object or arms nothing.  From these two kinds of move follows what is known
about the timers in every state.
-/

namespace Uqda.KeyStore

open Uqda.Addressing Uqda.Transition Uqda.Store

/-! ## Sections -/

/-- A direct call of a sender, or an event of the store. -/
inductive Section where
  | sendToAddress (addr : Address) (packet : Packet)
  | sendToSubnet (subnet : Subnet) (packet : Packet)
  | event (event : Event)
  deriving DecidableEq

/-- The transition function of the sections. -/
def State.perform : Step State Section := fun k called =>
  match called with
  | .sendToAddress addr packet => some (k.sendToAddress addr packet)
  | .sendToSubnet subnet packet => some (k.sendToSubnet subnet packet)
  | .event event => k.next event

theorem State.Linked.perform {k target : State} {called : Section} (inv : k.Linked)
    (step : k.perform called = some target) : target.Linked := by
  cases called with
  | sendToAddress addr packet =>
      cases step
      exact inv.sendToAddress addr packet
  | sendToSubnet subnet packet =>
      cases step
      exact inv.sendToSubnet subnet packet
  | event event => exact inv.next step

theorem State.perform_callback_eq_some_iff {k target : State} {timer : Nat} :
    k.perform (.event (.callback timer)) = some target ↔
      ∃ callback, k.timers[timer]? = some ⟨callback, .started⟩ ∧
        State.expire { k with timers := k.timers.set timer ⟨callback, .finished⟩ } callback =
          target := by
  change k.next (.callback timer) = some target ↔ _
  constructor
  · intro step
    cases State.moves_of_next step with
    | callback held => exact ⟨_, held, rfl⟩
  · rintro ⟨callback, held, rfl⟩
    simp only [State.next, held]

/-! ## Forwarding entries and buffers -/

/-- The forwarding maps hold the known records at the slots derived from their
keys, and buffers only at slots without a record. -/
structure State.Forwards (k : State) : Prop where
  address : ∀ {addr info}, k.addrs.toInfo addr = some info →
    info.address = addr ∧ addrForKey info.key.toList = some addr ∧
      k.keyToInfo info.key = some info
  subnet : ∀ {subnet info}, k.subnets.toInfo subnet = some info →
    info.subnet = subnet ∧ subnetForKey info.key.toList = some subnet ∧
      k.keyToInfo info.key = some info
  addrBuffer : ∀ {addr}, (k.addrs.buffer addr).isSome → k.addrs.toInfo addr = none
  subnetBuffer : ∀ {subnet}, (k.subnets.buffer subnet).isSome → k.subnets.toInfo subnet = none

theorem State.Linked.forwards {k : State} (inv : k.Linked) : k.Forwards where
  address := by
    intro addr info stored
    obtain ⟨rfl, known⟩ := inv.addrs.entry stored
    exact ⟨(inv.known known).2.1, addrForKey_eq_addressOf info.key, known⟩
  subnet := by
    intro subnet info stored
    obtain ⟨rfl, known⟩ := inv.subnets.entry stored
    exact ⟨(inv.known known).2.2, subnetForKey_eq_subnetOf info.key, known⟩
  addrBuffer := by
    intro addr waiting
    obtain ⟨buf, held⟩ := Option.isSome_iff_exists.mp waiting
    exact inv.addrs.unshadowed held
  subnetBuffer := by
    intro subnet waiting
    obtain ⟨buf, held⟩ := Option.isSome_iff_exists.mp waiting
    exact inv.subnets.unshadowed held

/-- In every state of every run no forwarding entry dangles and no buffer is
shadowed by an entry. -/
theorem forwards_throughout (publicKey : KeyArray) (sections : List Section) :
    Throughout State.perform State.Forwards (State.init publicKey) sections :=
  (throughout_of_step sections (State.init_linked publicKey)
    (fun inv step => inv.perform step)).mono fun _ inv => inv.forwards

/-! ## The last timer of an object -/

/-- The timer of the buffer at a slot, if the buffer is still the given object. -/
def Index.latest {κ : Type} (index : Index κ) (slot : κ) (buf : Nat) : Option Nat :=
  ((index.buffer slot).filter fun held => held.id = buf).map Buffer.timeout

/-- The timer armed last for the object that a callback deletes, if the object is
still stored. -/
def State.latest (k : State) : Callback → Option Nat
  | .expireInfo info => if k.keyToInfo info.key = some info then k.infoTimeout info.id else none
  | .expireAddrBuffer addr buf => k.addrs.latest addr buf
  | .expireSubnetBuffer subnet buf => k.subnets.latest subnet buf

/-- The timer that sending to a slot stops: that of the record, or that of the
buffer. -/
def Index.stops {κ : Type} (index : Index κ) (infoTimeout : Nat → Option Nat) (slot : κ) :
    Option Nat :=
  match index.toInfo slot with
  | some info => infoTimeout info.id
  | none => (index.buffer slot).map Buffer.timeout

/-- The timer on which a section calls `Stop`. -/
def State.stops (k : State) : Section → Option Nat
  | .sendToAddress addr _ => k.addrs.stops k.infoTimeout addr
  | .sendToSubnet subnet _ => k.subnets.stops k.infoTimeout subnet
  | .event (.writePC bs) =>
      match k.route bs with
      | .ok (.address addr) => k.addrs.stops k.infoTimeout addr
      | .ok (.subnet subnet) => k.subnets.stops k.infoTimeout subnet
      | .error _ => none
  | .event (.update key) =>
      (k.keyToInfo (copyAt (Vector.replicate publicKeySize 0) 0 key)).bind fun info =>
        k.infoTimeout info.id
  | .event _ => none

/-- The callback of a timer has started and has not run its section. -/
def State.Waiting (k : State) (timer : Nat) : Prop :=
  ∃ callback, k.timers[timer]? = some ⟨callback, .started⟩

/-! ## The order of timers -/

/-- The timer armed last for a stored object belongs to that object, all its other
timers were armed before, and it is the only one that may still be armed. -/
structure State.Ordered (k : State) : Prop where
  owned : ∀ {callback latest}, k.latest callback = some latest →
    ∃ status, k.timers[latest]? = some ⟨callback, status⟩
  before : ∀ {timer callback status latest}, k.timers[timer]? = some ⟨callback, status⟩ →
    k.latest callback = some latest → timer ≤ latest
  only : ∀ {timer callback latest}, k.timers[timer]? = some ⟨callback, .armed⟩ →
    k.latest callback = some latest → timer = latest

/-- A waiting callback whose object is stored belongs to the object's last timer. -/
def State.Prompt (k : State) : Prop :=
  ∀ {timer callback latest}, k.timers[timer]? = some ⟨callback, .started⟩ →
    k.latest callback = some latest → timer = latest

/-- The number of the object that a callback deletes has been handed out. -/
def State.Allocated (k : State) : Callback → Prop
  | .expireInfo info => info.id < k.nextInfo
  | .expireAddrBuffer _ buf => buf < k.nextBuffer
  | .expireSubnetBuffer _ buf => buf < k.nextBuffer

/-- The object of a callback gets a new timer, and no other object does. -/
structure State.Rearms (k target : State) (callback : Callback) : Prop where
  timers : target.timers = (k.stop (k.latest callback)).timers ++ [⟨callback, .armed⟩]
  self : target.latest callback = some k.timers.length
  other : ∀ {other latest}, other ≠ callback → target.latest other = some latest →
    k.latest other = some latest
  stored : k.latest callback = none → callback ∉ k.callbacks
  allocated : target.Allocated callback
  grows : k.nextInfo ≤ target.nextInfo ∧ k.nextBuffer ≤ target.nextBuffer

/-- What the timer table holds after `Stop`. -/
theorem State.stop_timers_eq_some_iff {k : State} {stopped : Option Nat} {timer : Nat}
    {found : Timer} :
    (k.stop stopped).timers[timer]? = some found ↔
      ∃ before, k.timers[timer]? = some before ∧
        (if stopped = some timer then before.stop else before) = found := by
  cases stopped with
  | none => simp [State.stop]
  | some pointer =>
      simp only [State.stop, getElem?_modify_eq_some_iff, Option.some.injEq]
      by_cases same : timer = pointer
      · subst same
        simp
      · simp [same, Ne.symm same]

theorem State.length_stop_timers (k : State) (stopped : Option Nat) :
    (k.stop stopped).timers.length = k.timers.length := by
  cases stopped <;> simp [State.stop]

theorem Timer.stop_status_ne_armed (timer : Timer) : timer.stop.status ≠ .armed := by
  unfold Timer.stop
  split
  · simp
  · assumption

theorem Timer.stop_eq_started_iff {timer : Timer} {callback : Callback} :
    timer.stop = ⟨callback, .started⟩ ↔ timer = ⟨callback, .started⟩ := by
  obtain ⟨armedFor, status⟩ := timer
  cases status <;> simp [Timer.stop]

theorem Timer.stop_eq (timer : Timer) : timer.stop = ⟨timer.callback, timer.stop.status⟩ := by
  rw [← timer.stop_callback]

namespace State.Rearms

variable {k target : State} {callback : Callback}

/-- A timer after the change is the new one, or it was there before and the one
that was the object's last is not armed any more. -/
theorem timer_cases (rearms : k.Rearms target callback) {timer : Nat} {found : Timer}
    (held : target.timers[timer]? = some found) :
    (timer = k.timers.length ∧ found = ⟨callback, .armed⟩) ∨
      ∃ before, k.timers[timer]? = some before ∧ before.callback = found.callback ∧
        (if k.latest callback = some timer then before.stop else before) = found := by
  rw [rearms.timers, getElem?_concat_eq_some_iff, length_stop_timers] at held
  rcases held with ⟨position, new⟩ | old
  · exact Or.inl ⟨position, new.symm⟩
  · obtain ⟨before, found, rfl⟩ := stop_timers_eq_some_iff.mp old
    refine Or.inr ⟨before, found, ?_, rfl⟩
    split
    · exact before.stop_callback.symm
    · rfl

/-- Every timer keeps its number and its callback. -/
theorem timer_kept (rearms : k.Rearms target callback) {timer : Nat} {before : Timer}
    (held : k.timers[timer]? = some before) :
    target.timers[timer]? =
      some (if k.latest callback = some timer then before.stop else before) := by
  rw [rearms.timers, getElem?_concat_eq_some_iff]
  exact Or.inr (stop_timers_eq_some_iff.mpr ⟨before, held, rfl⟩)

/-- A waiting callback was waiting before. -/
theorem started_before (rearms : k.Rearms target callback) {timer : Nat} {started : Callback}
    (held : target.timers[timer]? = some ⟨started, .started⟩) :
    k.timers[timer]? = some ⟨started, .started⟩ := by
  rcases rearms.timer_cases held with ⟨-, new⟩ | ⟨before, found, -, stopped⟩
  · cases new
  · split at stopped
    · rw [found, Timer.stop_eq_started_iff.mp stopped]
    · rw [found, stopped]

/-- An object with a timer is stored. -/
theorem exists_latest (rearms : k.Rearms target callback) {timer : Nat} {status : TimerStatus}
    (held : k.timers[timer]? = some ⟨callback, status⟩) :
    ∃ latest, k.latest callback = some latest := by
  cases found : k.latest callback with
  | none => exact absurd (State.mem_callbacks held) (rearms.stored found)
  | some latest => exact ⟨latest, rfl⟩

theorem ordered (rearms : k.Rearms target callback) (inv : k.Ordered) : target.Ordered where
  owned := by
    intro object latest stored
    by_cases same : object = callback
    · subst same
      rw [rearms.self, Option.some.injEq] at stored
      subst stored
      refine ⟨.armed, ?_⟩
      rw [rearms.timers, getElem?_concat_eq_some_iff, length_stop_timers]
      exact Or.inl ⟨rfl, rfl⟩
    · obtain ⟨status, held⟩ := inv.owned (rearms.other same stored)
      have kept := rearms.timer_kept held
      split at kept
      · exact ⟨_, kept.trans (congrArg some (Timer.stop_eq _))⟩
      · exact ⟨status, kept⟩
  before := by
    intro timer object status latest held stored
    rcases rearms.timer_cases held with ⟨rfl, new⟩ | ⟨old, found, sameCallback, -⟩
    · cases new
      rw [rearms.self, Option.some.injEq] at stored
      exact Nat.le_of_eq stored
    · by_cases same : object = callback
      · subst same
        rw [rearms.self, Option.some.injEq] at stored
        subst stored
        exact Nat.le_of_lt (List.getElem?_eq_some_iff.mp found).1
      · obtain ⟨oldCallback, oldStatus⟩ := old
        cases sameCallback
        exact inv.before found (rearms.other same stored)
  only := by
    intro timer object latest held stored
    rcases rearms.timer_cases held with ⟨rfl, new⟩ | ⟨old, found, -, stopped⟩
    · cases new
      rw [rearms.self, Option.some.injEq] at stored
      exact stored
    · split at stopped
      · exact absurd (congrArg Timer.status stopped) old.stop_status_ne_armed
      · rename_i notLast
        subst stopped
        by_cases same : object = callback
        · subst same
          -- its last timer was stopped, so no earlier one is armed
          obtain ⟨last, found'⟩ := rearms.exists_latest found
          exact absurd (found'.trans (congrArg some (inv.only found found').symm)) notLast
        · exact inv.only found (rearms.other same stored)

/-- A new timer makes no callback late exactly if the timer it replaces has no
waiting callback. -/
theorem prompt_iff (rearms : k.Rearms target callback) (inv : k.Ordered) (prompt : k.Prompt) :
    target.Prompt ↔ ∀ timer, k.latest callback = some timer → ¬ k.Waiting timer := by
  constructor
  · rintro after timer last ⟨waiting, held⟩
    obtain ⟨status, owned⟩ := inv.owned last
    rw [held, Option.some.injEq, Timer.mk.injEq] at owned
    obtain ⟨rfl, -⟩ := owned
    have kept := rearms.timer_kept held
    rw [if_pos last] at kept
    have inside := (List.getElem?_eq_some_iff.mp held).1
    exact absurd (after kept rearms.self) (Nat.ne_of_lt inside)
  · intro inTime timer object latest held stored
    have waiting := rearms.started_before held
    by_cases same : object = callback
    · subst same
      obtain ⟨last, found⟩ := rearms.exists_latest waiting
      have position := prompt waiting found
      exact absurd ⟨object, position ▸ waiting⟩ (inTime last found)
    · exact prompt waiting (rearms.other same stored)

end State.Rearms

/-- No timer is armed and no object gets a later timer. -/
structure State.Calms (k target : State) : Prop where
  armed : ∀ {timer : Nat} {callback}, target.timers[timer]? = some ⟨callback, .armed⟩ →
    k.timers[timer]? = some ⟨callback, .armed⟩
  started : ∀ {timer : Nat} {callback}, target.timers[timer]? = some ⟨callback, .started⟩ →
    k.timers[timer]? = some ⟨callback, .armed⟩ ∨ k.timers[timer]? = some ⟨callback, .started⟩
  callback : ∀ {timer : Nat},
    (target.timers[timer]?).map Timer.callback = (k.timers[timer]?).map Timer.callback
  latest : ∀ {callback latest}, target.latest callback = some latest →
    k.latest callback = some latest
  grows : k.nextInfo ≤ target.nextInfo ∧ k.nextBuffer ≤ target.nextBuffer

namespace State.Calms

variable {k target : State}

theorem ordered (calms : k.Calms target) (inv : k.Ordered) : target.Ordered where
  owned := by
    intro object latest stored
    obtain ⟨status, held⟩ := inv.owned (calms.latest stored)
    have same := @calms.callback latest
    rw [held] at same
    obtain ⟨⟨callback, after⟩, found, rfl⟩ := Option.map_eq_some_iff.mp same
    exact ⟨after, found⟩
  before := by
    intro timer object status latest held stored
    have same := @calms.callback timer
    rw [held] at same
    obtain ⟨⟨callback, before⟩, found, rfl⟩ := Option.map_eq_some_iff.mp same.symm
    exact inv.before found (calms.latest stored)
  only := fun held stored => inv.only (calms.armed held) (calms.latest stored)

theorem prompt (calms : k.Calms target) (inv : k.Ordered) (prompt : k.Prompt) :
    target.Prompt := by
  intro timer object latest held stored
  rcases calms.started held with armed | started
  · exact inv.only armed (calms.latest stored)
  · exact prompt started (calms.latest stored)

theorem refl (k : State) : k.Calms k where
  armed := id
  started := Or.inr
  callback := rfl
  latest := id
  grows := ⟨Nat.le_refl _, Nat.le_refl _⟩

/-- Objects may be deleted after the timers were changed. -/
theorem delete {middle : State} (calms : k.Calms middle) (same : target.timers = middle.timers)
    (latest : ∀ {callback latest}, target.latest callback = some latest →
      middle.latest callback = some latest)
    (grows : middle.nextInfo ≤ target.nextInfo ∧ middle.nextBuffer ≤ target.nextBuffer) :
    k.Calms target where
  armed := fun held => calms.armed (same ▸ held)
  started := fun held => calms.started (same ▸ held)
  callback := by
    intro timer
    rw [same, calms.callback]
  latest := fun stored => calms.latest (latest stored)
  grows := ⟨Nat.le_trans calms.grows.1 grows.1, Nat.le_trans calms.grows.2 grows.2⟩

end State.Calms

/-! ## What the operations do to the timers -/

/-- Every known record has a timer, and only allocated records have one. -/
structure State.Clocked (k : State) : Prop where
  timed : ∀ {key info}, k.keyToInfo key = some info → (k.infoTimeout info.id).isSome
  timeouts : ∀ {id timer}, k.infoTimeout id = some timer → id < k.nextInfo

/-- What is known about the timers in every state. -/
structure State.Timed (k : State) : Prop extends k.Linked, k.Ordered, k.Clocked where
  callbacks : ∀ callback ∈ k.callbacks, k.Allocated callback

theorem State.latest_init (publicKey : KeyArray) (callback : Callback) :
    (State.init publicKey).latest callback = none := by
  cases callback <;> simp [State.latest, Index.latest, State.init]

theorem State.init_timed (publicKey : KeyArray) : (State.init publicKey).Timed where
  toLinked := State.init_linked publicKey
  toOrdered := by
    constructor <;> intros <;> simp_all [State.latest_init]
  toClocked := by
    constructor <;> intros <;> simp_all [State.init]
  callbacks := by simp [State.init, State.callbacks]

theorem State.latest_expireInfo {k : State} {info : KeyInfo}
    (known : k.keyToInfo info.key = some info) :
    k.latest (.expireInfo info) = k.infoTimeout info.id :=
  if_pos known

theorem State.latest_expireInfo_eq_some_iff {k : State} {info : KeyInfo} {latest : Nat} :
    k.latest (.expireInfo info) = some latest ↔
      k.keyToInfo info.key = some info ∧ k.infoTimeout info.id = some latest := by
  simp only [State.latest]
  split <;> simp [*]

theorem Index.latest_eq_some_iff {κ : Type} {index : Index κ} {slot : κ} {buf latest : Nat} :
    index.latest slot buf = some latest ↔
      ∃ held, index.buffer slot = some held ∧ held.id = buf ∧ held.timeout = latest := by
  simp [Index.latest, Option.filter_eq_some_iff, and_assoc]

/-- Two stored records with one allocation number are one record. -/
theorem State.Timed.eq_of_id_eq {k : State} (inv : k.Timed) {first second : KeyInfo}
    (known : k.keyToInfo first.key = some first) (other : k.keyToInfo second.key = some second)
    (same : first.id = second.id) : first = second := by
  obtain ⟨latest, timeout⟩ := Option.isSome_iff_exists.mp (inv.timed known)
  obtain ⟨status, held⟩ :=
    inv.owned (latest_expireInfo_eq_some_iff.mpr ⟨known, timeout⟩)
  obtain ⟨otherStatus, otherHeld⟩ :=
    inv.owned (latest_expireInfo_eq_some_iff.mpr ⟨other, same ▸ timeout⟩)
  rw [held] at otherHeld
  cases otherHeld
  rfl

/-- Restarting the timer of a record, in full. -/
theorem State.resetTimeout_eq_stop (k : State) (info : KeyInfo) :
    k.resetTimeout info =
      { k with
        timers := (k.stop (k.infoTimeout info.id)).timers ++ [⟨.expireInfo info, .armed⟩]
        infoTimeout := Function.update k.infoTimeout info.id (some k.timers.length) } := by
  have length := k.length_stop_timers (k.infoTimeout info.id)
  simp only [State.resetTimeout, State.afterFunc, length]
  cases k.infoTimeout info.id <;> rfl

/-- A record that is stored gets a new timer. -/
theorem State.Timed.rearms_resetTimeout {k : State} (inv : k.Timed) {info : KeyInfo}
    (known : k.keyToInfo info.key = some info) :
    k.Rearms (k.resetTimeout info) (.expireInfo info) where
  timers := by
    rw [resetTimeout_eq_stop, latest_expireInfo known]
  self := by
    rw [resetTimeout_eq_stop, latest_expireInfo_eq_some_iff]
    exact ⟨known, Function.update_self ..⟩
  other := by
    intro other latest different stored
    rw [resetTimeout_eq_stop] at stored
    cases other with
    | expireInfo record =>
        obtain ⟨otherKnown, timeout⟩ := latest_expireInfo_eq_some_iff.mp stored
        have otherId : record.id ≠ info.id := by
          intro same
          exact different (congrArg _ (inv.eq_of_id_eq otherKnown known same))
        refine latest_expireInfo_eq_some_iff.mpr ⟨otherKnown, ?_⟩
        rw [← timeout]
        exact (Function.update_of_ne otherId ..).symm
    | expireAddrBuffer addr buf => exact stored
    | expireSubnetBuffer subnet buf => exact stored
  stored := by
    intro absent
    have timed := inv.timed known
    rw [← latest_expireInfo known, absent] at timed
    cases timed
  allocated := by
    obtain ⟨timer, timeout⟩ := Option.isSome_iff_exists.mp (inv.timed known)
    rw [resetTimeout_eq_stop]
    exact inv.timeouts timeout
  grows := by
    rw [resetTimeout_eq_stop]
    exact ⟨Nat.le_refl _, Nat.le_refl _⟩

section Index

variable {κ : Type} [DecidableEq κ]

/-- Filling the buffer at a slot, in full. -/
theorem State.fill_eq_stop (k : State) (index : Index κ) (expire : κ → Nat → Callback)
    (slot : κ) (packet : Packet) :
    ∃ buf fresh,
      k.fill index expire slot packet =
          ({ index with
              buffer := Function.update index.buffer slot (some ⟨buf, packet, k.timers.length⟩) },
            { k with
              timers := (k.stop ((index.buffer slot).map Buffer.timeout)).timers ++
                [⟨expire slot buf, .armed⟩]
              nextBuffer := fresh }) ∧
        index.latest slot buf = (index.buffer slot).map Buffer.timeout ∧
        k.nextBuffer ≤ fresh ∧ (index.buffer slot = none → buf = k.nextBuffer ∧ buf < fresh) := by
  unfold State.fill
  cases held : index.buffer slot with
  | some buf =>
      refine ⟨buf.id, k.nextBuffer, ?_, by simp [Index.latest, held], Nat.le_refl _, by simp⟩
      simp [State.afterFunc, State.stop]
  | none =>
      refine ⟨k.nextBuffer, k.nextBuffer + 1, rfl, by simp [Index.latest, held],
        Nat.le_succ _, ?_⟩
      exact fun _ => ⟨rfl, Nat.lt_succ_self _⟩

/-- Only the buffer that was filled has another timer. -/
theorem Index.latest_of_latest_fill {index : Index κ} {slot other : κ}
    {buf wanted timer latest : Nat} {packet : Packet}
    (stored : ({ index with
        buffer := Function.update index.buffer slot (some ⟨buf, packet, timer⟩) } :
      Index κ).latest other wanted = some latest)
    (different : ¬ (other = slot ∧ wanted = buf)) : index.latest other wanted = some latest := by
  obtain ⟨held, found, rfl, timeout⟩ := Index.latest_eq_some_iff.mp stored
  rcases update_eq_some_iff.mp found with ⟨rfl, same⟩ | ⟨-, old⟩
  · cases same
    exact absurd ⟨rfl, rfl⟩ different
  · exact Index.latest_eq_some_iff.mpr ⟨held, old, rfl, timeout⟩

theorem Index.latest_of_latest_learn {index : Index κ} {slot other : κ} {info : KeyInfo}
    {wanted latest : Nat}
    (stored : (index.learn slot info).2.latest other wanted = some latest) :
    index.latest other wanted = some latest := by
  rw [Index.learn_eq] at stored
  obtain ⟨held, found, identity, timeout⟩ := Index.latest_eq_some_iff.mp stored
  exact Index.latest_eq_some_iff.mpr ⟨held, eq_some_of_update_none found, identity, timeout⟩

theorem Index.latest_of_latest_discard {index : Index κ} {slot other : κ} {buf wanted latest : Nat}
    (stored : ({ index with buffer := discard index.buffer slot buf } : Index κ).latest other
      wanted = some latest) : index.latest other wanted = some latest := by
  obtain ⟨held, found, identity, timeout⟩ := Index.latest_eq_some_iff.mp stored
  exact Index.latest_eq_some_iff.mpr
    ⟨held, (discard_eq_some_iff.mp found).1, identity, timeout⟩

/-- Filling the buffer at a slot of an index of the store restarts the buffer's
timer. -/
theorem State.rearms_fill {k target : State} {index : Index κ} {expire : κ → Nat → Callback}
    {slot : κ} {packet : Packet}
    (timers : target.timers = (k.fill index expire slot packet).2.timers)
    (here : ∀ other buf, k.latest (expire other buf) = index.latest other buf)
    (filled : ∀ other buf, target.latest (expire other buf) =
      (k.fill index expire slot packet).1.latest other buf)
    (elsewhere : ∀ {callback latest}, (∀ other buf, callback ≠ expire other buf) →
      target.latest callback = some latest → k.latest callback = some latest)
    (numbers : target.nextInfo = k.nextInfo ∧
      target.nextBuffer = (k.fill index expire slot packet).2.nextBuffer)
    (numbered : ∀ {state : State} {other buf},
      state.Allocated (expire other buf) ↔ buf < state.nextBuffer)
    (inv : k.Ordered) (allocated : ∀ callback ∈ k.callbacks, k.Allocated callback) :
    ∃ callback, k.Rearms target callback ∧
      (index.buffer slot).map Buffer.timeout = k.latest callback := by
  obtain ⟨buf, fresh, equal, stops, larger, new⟩ := k.fill_eq_stop index expire slot packet
  rw [equal] at timers filled numbers
  refine ⟨expire slot buf, ⟨?_, ?_, ?_, ?_, ?_, ?_⟩, by rw [here, stops]⟩
  · rw [timers, here, stops]
  · rw [filled]
    exact Index.latest_eq_some_iff.mpr ⟨_, Function.update_self .., rfl, rfl⟩
  · intro callback latest different stored
    by_cases known : ∃ other wanted, callback = expire other wanted
    · obtain ⟨other, wanted, rfl⟩ := known
      rw [filled] at stored
      rw [here]
      refine Index.latest_of_latest_fill stored ?_
      rintro ⟨rfl, rfl⟩
      exact different rfl
    · exact elsewhere (fun other wanted same => known ⟨other, wanted, same⟩) stored
  · intro absent member
    rw [here, stops, Option.map_eq_none_iff] at absent
    obtain ⟨rfl, -⟩ := new absent
    exact absurd (numbered.mp (allocated _ member)) (Nat.lt_irrefl _)
  · rw [numbered, numbers.2]
    cases held : index.buffer slot with
    | none => exact (new held).2
    | some old =>
        -- the number of a buffer that is there was handed out when it was first filled
        have timed : k.latest (expire slot buf) = some old.timeout := by
          rw [here, stops, held]
          rfl
        obtain ⟨status, found⟩ := inv.owned timed
        have before := numbered.mp (allocated _ (State.mem_callbacks found))
        exact Nat.lt_of_lt_of_le before larger
  · rw [numbers.1, numbers.2]
    exact ⟨Nat.le_refl _, larger⟩

theorem State.Allocated.mono {k target : State} {callback : Callback}
    (allocated : k.Allocated callback) (infos : k.nextInfo ≤ target.nextInfo)
    (buffers : k.nextBuffer ≤ target.nextBuffer) : target.Allocated callback := by
  cases callback with
  | expireInfo info => exact Nat.lt_of_lt_of_le allocated infos
  | expireAddrBuffer addr buf => exact Nat.lt_of_lt_of_le allocated buffers
  | expireSubnetBuffer subnet buf => exact Nat.lt_of_lt_of_le allocated buffers

/-- A store whose timers and stored objects agree with another's is rearmed with it. -/
theorem State.Rearms.congr {k target other : State} {callback : Callback}
    (rearms : k.Rearms target callback) (timers : other.timers = target.timers)
    (latest : other.latest = target.latest)
    (numbers : other.nextInfo = target.nextInfo ∧ other.nextBuffer = target.nextBuffer) :
    k.Rearms other callback where
  timers := timers.trans rearms.timers
  self := latest ▸ rearms.self
  other := fun different stored => rearms.other different (latest ▸ stored)
  stored := rearms.stored
  allocated := rearms.allocated.mono (Nat.le_of_eq numbers.1.symm) (Nat.le_of_eq numbers.2.symm)
  grows := by
    rw [numbers.1, numbers.2]
    exact rearms.grows

end Index

/-- Sending to an address restarts the timer that it stops. -/
theorem State.Timed.rearms_sendToAddress {k : State} (inv : k.Timed) (addr : Address)
    (packet : Packet) :
    ∃ callback, k.Rearms (k.sendToAddress addr packet) callback ∧
      k.addrs.stops k.infoTimeout addr = k.latest callback := by
  unfold State.sendToAddress Index.stops
  cases found : k.addrs.toInfo addr with
  | some info =>
      have known := (inv.addrs.entry found).2
      exact ⟨.expireInfo info, (inv.rearms_resetTimeout known).congr rfl rfl ⟨rfl, rfl⟩,
        (latest_expireInfo known).symm⟩
  | none =>
      obtain ⟨buf, fresh, equal, -⟩ := k.fill_eq_stop k.addrs .expireAddrBuffer addr packet
      refine State.rearms_fill rfl (fun _ _ => rfl) (fun _ _ => rfl) ?_
        ⟨by simp only [equal], rfl⟩ Iff.rfl inv.toOrdered inv.callbacks
      intro callback latest different stored
      simp only [equal] at stored
      cases callback with
      | expireInfo record => exact stored
      | expireAddrBuffer slot buf => exact absurd rfl (different slot buf)
      | expireSubnetBuffer subnet buf => exact stored

theorem State.Timed.rearms_sendToSubnet {k : State} (inv : k.Timed) (subnet : Subnet)
    (packet : Packet) :
    ∃ callback, k.Rearms (k.sendToSubnet subnet packet) callback ∧
      k.subnets.stops k.infoTimeout subnet = k.latest callback := by
  unfold State.sendToSubnet Index.stops
  cases found : k.subnets.toInfo subnet with
  | some info =>
      have known := (inv.subnets.entry found).2
      exact ⟨.expireInfo info, (inv.rearms_resetTimeout known).congr rfl rfl ⟨rfl, rfl⟩,
        (latest_expireInfo known).symm⟩
  | none =>
      obtain ⟨buf, fresh, equal, -⟩ := k.fill_eq_stop k.subnets .expireSubnetBuffer subnet packet
      refine State.rearms_fill rfl (fun _ _ => rfl) (fun _ _ => rfl) ?_
        ⟨by simp only [equal], rfl⟩ Iff.rfl inv.toOrdered inv.callbacks
      intro callback latest different stored
      simp only [equal] at stored
      cases callback with
      | expireInfo record => exact stored
      | expireAddrBuffer slot buf => exact stored
      | expireSubnetBuffer subnet buf => exact absurd rfl (different subnet buf)

/-- An unknown key gets a record with a new timer. -/
theorem State.Timed.rearms_learn {k : State} (inv : k.Timed) {info : KeyInfo}
    (unknown : k.keyToInfo info.key = none) (new : info.id = k.nextInfo) :
    k.Rearms (k.learn info) (.expireInfo info) ∧ k.latest (.expireInfo info) = none := by
  have absent : k.latest (.expireInfo info) = none := by simp [State.latest, unknown]
  have untimed : k.infoTimeout info.id = none := by
    rw [Option.eq_none_iff_forall_ne_some]
    intro timer timeout
    exact absurd (inv.timeouts timeout) (new ▸ Nat.lt_irrefl _)
  refine ⟨?_, absent⟩
  unfold State.learn
  simp only [resetTimeout_eq_stop]
  refine ⟨?_, ?_, ?_, ?_, ?_, ?_⟩
  · rw [absent, untimed]
    rfl
  · rw [latest_expireInfo_eq_some_iff]
    exact ⟨Function.update_self .., Function.update_self ..⟩
  · intro other latest different stored
    cases other with
    | expireInfo record =>
        obtain ⟨found, timeout⟩ := latest_expireInfo_eq_some_iff.mp stored
        rcases update_eq_some_iff.mp found with ⟨-, same⟩ | ⟨-, known⟩
        · exact absurd (congrArg _ (Option.some.inj same).symm) different
        · rw [latest_expireInfo_eq_some_iff]
          have otherId : record.id ≠ info.id := by
            intro same
            have timed := inv.timed known
            rw [same, untimed] at timed
            cases timed
          exact ⟨known, (Function.update_of_ne otherId ..).symm.trans timeout⟩
    | expireAddrBuffer addr buf => exact Index.latest_of_latest_learn stored
    | expireSubnetBuffer subnet buf => exact Index.latest_of_latest_learn stored
  · intro _ member
    have allocated : info.id < k.nextInfo := inv.callbacks _ member
    exact absurd allocated (new ▸ Nat.lt_irrefl _)
  · exact Nat.lt_succ_of_le (Nat.le_of_eq new)
  · exact ⟨Nat.le_succ _, Nat.le_refl _⟩

/-- The status of a timer that is not armed again changes. -/
theorem State.calms_setStatus {k : State} {timer : Nat} {callback : Callback}
    {before after : TimerStatus} (held : k.timers[timer]? = some ⟨callback, before⟩)
    (fired : after = .started → before = .armed) (disarmed : after ≠ .armed) :
    k.Calms { k with timers := k.timers.set timer ⟨callback, after⟩ } where
  armed := by
    intro other armedFor found
    rcases (getElem?_set_eq_some_iff held).mp found with ⟨-, new⟩ | ⟨-, old⟩
    · exact absurd (congrArg Timer.status new) disarmed
    · exact old
  started := by
    intro other startedFor found
    rcases (getElem?_set_eq_some_iff held).mp found with ⟨rfl, new⟩ | ⟨-, old⟩
    · cases new
      exact Or.inl (fired rfl ▸ held)
    · exact Or.inr old
  callback := by
    intro other
    by_cases same : other = timer
    · subst same
      rw [held, (getElem?_set_eq_some_iff held).mpr (Or.inl ⟨rfl, rfl⟩)]
      rfl
    · rw [List.getElem?_set_ne (Ne.symm same)]
  latest := id
  grows := ⟨Nat.le_refl _, Nat.le_refl _⟩

theorem State.expire_timers (k : State) (callback : Callback) :
    (k.expire callback).timers = k.timers := by
  cases callback <;> rfl

theorem State.expire_numbers (k : State) (callback : Callback) :
    k.nextInfo ≤ (k.expire callback).nextInfo ∧ k.nextBuffer ≤ (k.expire callback).nextBuffer := by
  cases callback <;> exact ⟨Nat.le_refl _, Nat.le_refl _⟩

/-- A callback only deletes. -/
theorem State.latest_of_latest_expire {k : State} {callback other : Callback} {latest : Nat}
    (stored : (k.expire callback).latest other = some latest) :
    k.latest other = some latest := by
  cases callback with
  | expireInfo info =>
      cases other with
      | expireInfo record =>
          obtain ⟨kept, timeout⟩ := latest_expireInfo_eq_some_iff.mp stored
          exact latest_expireInfo_eq_some_iff.mpr ⟨(forget_eq_some_iff.mp kept).1, timeout⟩
      | expireAddrBuffer addr buf => exact stored
      | expireSubnetBuffer subnet buf => exact stored
  | expireAddrBuffer slot expired =>
      cases other with
      | expireInfo record => exact stored
      | expireAddrBuffer addr buf => exact Index.latest_of_latest_discard stored
      | expireSubnetBuffer subnet buf => exact stored
  | expireSubnetBuffer slot expired =>
      cases other with
      | expireInfo record => exact stored
      | expireAddrBuffer addr buf => exact stored
      | expireSubnetBuffer subnet buf => exact Index.latest_of_latest_discard stored

theorem State.stop_timers_congr {k other : State} (same : other.timers = k.timers)
    (stopped : Option Nat) : (other.stop stopped).timers = (k.stop stopped).timers := by
  cases stopped <;> simp [State.stop, same]

/-- Accepting a packet touches no timer. -/
theorem State.Timed.accept {k : State} (inv : k.Timed) (bs : List UInt8) :
    ({ k with accepted := k.accepted ++ [bs] } : State).Timed where
  toLinked := ⟨inv.known, inv.addrs, inv.subnets, inv.armed⟩
  toOrdered := ⟨inv.owned, inv.before, inv.only⟩
  toClocked := ⟨inv.timed, inv.timeouts⟩
  callbacks := inv.callbacks

theorem State.Rearms.of_accept {k target : State} {callback : Callback} {bs : List UInt8}
    (rearms : ({ k with accepted := k.accepted ++ [bs] } : State).Rearms target callback) :
    k.Rearms target callback where
  timers := by
    rw [rearms.timers]
    refine congrArg (· ++ _) (State.stop_timers_congr ?_ _)
    rfl
  self := rearms.self
  other := rearms.other
  stored := rearms.stored
  allocated := rearms.allocated
  grows := rearms.grows

/-- A section restarts the timer it stops, or stops none and arms none. -/
theorem State.Timed.moves {k target : State} {called : Section} (inv : k.Timed)
    (step : k.perform called = some target) :
    (∃ callback, k.Rearms target callback ∧ k.stops called = k.latest callback) ∨
      (k.Calms target ∧ k.stops called = none) := by
  cases called with
  | sendToAddress addr packet =>
      cases step
      exact Or.inl (inv.rearms_sendToAddress addr packet)
  | sendToSubnet subnet packet =>
      cases step
      exact Or.inl (inv.rearms_sendToSubnet subnet packet)
  | event event =>
      cases State.moves_of_next step with
      | writePC bs =>
          simp only [State.writePC, State.stops]
          cases k.route bs with
          | error err => exact Or.inr ⟨State.Calms.refl k, rfl⟩
          | ok route =>
              cases route with
              | address addr =>
                  obtain ⟨callback, rearms, stops⟩ :=
                    (inv.accept bs).rearms_sendToAddress addr ⟨k.accepted.length, bs⟩
                  exact Or.inl ⟨callback, rearms.of_accept, stops⟩
              | subnet subnet =>
                  obtain ⟨callback, rearms, stops⟩ :=
                    (inv.accept bs).rearms_sendToSubnet subnet ⟨k.accepted.length, bs⟩
                  exact Or.inl ⟨callback, rearms.of_accept, stops⟩
      | update =>
          simp only [State.update, State.stops]
          split
          · rename_i info found
            have known : k.keyToInfo info.key = some info := by
              rw [(inv.known found).1, found]
            rw [found]
            exact Or.inl ⟨_, inv.rearms_resetTimeout known, (latest_expireInfo known).symm⟩
          · rename_i absent
            obtain ⟨rearms, unstored⟩ := @State.Timed.rearms_learn k inv (k.newInfo _) absent rfl
            rw [absent]
            exact Or.inl ⟨_, rearms, unstored.symm⟩
      | fire found =>
          exact Or.inr ⟨State.calms_setStatus found (fun _ => rfl) (by simp), rfl⟩
      | callback found =>
          refine Or.inr ⟨State.Calms.delete ?_ (State.expire_timers _ _)
            State.latest_of_latest_expire (State.expire_numbers _ _), rfl⟩
          exact State.calms_setStatus found (by simp) (by simp)
      | writeTo =>
          exact Or.inr ⟨(State.Calms.refl k).delete rfl id ⟨Nat.le_refl _, Nat.le_refl _⟩, rfl⟩

/-! ## The invariant -/

theorem State.Rearms.callbacks {k target : State} {callback : Callback}
    (rearms : k.Rearms target callback) : target.callbacks = k.callbacks ++ [callback] := by
  obtain ⟨timers, stopped, kept⟩ := k.stop_eq (k.latest callback)
  have listed := rearms.timers
  rw [stopped] at listed
  simp [State.callbacks, listed, kept]

theorem State.Calms.callbacks {k target : State} (calms : k.Calms target) :
    target.callbacks = k.callbacks := by
  apply List.ext_getElem?
  intro timer
  rw [State.callbacks, State.callbacks, List.getElem?_map, List.getElem?_map, calms.callback]

theorem State.Timed.callbacks_of_rearms {k target : State} {callback : Callback}
    (inv : k.Timed) (rearms : k.Rearms target callback) :
    ∀ other ∈ target.callbacks, target.Allocated other := by
  intro other member
  rw [rearms.callbacks, List.mem_append, List.mem_singleton] at member
  rcases member with old | rfl
  · exact (inv.callbacks other old).mono rearms.grows.1 rearms.grows.2
  · exact rearms.allocated

theorem State.Timed.callbacks_of_calms {k target : State} (inv : k.Timed)
    (calms : k.Calms target) : ∀ other ∈ target.callbacks, target.Allocated other := by
  intro other member
  rw [calms.callbacks] at member
  exact (inv.callbacks other member).mono calms.grows.1 calms.grows.2

namespace State.Clocked

variable {k : State}

theorem resetTimeout (inv : k.Clocked) {info : KeyInfo} (allocated : info.id < k.nextInfo) :
    (k.resetTimeout info).Clocked := by
  rw [resetTimeout_eq_stop]
  constructor
  · intro key record stored
    by_cases same : record.id = info.id
    · simp [same]
    · simpa [same] using inv.timed stored
  · intro id latest stored
    rcases update_eq_some_iff.mp stored with ⟨rfl, -⟩ | ⟨-, old⟩
    · exact allocated
    · exact inv.timeouts old

theorem learn (inv : k.Clocked) {info : KeyInfo} (new : info.id = k.nextInfo) :
    (k.learn info).Clocked := by
  unfold State.learn
  simp only [resetTimeout_eq_stop]
  constructor
  · intro key record stored
    rcases update_eq_some_iff.mp stored with ⟨-, same⟩ | ⟨-, stored⟩
    · cases same
      simp
    · by_cases same : record.id = info.id
      · simp [same]
      · simpa [same] using inv.timed stored
  · intro id latest stored
    rcases update_eq_some_iff.mp stored with ⟨rfl, -⟩ | ⟨-, old⟩
    · exact Nat.lt_succ_of_le (Nat.le_of_eq new)
    · exact Nat.lt_succ_of_lt (inv.timeouts old)

theorem expire (inv : k.Clocked) (callback : Callback) : (k.expire callback).Clocked := by
  cases callback with
  | expireInfo info =>
      exact ⟨fun stored => inv.timed (forget_eq_some_iff.mp stored).1, inv.timeouts⟩
  | expireAddrBuffer addr buf => exact ⟨inv.timed, inv.timeouts⟩
  | expireSubnetBuffer subnet buf => exact ⟨inv.timed, inv.timeouts⟩

end State.Clocked

theorem State.Timed.lt_nextInfo {k : State} (inv : k.Timed) {key : KeyArray} {info : KeyInfo}
    (known : k.keyToInfo key = some info) : info.id < k.nextInfo := by
  obtain ⟨timer, timeout⟩ := Option.isSome_iff_exists.mp (inv.timed known)
  exact inv.timeouts timeout

theorem State.Timed.clocked_sendToAddress {k : State} (inv : k.Timed) (addr : Address)
    (packet : Packet) : (k.sendToAddress addr packet).Clocked := by
  unfold State.sendToAddress
  cases found : k.addrs.toInfo addr with
  | some info =>
      have reset := inv.toClocked.resetTimeout (inv.lt_nextInfo (inv.addrs.entry found).2)
      exact ⟨reset.timed, reset.timeouts⟩
  | none =>
      obtain ⟨buf, fresh, equal, -⟩ := k.fill_eq_stop k.addrs .expireAddrBuffer addr packet
      simp only [equal]
      exact ⟨inv.timed, inv.timeouts⟩

theorem State.Timed.clocked_sendToSubnet {k : State} (inv : k.Timed) (subnet : Subnet)
    (packet : Packet) : (k.sendToSubnet subnet packet).Clocked := by
  unfold State.sendToSubnet
  cases found : k.subnets.toInfo subnet with
  | some info =>
      have reset := inv.toClocked.resetTimeout (inv.lt_nextInfo (inv.subnets.entry found).2)
      exact ⟨reset.timed, reset.timeouts⟩
  | none =>
      obtain ⟨buf, fresh, equal, -⟩ := k.fill_eq_stop k.subnets .expireSubnetBuffer subnet packet
      simp only [equal]
      exact ⟨inv.timed, inv.timeouts⟩

theorem State.Timed.clocked_next {k target : State} {event : Event} (inv : k.Timed)
    (step : k.next event = some target) : target.Clocked := by
  cases State.moves_of_next step with
  | writePC bs =>
      unfold State.writePC
      cases k.route bs with
      | error err => exact inv.toClocked
      | ok route =>
          cases route with
          | address addr => exact (inv.accept bs).clocked_sendToAddress addr _
          | subnet subnet => exact (inv.accept bs).clocked_sendToSubnet subnet _
  | update =>
      simp only [State.update]
      split
      · rename_i info found
        exact inv.toClocked.resetTimeout (inv.lt_nextInfo found)
      · exact inv.toClocked.learn rfl
  | fire | writeTo => exact ⟨inv.timed, inv.timeouts⟩
  | callback =>
      refine State.Clocked.expire ?_ _
      exact ⟨inv.timed, inv.timeouts⟩

theorem State.Timed.perform {k target : State} {called : Section} (inv : k.Timed)
    (step : k.perform called = some target) : target.Timed := by
  have clocked : target.Clocked := by
    cases called with
    | sendToAddress addr packet =>
        cases step
        exact inv.clocked_sendToAddress addr packet
    | sendToSubnet subnet packet =>
        cases step
        exact inv.clocked_sendToSubnet subnet packet
    | event event => exact inv.clocked_next step
  have linked := inv.toLinked.perform step
  rcases inv.moves step with ⟨callback, rearms, -⟩ | ⟨calms, -⟩
  · exact ⟨linked, rearms.ordered inv.toOrdered, clocked, inv.callbacks_of_rearms rearms⟩
  · exact ⟨linked, calms.ordered inv.toOrdered, clocked, inv.callbacks_of_calms calms⟩

end Uqda.KeyStore
