import Uqda.KeyStore.Delivery

/-!
# When a learned key stays usable for sending

A record enters the three maps together, but a later record with the same
address or subnet takes over the shared slot, and expiry of that later record
empties the slot although the earlier key is still known.  From then on packets
for the earlier key are buffered, and refreshing it does not put its entry back.

The structural invariant below holds in every run.  Together with it, every known
key stays usable exactly as long as no expiry empties a slot that another known
key shares.
-/

namespace Uqda.KeyStore

open Uqda.Addressing Uqda.Transition Uqda.Store

/-! ## Structural invariant -/

/-- Index entries sit at the slot derived from their key and are the record that
is known for the key; no slot has both an entry and a buffer. -/
structure Index.Linked {κ : Type} (derive : KeyArray → κ)
    (keyToInfo : KeyArray → Option KeyInfo) (index : Index κ) : Prop where
  entry : ∀ {slot info}, index.toInfo slot = some info →
    derive info.key = slot ∧ keyToInfo info.key = some info
  unshadowed : ∀ {slot buf}, index.buffer slot = some buf → index.toInfo slot = none

/-- A record agrees with its key. -/
def KeyInfo.Derived (info : KeyInfo) : Prop :=
  info.address = addressOf info.key ∧ info.subnet = subnetOf info.key

/-- Records have the address and the subnet of their key, and all maps agree on them. -/
structure State.Linked (k : State) : Prop where
  known : ∀ {key info}, k.keyToInfo key = some info → info.key = key ∧ info.Derived
  addrs : k.addrs.Linked addressOf k.keyToInfo
  subnets : k.subnets.Linked subnetOf k.keyToInfo
  armed : ∀ {info}, .expireInfo info ∈ k.callbacks → info.Derived

theorem State.init_linked (publicKey : KeyArray) : (State.init publicKey).Linked where
  known := by simp [State.init]
  addrs := ⟨by simp [State.init], by simp [State.init]⟩
  subnets := ⟨by simp [State.init], by simp [State.init]⟩
  armed := by simp [State.init, State.callbacks]

section Index

variable {κ : Type} [DecidableEq κ] {derive : KeyArray → κ}
  {keyToInfo : KeyArray → Option KeyInfo} {index : Index κ}

/-- A packet is buffered only where no record is. -/
theorem Index.Linked.fill (inv : index.Linked derive keyToInfo) {slot : κ} (buf : Buffer)
    (absent : index.toInfo slot = none) :
    ({ index with buffer := Function.update index.buffer slot (some buf) } :
      Index κ).Linked derive keyToInfo where
  entry := inv.entry
  unshadowed := by
    intro other found stored
    rcases update_eq_some_iff.mp stored with ⟨rfl, -⟩ | ⟨-, stored⟩
    · exact absent
    · exact inv.unshadowed stored

/-- A record of an unknown key is learnt. -/
theorem Index.Linked.learn (inv : index.Linked derive keyToInfo) {slot : κ} {info : KeyInfo}
    (derived : derive info.key = slot) (unknown : keyToInfo info.key = none) :
    (index.learn slot info).2.Linked derive
      (Function.update keyToInfo info.key (some info)) := by
  rw [Index.learn_eq]
  constructor
  · intro other found stored
    rcases update_eq_some_iff.mp stored with ⟨rfl, same⟩ | ⟨-, stored⟩
    · cases same
      exact ⟨derived, Function.update_self ..⟩
    · obtain ⟨slotEq, known⟩ := inv.entry stored
      refine ⟨slotEq, update_eq_some_iff.mpr (Or.inr ⟨?_, known⟩)⟩
      intro same
      rw [same, unknown] at known
      cases known
  · intro other found stored
    rcases update_eq_some_iff.mp stored with ⟨-, absent⟩ | ⟨different, stored⟩
    · cases absent
    · exact (Function.update_of_ne different ..).trans (inv.unshadowed stored)

/-- Expiry of a record removes it from the index and from the known keys alike. -/
theorem Index.Linked.forget (inv : index.Linked derive keyToInfo) (info : KeyInfo) :
    ({ index with toInfo := forget index.toInfo (derive info.key) info } :
      Index κ).Linked derive (forget keyToInfo info.key info) where
  entry := by
    intro slot found stored
    obtain ⟨stored, kept⟩ := forget_eq_some_iff.mp stored
    obtain ⟨slotEq, known⟩ := inv.entry stored
    refine ⟨slotEq, forget_eq_some_iff.mpr ⟨known, ?_⟩⟩
    rintro ⟨-, rfl⟩
    exact kept ⟨slotEq.symm, rfl⟩
  unshadowed := by
    intro slot buf stored
    rw [Option.eq_none_iff_forall_ne_some]
    intro found kept
    have absent := inv.unshadowed stored
    rw [(forget_eq_some_iff.mp kept).1] at absent
    cases absent

theorem Index.Linked.discard (inv : index.Linked derive keyToInfo) (slot : κ) (buf : Nat) :
    ({ index with buffer := discard index.buffer slot buf } :
      Index κ).Linked derive keyToInfo where
  entry := inv.entry
  unshadowed := fun stored => inv.unshadowed (discard_eq_some_iff.mp stored).1

end Index

theorem State.Linked.resetTimeout {k : State} (inv : k.Linked) {info : KeyInfo}
    (derived : info.Derived) : (k.resetTimeout info).Linked := by
  obtain ⟨timers, timeouts, equal, callbacks⟩ := k.resetTimeout_eq info
  rw [equal]
  refine ⟨inv.known, inv.addrs, inv.subnets, ?_⟩
  intro other member
  rw [State.callbacks, callbacks, List.mem_append, List.mem_singleton] at member
  rcases member with old | new
  · exact inv.armed old
  · cases new
    exact derived

/-- The record of an index entry agrees with its key. -/
theorem State.Linked.entry_derived {κ : Type} {k : State} (inv : k.Linked)
    {derive : KeyArray → κ} {index : Index κ} (linked : index.Linked derive k.keyToInfo)
    {slot : κ} {info : KeyInfo} (stored : index.toInfo slot = some info) : info.Derived :=
  (inv.known (linked.entry stored).2).2

theorem State.Linked.sendToAddress {k : State} (inv : k.Linked) (addr : Address)
    (packet : Packet) : (k.sendToAddress addr packet).Linked := by
  unfold State.sendToAddress
  cases found : k.addrs.toInfo addr with
  | some info =>
      have reset := inv.resetTimeout (inv.entry_derived inv.addrs found)
      exact ⟨reset.known, reset.addrs, reset.subnets, reset.armed⟩
  | none =>
      obtain ⟨buf, timers, fresh, equal, -, callbacks⟩ :=
        k.fill_eq k.addrs .expireAddrBuffer addr packet
      simp only [equal]
      refine ⟨inv.known, inv.addrs.fill buf found, inv.subnets, ?_⟩
      intro info member
      rw [State.callbacks, callbacks, List.mem_append, List.mem_singleton] at member
      exact inv.armed (member.resolve_right (by simp))

theorem State.Linked.sendToSubnet {k : State} (inv : k.Linked) (subnet : Subnet)
    (packet : Packet) : (k.sendToSubnet subnet packet).Linked := by
  unfold State.sendToSubnet
  cases found : k.subnets.toInfo subnet with
  | some info =>
      have reset := inv.resetTimeout (inv.entry_derived inv.subnets found)
      exact ⟨reset.known, reset.addrs, reset.subnets, reset.armed⟩
  | none =>
      obtain ⟨buf, timers, fresh, equal, -, callbacks⟩ :=
        k.fill_eq k.subnets .expireSubnetBuffer subnet packet
      simp only [equal]
      refine ⟨inv.known, inv.addrs, inv.subnets.fill buf found, ?_⟩
      intro info member
      rw [State.callbacks, callbacks, List.mem_append, List.mem_singleton] at member
      exact inv.armed (member.resolve_right (by simp))

theorem State.Linked.writePC {k : State} (inv : k.Linked) (bs : List UInt8) :
    (k.writePC bs).2.Linked := by
  have accepted : ({ k with accepted := k.accepted ++ [bs] } : State).Linked :=
    ⟨inv.known, inv.addrs, inv.subnets, inv.armed⟩
  unfold State.writePC
  cases k.route bs with
  | error err => exact inv
  | ok route =>
      cases route with
      | address addr => exact accepted.sendToAddress addr _
      | subnet subnet => exact accepted.sendToSubnet subnet _

theorem State.Linked.learn {k : State} (inv : k.Linked) {info : KeyInfo}
    (derived : info.Derived) (unknown : k.keyToInfo info.key = none) :
    (k.learn info).Linked := by
  obtain ⟨timers, timeouts, equal, callbacks⟩ := k.learn_eq info
  rw [equal]
  refine ⟨?_, inv.addrs.learn derived.1.symm unknown, inv.subnets.learn derived.2.symm unknown,
    ?_⟩
  · intro key found stored
    rcases update_eq_some_iff.mp stored with ⟨rfl, same⟩ | ⟨-, stored⟩
    · cases same
      exact ⟨rfl, derived⟩
    · exact inv.known stored
  · intro other member
    rw [State.callbacks, callbacks, List.mem_append, List.mem_singleton] at member
    rcases member with old | new
    · exact inv.armed old
    · cases new
      exact derived

theorem State.Linked.expireInfo {k : State} (inv : k.Linked) {info : KeyInfo}
    (derived : info.Derived) : (k.expire (.expireInfo info)).Linked := by
  have addrs := inv.addrs.forget info
  have subnets := inv.subnets.forget info
  rw [← derived.1] at addrs
  rw [← derived.2] at subnets
  exact ⟨fun stored => inv.known (forget_eq_some_iff.mp stored).1, addrs, subnets, inv.armed⟩

/-- Changing the status of a timer keeps its callback. -/
theorem State.Linked.setStatus {k : State} (inv : k.Linked) {timer : Nat}
    {callback : Callback} {before : TimerStatus}
    (found : k.timers[timer]? = some ⟨callback, before⟩) (after : TimerStatus) :
    ({ k with timers := k.timers.set timer ⟨callback, after⟩ } : State).Linked := by
  have unchanged : (k.timers.set timer ⟨callback, after⟩).map Timer.callback =
      k.timers.map Timer.callback := by
    apply List.ext_getElem?
    intro i
    rw [List.getElem?_map, List.getElem?_map, List.getElem?_set]
    by_cases equal : timer = i
    · subst equal
      obtain ⟨bound, entry⟩ := List.getElem?_eq_some_iff.mp found
      simp [bound, entry]
    · simp [equal]
  refine ⟨inv.known, inv.addrs, inv.subnets, ?_⟩
  intro info member
  rw [State.callbacks, unchanged] at member
  exact inv.armed member

theorem State.Linked.update {k : State} (inv : k.Linked) (key : PublicKey) :
    (k.update key).2.Linked := by
  simp only [State.update]
  split
  · rename_i info found
    exact inv.resetTimeout (inv.known found).2
  · rename_i absent
    exact inv.learn ⟨k.newInfo_address _, k.newInfo_subnet _⟩ absent

theorem State.Linked.expire {k : State} (inv : k.Linked) {callback : Callback}
    (member : callback ∈ k.callbacks) : (k.expire callback).Linked := by
  cases callback with
  | expireInfo info => exact inv.expireInfo (inv.armed member)
  | expireAddrBuffer addr buf =>
      exact ⟨inv.known, inv.addrs.discard addr buf, inv.subnets, inv.armed⟩
  | expireSubnetBuffer subnet buf =>
      exact ⟨inv.known, inv.addrs, inv.subnets.discard subnet buf, inv.armed⟩

theorem State.mem_callbacks {k : State} {timer : Nat} {callback : Callback}
    {status : TimerStatus} (found : k.timers[timer]? = some ⟨callback, status⟩) :
    callback ∈ k.callbacks :=
  List.mem_map.mpr ⟨_, List.mem_of_getElem? found, rfl⟩

/-! ## Usable keys -/

/-- Every known key has an entry at its slot. -/
def Index.Covers {κ : Type} (derive : KeyArray → κ) (keyToInfo : KeyArray → Option KeyInfo)
    (index : Index κ) : Prop :=
  ∀ key, (keyToInfo key).isSome → (index.toInfo (derive key)).isSome

/-- The slot of a record that is about to expire is not the slot of another known
key, unless a different record already occupies it. -/
def Index.Unshared {κ : Type} (derive : KeyArray → κ) (keyToInfo : KeyArray → Option KeyInfo)
    (index : Index κ) (info : KeyInfo) : Prop :=
  index.toInfo (derive info.key) = some info →
    ∀ key, (keyToInfo key).isSome → key ≠ info.key → derive key ≠ derive info.key

section Index

variable {κ : Type} [DecidableEq κ] {derive : KeyArray → κ}
  {keyToInfo : KeyArray → Option KeyInfo} {index : Index κ}

theorem Index.Covers.learn (covers : index.Covers derive keyToInfo) {slot : κ} {info : KeyInfo}
    (derived : derive info.key = slot) :
    (index.learn slot info).2.Covers derive
      (Function.update keyToInfo info.key (some info)) := by
  rw [Index.learn_eq]
  subst derived
  intro key known
  by_cases sameSlot : derive key = derive info.key
  · simp [sameSlot]
  · have different : key ≠ info.key := fun same => sameSlot (congrArg derive same)
    rw [Function.update_of_ne different] at known
    simpa [sameSlot] using covers key known

/-- Expiry keeps the index covering exactly when the slot it empties is not
shared. -/
theorem Index.Covers.forget_iff (covers : index.Covers derive keyToInfo)
    (linked : index.Linked derive keyToInfo) (info : KeyInfo) :
    ({ index with toInfo := forget index.toInfo (derive info.key) info } :
      Index κ).Covers derive (forget keyToInfo info.key info) ↔
        index.Unshared derive keyToInfo info := by
  constructor
  · intro after occupied key known different sameSlot
    obtain ⟨record, stored⟩ := Option.isSome_iff_exists.mp known
    have kept : KeyStore.forget keyToInfo info.key info key = some record :=
      forget_eq_some_iff.mpr ⟨stored, fun same => different same.1⟩
    obtain ⟨found, entry⟩ := Option.isSome_iff_exists.mp (after key (by rw [kept]; rfl))
    obtain ⟨entry, notExpired⟩ := forget_eq_some_iff.mp entry
    rw [sameSlot, occupied] at entry
    exact notExpired ⟨sameSlot, (Option.some.inj entry).symm⟩
  · intro unshared key known
    obtain ⟨record, remains⟩ := Option.isSome_iff_exists.mp known
    obtain ⟨stored, notExpired⟩ := forget_eq_some_iff.mp remains
    obtain ⟨found, entry⟩ := Option.isSome_iff_exists.mp (covers key (by rw [stored]; rfl))
    have kept : KeyStore.forget index.toInfo (derive info.key) info (derive key) =
        some found := by
      refine forget_eq_some_iff.mpr ⟨entry, ?_⟩
      rintro ⟨sameSlot, rfl⟩
      by_cases same : key = found.key
      · subst same
        have known := (linked.entry entry).2
        exact notExpired ⟨rfl, Option.some.inj (stored.symm.trans known)⟩
      · exact unshared (sameSlot ▸ entry) key (by rw [stored]; rfl) same sameSlot
    exact Option.isSome_iff_exists.mpr ⟨found, kept⟩

end Index

/-- Every known key can be sent to by its address and by its subnet, and no packet
for either is left in a buffer. -/
def State.Usable (k : State) : Prop :=
  ∀ key, (k.keyToInfo key).isSome →
    ((k.addrs.toInfo (addressOf key)).isSome ∧ (k.subnets.toInfo (subnetOf key)).isSome) ∧
      k.addrs.buffer (addressOf key) = none ∧ k.subnets.buffer (subnetOf key) = none

/-- If the event is the expiry of a record, then neither slot it empties is the
slot of another known key. -/
def State.Unshared (k : State) : Event → Prop
  | .callback timer =>
      ∀ info, k.timers[timer]? = some ⟨.expireInfo info, .started⟩ →
        k.addrs.Unshared addressOf k.keyToInfo info ∧
          k.subnets.Unshared subnetOf k.keyToInfo info
  | _ => True

/-- A covering index has no buffer at the slot of a known key. -/
theorem State.Linked.usable_iff {k : State} (inv : k.Linked) :
    k.Usable ↔
      k.addrs.Covers addressOf k.keyToInfo ∧ k.subnets.Covers subnetOf k.keyToInfo := by
  constructor
  · intro usable
    exact ⟨fun key known => (usable key known).1.1, fun key known => (usable key known).1.2⟩
  · rintro ⟨addrs, subnets⟩ key known
    refine ⟨⟨addrs key known, subnets key known⟩, ?_, ?_⟩
    · rw [Option.eq_none_iff_forall_ne_some]
      intro buf held
      have entry := addrs key known
      rw [inv.addrs.unshadowed held] at entry
      cases entry
    · rw [Option.eq_none_iff_forall_ne_some]
      intro buf held
      have entry := subnets key known
      rw [inv.subnets.unshadowed held] at entry
      cases entry

/-- What decides whether keys are usable. -/
def State.entries (k : State) :
    (KeyArray → Option KeyInfo) × (Address → Option KeyInfo) × (Subnet → Option KeyInfo) :=
  (k.keyToInfo, k.addrs.toInfo, k.subnets.toInfo)

/-- A step that leaves the entries alone leaves every known key usable. -/
theorem State.Usable.of_entries_eq {k target : State} (usable : k.Usable) (linked : k.Linked)
    (targetLinked : target.Linked) (same : target.entries = k.entries) : target.Usable := by
  simp only [State.entries, Prod.mk.injEq] at same
  obtain ⟨keys, addrs, subnets⟩ := same
  rw [targetLinked.usable_iff]
  rw [linked.usable_iff] at usable
  unfold Index.Covers at *
  rw [keys, addrs, subnets]
  exact usable

theorem State.entries_resetTimeout (k : State) (info : KeyInfo) :
    (k.resetTimeout info).entries = k.entries := by
  obtain ⟨timers, timeouts, equal, -⟩ := k.resetTimeout_eq info
  rw [equal]
  rfl

theorem State.entries_sendToAddress (k : State) (addr : Address) (packet : Packet) :
    (k.sendToAddress addr packet).entries = k.entries := by
  unfold State.sendToAddress
  cases k.addrs.toInfo addr with
  | some info => exact k.entries_resetTimeout info
  | none =>
      obtain ⟨buf, timers, fresh, equal, -, -⟩ :=
        k.fill_eq k.addrs .expireAddrBuffer addr packet
      simp only [equal]
      rfl

theorem State.entries_sendToSubnet (k : State) (subnet : Subnet) (packet : Packet) :
    (k.sendToSubnet subnet packet).entries = k.entries := by
  unfold State.sendToSubnet
  cases k.subnets.toInfo subnet with
  | some info => exact k.entries_resetTimeout info
  | none =>
      obtain ⟨buf, timers, fresh, equal, -, -⟩ :=
        k.fill_eq k.subnets .expireSubnetBuffer subnet packet
      simp only [equal]
      rfl

theorem State.entries_writePC (k : State) (bs : List UInt8) :
    (k.writePC bs).2.entries = k.entries := by
  unfold State.writePC
  cases k.route bs with
  | error err => rfl
  | ok route =>
      cases route with
      | address addr => exact State.entries_sendToAddress _ addr _
      | subnet subnet => exact State.entries_sendToSubnet _ subnet _

theorem State.Usable.learn {k : State} (usable : k.Usable) (inv : k.Linked) {info : KeyInfo}
    (derived : info.Derived) (unknown : k.keyToInfo info.key = none) :
    (k.learn info).Usable := by
  rw [inv.usable_iff] at usable
  rw [(inv.learn derived unknown).usable_iff]
  obtain ⟨timers, timeouts, equal, -⟩ := k.learn_eq info
  rw [equal]
  exact ⟨usable.1.learn derived.1.symm, usable.2.learn derived.2.symm⟩

theorem State.Usable.update {k : State} (usable : k.Usable) (inv : k.Linked)
    (key : PublicKey) : (k.update key).2.Usable := by
  simp only [State.update]
  split
  · rename_i info found
    exact usable.of_entries_eq inv (inv.resetTimeout (inv.known found).2)
      (k.entries_resetTimeout info)
  · rename_i absent
    exact usable.learn inv ⟨k.newInfo_address _, k.newInfo_subnet _⟩ absent

theorem State.Usable.expireInfo_iff {k : State} (usable : k.Usable) (inv : k.Linked)
    {info : KeyInfo} (derived : info.Derived) :
    (k.expire (.expireInfo info)).Usable ↔
      k.addrs.Unshared addressOf k.keyToInfo info ∧
        k.subnets.Unshared subnetOf k.keyToInfo info := by
  rw [inv.usable_iff] at usable
  rw [(inv.expireInfo derived).usable_iff, ← usable.1.forget_iff inv.addrs info,
    ← usable.2.forget_iff inv.subnets info, ← derived.1, ← derived.2]
  rfl

/-! ## Runs -/

/-- Every step keeps the structural invariant. -/
theorem State.Linked.next {k target : State} {event : Event} (inv : k.Linked)
    (step : k.next event = some target) : target.Linked := by
  cases State.moves_of_next step with
  | writePC bs => exact inv.writePC bs
  | update => exact inv.update _
  | fire found => exact inv.setStatus found .started
  | callback found =>
      refine (inv.setStatus found .finished).expire ?_
      exact State.mem_callbacks (List.getElem?_set_self (List.getElem?_eq_some_iff.mp found).1)
  | writeTo => exact ⟨inv.known, inv.addrs, inv.subnets, inv.armed⟩

/-- One step keeps every known key usable exactly when it is not the expiry of a
record whose slot another known key shares. -/
theorem State.Usable.next_iff {k target : State} {event : Event} (usable : k.Usable)
    (inv : k.Linked) (step : k.next event = some target) :
    target.Usable ↔ k.Unshared event := by
  have linked := inv.next step
  cases State.moves_of_next step with
  | writePC bs => exact iff_of_true (usable.of_entries_eq inv linked (k.entries_writePC bs)) trivial
  | update => exact iff_of_true (usable.update inv _) trivial
  | fire | writeTo => exact iff_of_true (usable.of_entries_eq inv linked rfl) trivial
  | @callback timer callback found =>
      have finished := inv.setStatus found .finished
      cases callback with
      | expireInfo info =>
          have derived := inv.armed (State.mem_callbacks found)
          refine (State.Usable.expireInfo_iff (usable.of_entries_eq inv finished rfl) finished
            derived).trans ?_
          simp [State.Unshared, found]
      | expireAddrBuffer addr buf =>
          refine iff_of_true (usable.of_entries_eq inv linked rfl) ?_
          simp [State.Unshared, found]
      | expireSubnetBuffer subnet buf =>
          refine iff_of_true (usable.of_entries_eq inv linked rfl) ?_
          simp [State.Unshared, found]

/-- In a run of the store every known key is usable in every state exactly when
no expiry in the run empties a slot that another known key shares. -/
theorem usable_throughout_iff (publicKey : KeyArray) (events : List Event) :
    Throughout State.next State.Usable (State.init publicKey) events ↔
      EveryStep State.next State.Unshared (State.init publicKey) events := by
  refine throughout_iff_everyStep events (State.init_linked publicKey) ?_ ?_ ?_
  · intro key known
    simp [State.init] at known
  · intro k event target inv _ step
    exact inv.next step
  · intro k event target inv usable step
    exact usable.next_iff inv step

/-! ## Losing a known key -/

/-- The first key is learnt, the second takes over the shared slot, the first is
refreshed, and the second expires. -/
def shadowing (first second : KeyArray) : List Event :=
  [.update first.toList, .update second.toList, .update first.toList, .fire 1, .callback 1]

/-- For keys with one address the first key ends up known but without an entry. -/
theorem run_shadowing {first second : KeyArray} (different : first ≠ second)
    (shared : addressOf first = addressOf second) (publicKey : KeyArray) :
    ∃ k, run State.next (State.init publicKey) (shadowing first second) = some k ∧
      (k.keyToInfo first).isSome ∧ k.addrs.toInfo (addressOf first) = none := by
  simp [shadowing, run, State.next, State.init, State.update, copyAt_zero_toList, State.newInfo,
    State.learn, Index.learn_eq, State.resetTimeout, State.stop, State.afterFunc, Timer.stop,
    State.expire, forget, different, different.symm, shared]

/-- A key that differs from `nodeKey` in its last bit and has the same address. -/
def twinKey : KeyArray :=
  nodeKey.set 31 0xfe

theorem addressOf_nodeKey_eq_twinKey : addressOf nodeKey = addressOf twinKey := by
  have node : addrForKey nodeKey.toList = some ((Vector.replicate 16 0).set 0 0x02) := by
    decide +kernel
  have twin : addrForKey twinKey.toList = some ((Vector.replicate 16 0).set 0 0x02) := by
    decide +kernel
  apply Option.some.inj
  rw [← addrForKey_eq_addressOf, ← addrForKey_eq_addressOf, node, twin]

theorem twinKey_shadows_nodeKey :
    ∃ k, run State.next (State.init peerKey) (shadowing nodeKey twinKey) = some k ∧
      (k.keyToInfo nodeKey).isSome ∧ k.addrs.toInfo (addressOf nodeKey) = none ∧
      ¬ k.Usable := by
  obtain ⟨k, ended, known, lost⟩ :=
    run_shadowing (by decide) addressOf_nodeKey_eq_twinKey peerKey
  refine ⟨k, ended, known, lost, fun usable => ?_⟩
  have entry := (usable nodeKey known).1.1
  rw [lost] at entry
  cases entry

end Uqda.KeyStore
