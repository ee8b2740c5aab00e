import Uqda.KeyStore.Core
import Uqda.Store.Table
import Mathlib.Data.List.Perm.Basic

/-!
# Delivery by the key store

Every packet the store hands to `core.WriteTo` goes to a key that owns the
packet's destination, and no accepted packet is handed over twice.

The invariant says where accepted packets can be.  A packet waiting in a buffer
is destined for the slot that holds it and has not been written; a packet that
is pending or issued was written once, to a key whose derived address or subnet
is its destination.  An accepted packet's number determines its bytes and hence
its slot, so no two buffers hold the same packet.
-/

namespace Uqda.KeyStore

open Uqda.Addressing Uqda.Transition Uqda.Store

/-! ## Frame lemmas -/

/-- The callbacks of all timers ever made. -/
def State.callbacks (k : State) : List Callback :=
  k.timers.map Timer.callback

theorem Timer.stop_callback (timer : Timer) : timer.stop.callback = timer.callback := by
  unfold Timer.stop
  split <;> rfl

theorem map_callback_modify_stop (timers : List Timer) (timer : Nat) :
    (timers.modify timer Timer.stop).map Timer.callback = timers.map Timer.callback := by
  apply List.ext_getElem?
  intro i
  rw [List.getElem?_map, List.getElem?_map, List.getElem?_modify]
  cases timers[i]? with
  | none => rfl
  | some found =>
      by_cases equal : timer = i
      · simp [equal, Timer.stop_callback]
      · simp [equal]

/-- Stopping a timer changes nothing but its status. -/
theorem State.stop_eq (k : State) (timer : Option Nat) :
    ∃ timers, k.stop timer = { k with timers := timers } ∧
      timers.map Timer.callback = k.callbacks := by
  cases timer with
  | none => exact ⟨k.timers, rfl, rfl⟩
  | some timer => exact ⟨_, rfl, map_callback_modify_stop k.timers timer⟩

/-- Restarting a record's timer touches the timers only and arms one expiry of
that record. -/
theorem State.resetTimeout_eq (k : State) (info : KeyInfo) :
    ∃ timers timeouts,
      k.resetTimeout info = { k with timers := timers, infoTimeout := timeouts } ∧
        timers.map Timer.callback = k.callbacks ++ [.expireInfo info] := by
  obtain ⟨timers, stopped, kept⟩ := k.stop_eq (k.infoTimeout info.id)
  refine ⟨timers ++ [⟨.expireInfo info, .armed⟩],
    Function.update k.infoTimeout info.id (some timers.length), ?_, by simp [kept]⟩
  rw [State.resetTimeout, stopped]
  rfl

/-- Filling a buffer touches that slot, the timers and the allocation counter. -/
theorem State.fill_eq {κ : Type} [DecidableEq κ] (k : State) (index : Index κ)
    (expire : κ → Nat → Callback) (slot : κ) (packet : Packet) :
    ∃ buf timers fresh,
      k.fill index expire slot packet =
          ({ index with buffer := Function.update index.buffer slot (some buf) },
            { k with timers := timers, nextBuffer := fresh }) ∧
        buf.packet = packet ∧
        timers.map Timer.callback = k.callbacks ++ [expire slot buf.id] := by
  unfold State.fill
  split
  · rename_i buf _
    obtain ⟨timers, stopped, kept⟩ := k.stop_eq (some buf.timeout)
    refine ⟨⟨buf.id, packet, timers.length⟩, timers ++ [⟨expire slot buf.id, .armed⟩],
      k.nextBuffer, ?_, rfl, by simp [kept]⟩
    rw [stopped]
    rfl
  · exact ⟨⟨k.nextBuffer, packet, k.timers.length⟩,
      k.timers ++ [⟨expire slot k.nextBuffer, .armed⟩], k.nextBuffer + 1, rfl, rfl,
      by simp [State.callbacks]⟩

section Index

variable {κ : Type} [DecidableEq κ]

/-- Learning a record stores it, empties the buffer at its slot and returns
the packet that was waiting there. -/
theorem Index.learn_eq (index : Index κ) (slot : κ) (info : KeyInfo) :
    index.learn slot info =
      ((index.buffer slot).toList.map Buffer.packet,
        ⟨Function.update index.toInfo slot (some info),
          Function.update index.buffer slot none⟩) := by
  unfold Index.learn
  cases held : index.buffer slot with
  | none =>
      have unchanged : Function.update index.buffer slot none = index.buffer :=
        Function.update_eq_self_iff.mpr held.symm
      simp [held, unchanged]
  | some buf => simp [held]

theorem forget_eq_some_iff {toInfo : κ → Option KeyInfo} {slot other : κ}
    {info found : KeyInfo} :
    forget toInfo slot info other = some found ↔
      toInfo other = some found ∧ ¬ (other = slot ∧ found = info) := by
  unfold forget
  split
  · rename_i present
    rw [update_eq_some_iff]
    constructor
    · rintro (⟨-, absent⟩ | ⟨different, stored⟩)
      · cases absent
      · exact ⟨stored, fun same => different same.1⟩
    · rintro ⟨stored, kept⟩
      refine Or.inr ⟨?_, stored⟩
      rintro rfl
      exact kept ⟨rfl, Option.some.inj (stored.symm.trans present)⟩
  · rename_i absent
    constructor
    · intro stored
      refine ⟨stored, ?_⟩
      rintro ⟨rfl, rfl⟩
      exact absent stored
    · exact And.left

theorem discard_eq_some_iff {buffer : κ → Option Buffer} {slot other : κ} {buf : Nat}
    {found : Buffer} :
    discard buffer slot buf other = some found ↔
      buffer other = some found ∧ ¬ (other = slot ∧ found.id = buf) := by
  unfold discard
  split
  · rename_i present
    obtain ⟨held, stored, identity⟩ := Option.map_eq_some_iff.mp present
    rw [update_eq_some_iff]
    constructor
    · rintro (⟨-, absent⟩ | ⟨different, kept⟩)
      · cases absent
      · exact ⟨kept, fun same => different same.1⟩
    · rintro ⟨kept, other⟩
      refine Or.inr ⟨?_, kept⟩
      rintro rfl
      have same := Option.some.inj (kept.symm.trans stored)
      exact other ⟨rfl, same ▸ identity⟩
  · rename_i absent
    constructor
    · intro stored
      refine ⟨stored, ?_⟩
      rintro ⟨rfl, identity⟩
      exact absent (by rw [stored, Option.map_some, identity])
    · exact And.left

end Index

/-- What learning a record does to the whole store. -/
theorem State.learn_eq (k : State) (info : KeyInfo) :
    ∃ timers timeouts,
      k.learn info =
          { k with
            timers := timers
            infoTimeout := timeouts
            nextInfo := k.nextInfo + 1
            keyToInfo := Function.update k.keyToInfo info.key (some info)
            addrs := (k.addrs.learn info.address info).2
            subnets := (k.subnets.learn info.subnet info).2
            pending := k.pending ++ ((k.addrs.learn info.address info).1 ++
              (k.subnets.learn info.subnet info).1).map (⟨·, info.key⟩) } ∧
        timers.map Timer.callback = k.callbacks ++ [.expireInfo info] := by
  obtain ⟨timers, timeouts, equal, armed⟩ := State.resetTimeout_eq ({ k with
    nextInfo := k.nextInfo + 1
    keyToInfo := Function.update k.keyToInfo info.key (some info)
    addrs := (k.addrs.learn info.address info).2
    subnets := (k.subnets.learn info.subnet info).2 } : State) info
  refine ⟨timers, timeouts, ?_, armed⟩
  simp only [State.learn, equal]

/-! ## The invariant -/

/-- The writes made or still to be made. -/
def State.written (k : State) : List Write :=
  k.pending ++ k.issued

/-- The key of a write owns the destination of its packet. -/
def Write.Delivered (write : Write) : Prop :=
  destination write.packet.bytes = some (.address (addressOf write.key)) ∨
    destination write.packet.bytes = some (.subnet (subnetOf write.key))

/-- A packet waits for the owner of `route` and has not been written. -/
structure Waiting (accepted : List (List UInt8)) (written : List Write) (route : Route)
    (packet : Packet) : Prop where
  accepted_bytes : accepted[packet.serial]? = some packet.bytes
  destined : destination packet.bytes = some route
  unwritten : ∀ write ∈ written, write.packet.serial ≠ packet.serial

/-- The records of an index sit at the slot derived from their key, and its
buffered packets wait for the owner of their slot. -/
structure Index.Consistent {κ : Type} (derive : KeyArray → κ) (route : κ → Route)
    (accepted : List (List UInt8)) (written : List Write) (index : Index κ) : Prop where
  owner : ∀ {slot info}, index.toInfo slot = some info → derive info.key = slot
  waiting : ∀ {slot buf}, index.buffer slot = some buf →
    Waiting accepted written (route slot) buf.packet

/-- The delivery invariant of the store. -/
structure State.Consistent (k : State) : Prop where
  addrs : k.addrs.Consistent addressOf .address k.accepted k.written
  subnets : k.subnets.Consistent subnetOf .subnet k.accepted k.written
  accepted_bytes : ∀ write ∈ k.written,
    k.accepted[write.packet.serial]? = some write.packet.bytes
  delivered : ∀ write ∈ k.written, write.Delivered
  once : (k.written.map fun write => write.packet.serial).Nodup

theorem State.init_consistent (publicKey : KeyArray) : (State.init publicKey).Consistent where
  addrs := ⟨by simp [State.init], by simp [State.init]⟩
  subnets := ⟨by simp [State.init], by simp [State.init]⟩
  accepted_bytes := fun _ member => nomatch member
  delivered := fun _ member => nomatch member
  once := List.nodup_nil

/-! ## Index operations -/

section Index

variable {κ : Type} [DecidableEq κ] {derive : KeyArray → κ} {route : κ → Route}
  {accepted : List (List UInt8)} {written : List Write} {index : Index κ}

omit [DecidableEq κ] in
/-- Accepting a further packet keeps what is known about the earlier ones. -/
theorem Waiting.accept {slot : Route} {packet : Packet}
    (waits : Waiting accepted written slot packet) (bs : List UInt8) :
    Waiting (accepted ++ [bs]) written slot packet where
  accepted_bytes := by
    have earlier := (List.getElem?_eq_some_iff.mp waits.accepted_bytes).1
    rw [List.getElem?_append_left earlier]
    exact waits.accepted_bytes
  destined := waits.destined
  unwritten := waits.unwritten

omit [DecidableEq κ] in
theorem Index.Consistent.accept (inv : index.Consistent derive route accepted written)
    (bs : List UInt8) : index.Consistent derive route (accepted ++ [bs]) written where
  owner := inv.owner
  waiting := fun stored => (inv.waiting stored).accept bs

omit [DecidableEq κ] in
/-- Writes of packets that wait nowhere in the index leave it consistent. -/
theorem Index.Consistent.write (inv : index.Consistent derive route accepted written)
    {more : List Write}
    (elsewhere : ∀ write ∈ more, write ∈ written ∨
      ∀ slot buf, index.buffer slot = some buf → write.packet.serial ≠ buf.packet.serial) :
    index.Consistent derive route accepted more where
  owner := inv.owner
  waiting := by
    intro slot buf stored
    have waits := inv.waiting stored
    refine ⟨waits.accepted_bytes, waits.destined, ?_⟩
    intro write member
    rcases elsewhere write member with earlier | other
    · exact waits.unwritten write earlier
    · exact other slot buf stored

/-- Filling a slot with a packet that waits for its owner. -/
theorem Index.Consistent.fill (inv : index.Consistent derive route accepted written)
    {slot : κ} {buf : Buffer} (waits : Waiting accepted written (route slot) buf.packet) :
    ({ index with buffer := Function.update index.buffer slot (some buf) } :
      Index κ).Consistent derive route accepted written where
  owner := inv.owner
  waiting := by
    intro other found stored
    rcases update_eq_some_iff.mp stored with ⟨rfl, same⟩ | ⟨-, stored⟩
    · exact Option.some.inj same ▸ waits
    · exact inv.waiting stored

/-- A new record enters at the slot derived from its key. -/
theorem Index.Consistent.learn (inv : index.Consistent derive route accepted written)
    {slot : κ} {info : KeyInfo} (derived : derive info.key = slot) :
    (index.learn slot info).2.Consistent derive route accepted written := by
  rw [Index.learn_eq]
  constructor
  · intro other found stored
    rcases update_eq_some_iff.mp stored with ⟨rfl, same⟩ | ⟨-, stored⟩
    · exact Option.some.inj same ▸ derived
    · exact inv.owner stored
  · intro other found stored
    rcases update_eq_some_iff.mp stored with ⟨-, absent⟩ | ⟨-, stored⟩
    · cases absent
    · exact inv.waiting stored

theorem Index.Consistent.forget (inv : index.Consistent derive route accepted written)
    (slot : κ) (info : KeyInfo) :
    ({ index with toInfo := forget index.toInfo slot info } :
      Index κ).Consistent derive route accepted written where
  owner := fun stored => inv.owner (forget_eq_some_iff.mp stored).1
  waiting := inv.waiting

theorem Index.Consistent.discard (inv : index.Consistent derive route accepted written)
    (slot : κ) (buf : Nat) :
    ({ index with buffer := discard index.buffer slot buf } :
      Index κ).Consistent derive route accepted written where
  owner := inv.owner
  waiting := fun stored => inv.waiting (discard_eq_some_iff.mp stored).1

end Index

/-! ## Sections of the store -/

/-- The number of an accepted packet determines its route. -/
theorem Waiting.route_eq {accepted : List (List UInt8)} {written : List Write}
    {left right : Route} {first second : Packet}
    (firstWaits : Waiting accepted written left first)
    (secondWaits : Waiting accepted written right second)
    (same : first.serial = second.serial) : left = right := by
  have bytes : first.bytes = second.bytes := by
    have stored := firstWaits.accepted_bytes
    rw [same, secondWaits.accepted_bytes, Option.some.injEq] at stored
    exact stored.symm
  have routed := firstWaits.destined
  rw [bytes, secondWaits.destined, Option.some.injEq] at routed
  exact routed.symm

/-- A packet on its way through the store: accepted, destined for `route`, and
neither written nor buffered. -/
structure State.Carries (k : State) (route : Route) (packet : Packet) : Prop where
  waits : Waiting k.accepted k.written route packet
  notInAddrs : ∀ slot buf, k.addrs.buffer slot = some buf →
    packet.serial ≠ buf.packet.serial
  notInSubnets : ∀ slot buf, k.subnets.buffer slot = some buf →
    packet.serial ≠ buf.packet.serial

theorem State.Consistent.accept {k : State} (inv : k.Consistent) (bs : List UInt8) :
    ({ k with accepted := k.accepted ++ [bs] } : State).Consistent where
  addrs := inv.addrs.accept bs
  subnets := inv.subnets.accept bs
  accepted_bytes := by
    intro write member
    have stored := inv.accepted_bytes write member
    have earlier := (List.getElem?_eq_some_iff.mp stored).1
    exact (List.getElem?_append_left earlier).trans stored
  delivered := inv.delivered
  once := inv.once

/-- A packet that has just been accepted is nowhere else. -/
theorem State.Consistent.carries {k : State} (inv : k.Consistent) {bs : List UInt8}
    {route : Route} (routed : destination bs = some route) :
    ({ k with accepted := k.accepted ++ [bs] } : State).Carries route
      ⟨k.accepted.length, bs⟩ := by
  have older : ∀ {serial : Nat} {bytes : List UInt8},
      k.accepted[serial]? = some bytes → serial < k.accepted.length :=
    fun stored => (List.getElem?_eq_some_iff.mp stored).1
  refine ⟨⟨by simp, routed, ?_⟩, ?_, ?_⟩
  · intro write member
    exact Nat.ne_of_lt (older (inv.accepted_bytes write member))
  · intro slot buf stored
    exact Nat.ne_of_gt (older (inv.addrs.waiting stored).accepted_bytes)
  · intro slot buf stored
    exact Nat.ne_of_gt (older (inv.subnets.waiting stored).accepted_bytes)

/-- Timers carry no packets. -/
theorem State.Consistent.resetTimeout {k : State} (inv : k.Consistent) (info : KeyInfo) :
    (k.resetTimeout info).Consistent := by
  obtain ⟨timers, timeouts, equal, -⟩ := k.resetTimeout_eq info
  rw [equal]
  exact ⟨inv.addrs, inv.subnets, inv.accepted_bytes, inv.delivered, inv.once⟩

/-- Handing carried packets with different numbers to their owner. -/
theorem State.Consistent.push {k : State} (inv : k.Consistent) {writes : List Write}
    (carried : ∀ write ∈ writes, ∃ route, k.Carries route write.packet)
    (delivered : ∀ write ∈ writes, write.Delivered)
    (once : (writes.map fun write => write.packet.serial).Nodup) :
    ({ k with pending := k.pending ++ writes } : State).Consistent := by
  have members : ∀ write, write ∈ (k.pending ++ writes) ++ k.issued →
      write ∈ k.written ∨ write ∈ writes := by
    intro write member
    simp only [State.written, List.mem_append] at member ⊢
    tauto
  constructor
  · refine inv.addrs.write ?_
    intro write member
    refine (members write member).imp_right fun new => ?_
    obtain ⟨route, carries⟩ := carried write new
    exact carries.notInAddrs
  · refine inv.subnets.write ?_
    intro write member
    refine (members write member).imp_right fun new => ?_
    obtain ⟨route, carries⟩ := carried write new
    exact carries.notInSubnets
  · intro write member
    rcases members write member with old | new
    · exact inv.accepted_bytes write old
    · obtain ⟨route, carries⟩ := carried write new
      exact carries.waits.accepted_bytes
  · intro write member
    exact (members write member).elim (inv.delivered write) (delivered write)
  · have reordered : ((k.pending ++ writes) ++ k.issued).Perm (writes ++ k.written) := by
      rw [State.written, ← List.append_assoc]
      exact (List.perm_append_comm).append_right _
    refine ((reordered.map _).nodup_iff).mpr ?_
    rw [List.map_append, List.nodup_append]
    refine ⟨once, inv.once, ?_⟩
    intro number new other old same
    obtain ⟨write, member, rfl⟩ := List.mem_map.mp new
    obtain ⟨earlier, earlierMember, rfl⟩ := List.mem_map.mp old
    obtain ⟨route, carries⟩ := carried write member
    exact carries.waits.unwritten earlier earlierMember same.symm

theorem State.Consistent.sendToAddress {k : State} (inv : k.Consistent) {addr : Address}
    {packet : Packet} (carries : k.Carries (.address addr) packet) :
    (k.sendToAddress addr packet).Consistent := by
  unfold State.sendToAddress
  cases found : k.addrs.toInfo addr with
  | some info =>
      obtain ⟨timers, timeouts, equal, -⟩ := k.resetTimeout_eq info
      have owner := inv.addrs.owner found
      have reset := inv.resetTimeout info
      simp only [equal] at reset ⊢
      refine reset.push ?_ ?_ (by simp)
      · intro write member
        rw [List.mem_singleton] at member
        subst member
        exact ⟨_, carries.waits, carries.notInAddrs, carries.notInSubnets⟩
      · intro write member
        rw [List.mem_singleton] at member
        subst member
        exact Or.inl (owner.symm ▸ carries.waits.destined)
  | none =>
      obtain ⟨buf, timers, fresh, equal, held, -⟩ :=
        k.fill_eq k.addrs .expireAddrBuffer addr packet
      simp only [equal]
      exact ⟨inv.addrs.fill (held ▸ carries.waits), inv.subnets, inv.accepted_bytes,
        inv.delivered, inv.once⟩

theorem State.Consistent.sendToSubnet {k : State} (inv : k.Consistent) {subnet : Subnet}
    {packet : Packet} (carries : k.Carries (.subnet subnet) packet) :
    (k.sendToSubnet subnet packet).Consistent := by
  unfold State.sendToSubnet
  cases found : k.subnets.toInfo subnet with
  | some info =>
      obtain ⟨timers, timeouts, equal, -⟩ := k.resetTimeout_eq info
      have owner := inv.subnets.owner found
      have reset := inv.resetTimeout info
      simp only [equal] at reset ⊢
      refine reset.push ?_ ?_ (by simp)
      · intro write member
        rw [List.mem_singleton] at member
        subst member
        exact ⟨_, carries.waits, carries.notInAddrs, carries.notInSubnets⟩
      · intro write member
        rw [List.mem_singleton] at member
        subst member
        exact Or.inr (owner.symm ▸ carries.waits.destined)
  | none =>
      obtain ⟨buf, timers, fresh, equal, held, -⟩ :=
        k.fill_eq k.subnets .expireSubnetBuffer subnet packet
      simp only [equal]
      exact ⟨inv.addrs, inv.subnets.fill (held ▸ carries.waits), inv.accepted_bytes,
        inv.delivered, inv.once⟩

/-- A packet is accepted only with the route of its destination. -/
theorem State.route_eq_ok {k : State} {bs : List UInt8} {route : Route}
    (accepted : k.route bs = .ok route) : destination bs = some route := by
  unfold State.route at accepted
  split at accepted
  · cases accepted
  · split at accepted
    · cases accepted
    · split at accepted
      · cases accepted
      · split at accepted
        · cases accepted
        · split at accepted
          · rename_i routed
            rw [routed]
            exact congrArg some (Except.ok.inj accepted)
          · cases accepted

theorem State.Consistent.writePC {k : State} (inv : k.Consistent) (bs : List UInt8) :
    (k.writePC bs).2.Consistent := by
  unfold State.writePC
  cases accepted : k.route bs with
  | error err => exact inv
  | ok route =>
      have routed := State.route_eq_ok accepted
      cases route with
      | address addr => exact (inv.accept bs).sendToAddress (inv.carries routed)
      | subnet subnet => exact (inv.accept bs).sendToSubnet (inv.carries routed)

/-- The packets flushed by learning a record are those waiting at its slot. -/
theorem Index.Consistent.flushed {κ : Type} [DecidableEq κ] {derive : KeyArray → κ}
    {route : κ → Route} {accepted : List (List UInt8)} {written : List Write}
    {index : Index κ} (inv : index.Consistent derive route accepted written) {slot : κ}
    {info : KeyInfo} {packet : Packet} (flushed : packet ∈ (index.learn slot info).1) :
    Waiting accepted written (route slot) packet := by
  rw [Index.learn_eq] at flushed
  obtain ⟨buf, held, rfl⟩ := List.mem_map.mp flushed
  exact inv.waiting (Option.mem_toList.mp held)

/-- A packet flushed from one index is left in no buffer of an index whose
remaining slots have other routes. -/
theorem Index.Consistent.notLeft {κ : Type} [DecidableEq κ] {derive : KeyArray → κ}
    {route : κ → Route} {accepted : List (List UInt8)} {written : List Write}
    {index : Index κ} (inv : index.Consistent derive route accepted written) {learnt : κ}
    {info : KeyInfo} {flushedRoute : Route} {packet : Packet}
    (waits : Waiting accepted written flushedRoute packet)
    (others : ∀ slot, flushedRoute = route slot → slot = learnt) (slot : κ) (buf : Buffer)
    (stored : (index.learn learnt info).2.buffer slot = some buf) :
    packet.serial ≠ buf.packet.serial := by
  rw [Index.learn_eq] at stored
  rcases update_eq_some_iff.mp stored with ⟨-, absent⟩ | ⟨different, stored⟩
  · cases absent
  · intro same
    exact different (others slot (waits.route_eq (inv.waiting stored) same))

theorem nodup_flushed {κ : Type} [DecidableEq κ] (index : Index κ) (slot : κ) (info : KeyInfo) :
    ((index.learn slot info).1.map Packet.serial).Nodup := by
  rw [Index.learn_eq]
  cases index.buffer slot <;> simp

/-- A record that agrees with its key is learnt without losing track of the
packets that were waiting for it. -/
theorem State.Consistent.learn {k : State} (inv : k.Consistent) {info : KeyInfo}
    (address : addressOf info.key = info.address) (subnet : subnetOf info.key = info.subnet) :
    (k.learn info).Consistent := by
  obtain ⟨timers, timeouts, equal, -⟩ := k.learn_eq info
  rw [equal]
  have learnt : ({ k with
      timers := timers
      infoTimeout := timeouts
      nextInfo := k.nextInfo + 1
      keyToInfo := Function.update k.keyToInfo info.key (some info)
      addrs := (k.addrs.learn info.address info).2
      subnets := (k.subnets.learn info.subnet info).2 } : State).Consistent :=
    ⟨inv.addrs.learn address, inv.subnets.learn subnet, inv.accepted_bytes, inv.delivered,
      inv.once⟩
  have flushedRoute : ∀ packet ∈ (k.addrs.learn info.address info).1 ++
      (k.subnets.learn info.subnet info).1,
      Waiting k.accepted k.written (.address info.address) packet ∨
        Waiting k.accepted k.written (.subnet info.subnet) packet := by
    intro packet member
    exact (List.mem_append.mp member).imp inv.addrs.flushed inv.subnets.flushed
  refine learnt.push ?_ ?_ ?_
  · intro write member
    obtain ⟨packet, flushed, rfl⟩ := List.mem_map.mp member
    rcases flushedRoute packet flushed with waits | waits
    · exact ⟨_, waits, inv.addrs.notLeft waits (by simp +contextual),
        inv.subnets.notLeft waits (by simp)⟩
    · exact ⟨_, waits, inv.addrs.notLeft waits (by simp),
        inv.subnets.notLeft waits (by simp +contextual)⟩
  · intro write member
    obtain ⟨packet, flushed, rfl⟩ := List.mem_map.mp member
    rcases flushedRoute packet flushed with waits | waits
    · exact Or.inl (address ▸ waits.destined)
    · exact Or.inr (subnet ▸ waits.destined)
  · rw [List.map_map]
    change (((k.addrs.learn info.address info).1 ++
      (k.subnets.learn info.subnet info).1).map Packet.serial).Nodup
    rw [List.map_append, List.nodup_append]
    refine ⟨nodup_flushed _ _ _, nodup_flushed _ _ _, ?_⟩
    intro number fromAddrs other fromSubnets same
    obtain ⟨first, firstFlushed, rfl⟩ := List.mem_map.mp fromAddrs
    obtain ⟨second, secondFlushed, rfl⟩ := List.mem_map.mp fromSubnets
    have routes := (inv.addrs.flushed firstFlushed).route_eq
      (inv.subnets.flushed secondFlushed) same
    cases routes

theorem State.newInfo_address (k : State) (kArray : KeyArray) :
    (k.newInfo kArray).address = addressOf (k.newInfo kArray).key := by
  simp only [State.newInfo]

theorem State.newInfo_subnet (k : State) (kArray : KeyArray) :
    (k.newInfo kArray).subnet = subnetOf (k.newInfo kArray).key := by
  simp only [State.newInfo]

theorem State.Consistent.update {k : State} (inv : k.Consistent) (key : PublicKey) :
    (k.update key).2.Consistent := by
  simp only [State.update]
  split
  · exact inv.resetTimeout _
  · exact inv.learn (k.newInfo_address _).symm (k.newInfo_subnet _).symm

theorem State.Consistent.expire {k : State} (inv : k.Consistent) (callback : Callback) :
    (k.expire callback).Consistent := by
  cases callback with
  | expireInfo info =>
      exact ⟨inv.addrs.forget info.address info, inv.subnets.forget info.subnet info,
        inv.accepted_bytes, inv.delivered, inv.once⟩
  | expireAddrBuffer addr buf =>
      exact ⟨inv.addrs.discard addr buf, inv.subnets, inv.accepted_bytes, inv.delivered,
        inv.once⟩
  | expireSubnetBuffer subnet buf =>
      exact ⟨inv.addrs, inv.subnets.discard subnet buf, inv.accepted_bytes, inv.delivered,
        inv.once⟩

theorem State.Consistent.timers {k : State} (inv : k.Consistent) (timers : List Timer) :
    ({ k with timers := timers } : State).Consistent :=
  ⟨inv.addrs, inv.subnets, inv.accepted_bytes, inv.delivered, inv.once⟩

/-- Making a pending write moves it and keeps the set of writes. -/
theorem State.Consistent.writeTo {k : State} (inv : k.Consistent) {write : Nat} {made : Write}
    (pending : k.pending[write]? = some made) :
    ({ k with
      pending := k.pending.eraseIdx write
      issued := k.issued ++ [made] } : State).Consistent := by
  obtain ⟨bound, found⟩ := List.getElem?_eq_some_iff.mp pending
  have taken : k.pending.Perm (made :: k.pending.eraseIdx write) :=
    found ▸ (List.getElem_cons_eraseIdx_perm bound).symm
  have moved : k.written.Perm (k.pending.eraseIdx write ++ (k.issued ++ [made])) := by
    rw [← List.append_assoc]
    exact (taken.append_right k.issued).trans (List.perm_append_singleton _ _).symm
  exact
    { addrs := inv.addrs.write fun write member => Or.inl (moved.mem_iff.mpr member)
      subnets := inv.subnets.write fun write member => Or.inl (moved.mem_iff.mpr member)
      accepted_bytes := fun write member =>
        inv.accepted_bytes write (moved.mem_iff.mpr member)
      delivered := fun write member => inv.delivered write (moved.mem_iff.mpr member)
      once := (moved.map _).nodup_iff.mp inv.once }

/-- Every step keeps the delivery invariant. -/
theorem State.Consistent.next {k target : State} {event : Event} (inv : k.Consistent)
    (step : k.next event = some target) : target.Consistent := by
  cases State.moves_of_next step with
  | writePC bs => exact inv.writePC bs
  | update => exact inv.update _
  | fire => exact inv.timers _
  | callback => exact (inv.timers _).expire _
  | writeTo pending => exact inv.writeTo pending

/-! ## Delivery along every run -/

theorem addrForKey_eq_addressOf (key : KeyArray) :
    addrForKey key.toList = some (addressOf key) :=
  (Option.some_get _).symm

theorem subnetForKey_eq_subnetOf (key : KeyArray) :
    subnetForKey key.toList = some (subnetOf key) :=
  (Option.some_get _).symm

/-- No destination is both a valid address and a valid subnet. -/
theorem isValid_exclusive {bs : List UInt8}
    (subnet : Subnet.isValid (subnetAt bs 24) = true) :
    Address.isValid (addressAt bs 24) = false := by
  have shared : (addressAt bs 24)[0] = (subnetAt bs 24)[0] := by
    simp [addressAt, subnetAt, copyAt]
  have marked : (0x02 ||| 0x01 : UInt8) = 0x03 := rfl
  have first : (subnetAt bs 24)[0] = 0x03 := by
    simpa [Subnet.isValid, getPrefix, marked] using subnet
  simp [Address.isValid, getPrefix, shared, first]

/-- In every run of the store, each `core.WriteTo(p, k)` is made for a packet
that `writePC` accepted, to a key that owns its destination: the key's address
is the destination if that is a valid address, and the key's subnet is the first
half of the destination if that is a valid subnet.  No accepted packet is written
twice. -/
theorem issued_delivered_once (publicKey : KeyArray) (events : List Event) (k : State)
    (reached : run State.next (State.init publicKey) events = some k) :
    (∀ write ∈ k.issued,
      k.accepted[write.packet.serial]? = some write.packet.bytes ∧
      (Address.isValid (addressAt write.packet.bytes 24) = true →
        addrForKey write.key.toList = some (addressAt write.packet.bytes 24)) ∧
      (Subnet.isValid (subnetAt write.packet.bytes 24) = true →
        subnetForKey write.key.toList = some (subnetAt write.packet.bytes 24))) ∧
    (k.issued.map fun write => write.packet.serial).Nodup := by
  have inv : k.Consistent :=
    invariant_of_run reached (State.init_consistent publicKey) State.Consistent.next
  constructor
  · intro write member
    have made : write ∈ k.written := List.mem_append_right _ member
    refine ⟨inv.accepted_bytes write made, ?_, ?_⟩
    · intro valid
      have routed : destination write.packet.bytes =
          some (.address (addressAt write.packet.bytes 24)) := by
        simp [destination, valid]
      rcases inv.delivered write made with delivered | delivered <;>
        rw [routed, Option.some.injEq] at delivered
      · rw [addrForKey_eq_addressOf, Route.address.inj delivered]
      · cases delivered
    · intro valid
      have routed : destination write.packet.bytes =
          some (.subnet (subnetAt write.packet.bytes 24)) := by
        simp [destination, valid, isValid_exclusive valid]
      rcases inv.delivered write made with delivered | delivered <;>
        rw [routed, Option.some.injEq] at delivered
      · cases delivered
      · rw [subnetForKey_eq_subnetOf, Route.subnet.inj delivered]
  · have once := inv.once
    rw [State.written, List.map_append] at once
    exact (List.nodup_append.mp once).2.1

/-- A node whose address is `200::`. -/
def nodeKey : KeyArray :=
  Vector.replicate 32 0xff

/-- A peer whose address ends in fourteen bytes `0xff`. -/
def peerKey : KeyArray :=
  (Vector.replicate 32 0).set 0 0x80

/-- An IPv6 header from the node's address to the peer's. -/
def packetToPeer : List UInt8 :=
  0x60 :: List.replicate 7 0 ++ (0x02 :: List.replicate 15 0) ++
    (0x02 :: 0x00 :: List.replicate 14 0xff)

/-- The packet waits in a buffer until the peer's key is learnt, and is then
written to that key. -/
theorem issued_delivered_once_buffered :
    ∃ k, run State.next (State.init nodeKey)
        [.writePC packetToPeer, .update peerKey.toList, .writeTo 0] = some k ∧
      k.issued = [⟨⟨0, packetToPeer⟩, peerKey⟩] ∧
      addrForKey peerKey.toList = some (addressAt packetToPeer 24) := by
  have computed : (run State.next (State.init nodeKey)
      [.writePC packetToPeer, .update peerKey.toList, .writeTo 0]).map State.issued =
        some [⟨⟨0, packetToPeer⟩, peerKey⟩] := by
    decide +kernel
  obtain ⟨k, reached, issued⟩ := Option.map_eq_some_iff.mp computed
  have made : ⟨⟨0, packetToPeer⟩, peerKey⟩ ∈ k.issued := by simp [issued]
  have delivered := (issued_delivered_once nodeKey _ k reached).1 _ made
  exact ⟨k, reached, issued, delivered.2.1 (by decide +kernel)⟩

end Uqda.KeyStore
