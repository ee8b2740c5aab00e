import Uqda.Addressing.Derivation
import Uqda.Transition.Core

/-!
# The IPv6 key store

The embedding of `keyStore` in `src/ipv6rwc/ipv6rwc.go`: which public key a
destination address or subnet belongs to, and the one-slot buffers that hold a
packet while its key is looked up.

One event is one section under the store's mutex, or one action outside it: the
start of a timer's callback, or a `core.WriteTo` call that a goroutine makes
after it has released the mutex.  The indexes by address and by subnet have the
same operations, which are stated once for an arbitrary index type.

A record or a buffer is a pointer in the source.  Here it carries the number of
its allocation, so that equal values are the same object.  The `timeout` field
of a record is mutable and shared, so it is kept beside the maps.
-/

namespace Uqda.KeyStore

open Uqda.Addressing Uqda.Transition

/-- A packet together with the number of the `writePC` call that accepted it.
The number is bookkeeping of the model: the source has the bytes only. -/
structure Packet where
  serial : Nat
  bytes : List UInt8
  deriving DecidableEq, Repr

/-- `keyInfo` without its mutable `timeout` field. -/
structure KeyInfo where
  id : Nat
  key : KeyArray
  address : Address
  subnet : Subnet
  deriving DecidableEq

/-- `buffer`. -/
structure Buffer where
  id : Nat
  packet : Packet
  timeout : Nat
  deriving DecidableEq

/-- The closures handed to `time.AfterFunc`. -/
inductive Callback where
  | expireInfo (info : KeyInfo)
  | expireAddrBuffer (addr : Address) (buf : Nat)
  | expireSubnetBuffer (subnet : Subnet) (buf : Nat)
  deriving DecidableEq

/-- A timer is armed until it is stopped or its callback starts.  A callback
that has started runs its section at some later time, also when `Stop` is
called in between. -/
inductive TimerStatus where
  | armed
  | stopped
  | started
  | finished
  deriving DecidableEq, Repr

/-- `time.Timer`, made by `time.AfterFunc`. -/
structure Timer where
  callback : Callback
  status : TimerStatus
  deriving DecidableEq

/-- The two maps of one index: `addrToInfo` and `addrBuffer`, or `subnetToInfo`
and `subnetBuffer`. -/
structure Index (κ : Type) where
  toInfo : κ → Option KeyInfo
  buffer : κ → Option Buffer

/-- One `core.WriteTo(packet, key)` call. -/
structure Write where
  packet : Packet
  key : KeyArray
  deriving DecidableEq

/-- `keyStore`, the timers it has made, and what it has sent.  `pending` are the
writes that goroutines have still to make after leaving the mutex. -/
structure State where
  address : Address
  subnet : Subnet
  keyToInfo : KeyArray → Option KeyInfo
  addrs : Index Address
  subnets : Index Subnet
  infoTimeout : Nat → Option Nat
  nextInfo : Nat
  nextBuffer : Nat
  timers : List Timer
  accepted : List (List UInt8)
  pending : List Write
  issued : List Write
  lookups : List PublicKey

/-! ## Timers -/

/-- `time.AfterFunc`: the new timer's number and the extended timer table. -/
def State.afterFunc (k : State) (callback : Callback) : Nat × State :=
  (k.timers.length, { k with timers := k.timers ++ [⟨callback, .armed⟩] })

/-- `Timer.Stop` keeps an armed timer from firing and does nothing else. -/
def Timer.stop (timer : Timer) : Timer :=
  match timer.status with
  | .armed => { timer with status := .stopped }
  | _ => timer

/-- `Stop` on a `*time.Timer` that may be nil. -/
def State.stop (k : State) : Option Nat → State
  | none => k
  | some timer => { k with timers := k.timers.modify timer Timer.stop }

/-- `resetTimeout`. -/
def State.resetTimeout (k : State) (info : KeyInfo) : State :=
  let k := k.stop (k.infoTimeout info.id)
  let (timer, k) := k.afterFunc (.expireInfo info)
  { k with infoTimeout := Function.update k.infoTimeout info.id (some timer) }

/-! ## Sending -/

/-- Put a packet into the buffer at `slot`, replacing an older packet and
restarting the buffer's timer. -/
def State.fill {κ : Type} [DecidableEq κ] (k : State) (index : Index κ)
    (expire : κ → Nat → Callback) (slot : κ) (packet : Packet) : Index κ × State :=
  match index.buffer slot with
  | some buf =>
      let k := k.stop (some buf.timeout)
      let (timer, k) := k.afterFunc (expire slot buf.id)
      ({ index with
          buffer := Function.update index.buffer slot (some ⟨buf.id, packet, timer⟩) }, k)
  | none =>
      let (timer, k) := k.afterFunc (expire slot k.nextBuffer)
      ({ index with
          buffer := Function.update index.buffer slot (some ⟨k.nextBuffer, packet, timer⟩) },
        { k with nextBuffer := k.nextBuffer + 1 })

/-- `sendToAddress`. -/
def State.sendToAddress (k : State) (addr : Address) (packet : Packet) : State :=
  match k.addrs.toInfo addr with
  | some info =>
      let k := k.resetTimeout info
      { k with pending := k.pending ++ [⟨packet, info.key⟩] }
  | none =>
      let (addrs, k) := k.fill k.addrs .expireAddrBuffer addr packet
      { k with addrs := addrs, lookups := k.lookups ++ [Address.getKey addr] }

/-- `sendToSubnet`. -/
def State.sendToSubnet (k : State) (subnet : Subnet) (packet : Packet) : State :=
  match k.subnets.toInfo subnet with
  | some info =>
      let k := k.resetTimeout info
      { k with pending := k.pending ++ [⟨packet, info.key⟩] }
  | none =>
      let (subnets, k) := k.fill k.subnets .expireSubnetBuffer subnet packet
      { k with subnets := subnets, lookups := k.lookups ++ [Subnet.getKey subnet] }

/-- The errors of `writePC`. -/
inductive WriteError where
  | emptyPacket
  | notIPv6
  | undersized (length : Nat)
  | incorrectSource (source : Address)
  | invalidDestination
  deriving DecidableEq

/-- Where `writePC` sends an accepted packet. -/
inductive Route where
  | address (addr : Address)
  | subnet (subnet : Subnet)
  deriving DecidableEq

/-- `copy(addr[:], bs[offset:])` for an address. -/
def addressAt (bs : List UInt8) (offset : Nat) : Address :=
  copyAt (Vector.replicate 16 0) 0 (bs.drop offset)

/-- `copy(subnet[:], bs[offset:])` for a subnet. -/
def subnetAt (bs : List UInt8) (offset : Nat) : Subnet :=
  copyAt (Vector.replicate 8 0) 0 (bs.drop offset)

/-- The destination test of `writePC`. -/
def destination (bs : List UInt8) : Option Route :=
  if Address.isValid (addressAt bs 24) then
    some (.address (addressAt bs 24))
  else if Subnet.isValid (subnetAt bs 24) then
    some (.subnet (subnetAt bs 24))
  else
    none

/-- The checks of `writePC`, in order, with the route of an accepted packet. -/
def State.route (k : State) (bs : List UInt8) : Except WriteError Route :=
  match bs with
  | [] => .error .emptyPacket
  | first :: _ =>
      if first &&& 0xf0 != 0x60 then
        .error .notIPv6
      else if bs.length < 40 then
        .error (.undersized bs.length)
      else if addressAt bs 8 ≠ k.address ∧ subnetAt bs 8 ≠ k.subnet then
        .error (.incorrectSource (addressAt bs 8))
      else
        match destination bs with
        | some route => .ok route
        | none => .error .invalidDestination

/-- `writePC`: its result and the store after its section.  A rejected packet
leaves the store as it was. -/
def State.writePC (k : State) (bs : List UInt8) : Except WriteError Nat × State :=
  match k.route bs with
  | .error err => (.error err, k)
  | .ok route =>
      let packet : Packet := ⟨k.accepted.length, bs⟩
      let k := { k with accepted := k.accepted ++ [bs] }
      match route with
      | .address addr => (.ok bs.length, k.sendToAddress addr packet)
      | .subnet subnet => (.ok bs.length, k.sendToSubnet subnet packet)

/-! ## Learning a key -/

theorem addrForKey_isSome (key : KeyArray) : (addrForKey key.toList).isSome := by
  rw [addrForKey_eq_assemble (by simp)]
  rfl

theorem subnetForKey_isSome (key : KeyArray) : (subnetForKey key.toList).isSome := by
  unfold subnetForKey
  rw [addrForKey_eq_assemble (by simp)]
  rfl

/-- `*address.AddrForKey(key[:])`, never a nil dereference on a key array. -/
def addressOf (key : KeyArray) : Address :=
  (addrForKey key.toList).get (addrForKey_isSome key)

/-- `*address.SubnetForKey(key[:])`, never a nil dereference on a key array. -/
def subnetOf (key : KeyArray) : Subnet :=
  (subnetForKey key.toList).get (subnetForKey_isSome key)

/-- Store a new record in an index and take a buffered packet out of it. -/
def Index.learn {κ : Type} [DecidableEq κ] (index : Index κ) (slot : κ) (info : KeyInfo) :
    List Packet × Index κ :=
  let index := { index with toInfo := Function.update index.toInfo slot (some info) }
  match index.buffer slot with
  | some buf => ([buf.packet], { index with buffer := Function.update index.buffer slot none })
  | none => ([], index)

/-- The record that `update` makes for a key it does not know. -/
def State.newInfo (k : State) (kArray : KeyArray) : KeyInfo :=
  ⟨k.nextInfo, kArray, addressOf kArray, subnetOf kArray⟩

/-- The branch of `update` for an unknown key: store the new record in the three
maps, take out the packets buffered for it, and leave them to be written. -/
def State.learn (k : State) (info : KeyInfo) : State :=
  let (addrPackets, addrs) := k.addrs.learn info.address info
  let (subnetPackets, subnets) := k.subnets.learn info.subnet info
  let k := { k with
    nextInfo := k.nextInfo + 1
    keyToInfo := Function.update k.keyToInfo info.key (some info)
    addrs := addrs
    subnets := subnets }
  let k := k.resetTimeout info
  { k with pending := k.pending ++ (addrPackets ++ subnetPackets).map (⟨·, info.key⟩) }

/-- `update`: the record of the key and the store after the section. -/
def State.update (k : State) (key : PublicKey) : KeyInfo × State :=
  let kArray : KeyArray := copyAt (Vector.replicate publicKeySize 0) 0 key
  match k.keyToInfo kArray with
  | some info => (info, k.resetTimeout info)
  | none => (k.newInfo kArray, k.learn (k.newInfo kArray))

/-! ## Expiry -/

/-- Delete an entry if it is still the given record. -/
def forget {κ : Type} [DecidableEq κ] (toInfo : κ → Option KeyInfo) (slot : κ)
    (info : KeyInfo) : κ → Option KeyInfo :=
  if toInfo slot = some info then Function.update toInfo slot none else toInfo

/-- Delete a buffer if it is still the given object. -/
def discard {κ : Type} [DecidableEq κ] (buffer : κ → Option Buffer) (slot : κ)
    (buf : Nat) : κ → Option Buffer :=
  if (buffer slot).map Buffer.id = some buf then Function.update buffer slot none else buffer

/-- The section a callback runs under the mutex. -/
def State.expire (k : State) : Callback → State
  | .expireInfo info =>
      { k with
        keyToInfo := forget k.keyToInfo info.key info
        addrs := { k.addrs with toInfo := forget k.addrs.toInfo info.address info }
        subnets := { k.subnets with toInfo := forget k.subnets.toInfo info.subnet info } }
  | .expireAddrBuffer addr buf =>
      { k with addrs := { k.addrs with buffer := discard k.addrs.buffer addr buf } }
  | .expireSubnetBuffer subnet buf =>
      { k with subnets := { k.subnets with buffer := discard k.subnets.buffer subnet buf } }

/-! ## Runs -/

/-- One step of the store: a mutex section of `writePC`, `update` or a timer
callback, the start of a callback, or a write outside the mutex. -/
inductive Event where
  | writePC (bs : List UInt8)
  | update (key : PublicKey)
  | fire (timer : Nat)
  | callback (timer : Nat)
  | writeTo (write : Nat)
  deriving DecidableEq

/-- The transition function.  A timer fires only while armed, its callback runs
only once it has started, and only a pending write is made. -/
def State.next : Step State Event := fun k event =>
  match event with
  | .writePC bs => some (k.writePC bs).2
  | .update key => if key.length = publicKeySize then some (k.update key).2 else none
  | .fire timer =>
      match k.timers[timer]? with
      | some ⟨callback, .armed⟩ =>
          some { k with timers := k.timers.set timer ⟨callback, .started⟩ }
      | _ => none
  | .callback timer =>
      match k.timers[timer]? with
      | some ⟨callback, .started⟩ =>
          some (State.expire { k with timers := k.timers.set timer ⟨callback, .finished⟩ }
            callback)
      | _ => none
  | .writeTo write =>
      match k.pending[write]? with
      | some made =>
          some { k with pending := k.pending.eraseIdx write, issued := k.issued ++ [made] }
      | none => none

/-- The steps of the store. -/
inductive State.Moves (k : State) : Event → State → Prop where
  | writePC (bs : List UInt8) : k.Moves (.writePC bs) (k.writePC bs).2
  | update {key : PublicKey} (size : key.length = publicKeySize) :
      k.Moves (.update key) (k.update key).2
  | fire {timer : Nat} {callback : Callback} (found : k.timers[timer]? = some ⟨callback, .armed⟩) :
      k.Moves (.fire timer) { k with timers := k.timers.set timer ⟨callback, .started⟩ }
  | callback {timer : Nat} {callback : Callback}
      (found : k.timers[timer]? = some ⟨callback, .started⟩) :
      k.Moves (.callback timer)
        (State.expire { k with timers := k.timers.set timer ⟨callback, .finished⟩ } callback)
  | writeTo {write : Nat} {made : Write} (found : k.pending[write]? = some made) :
      k.Moves (.writeTo write)
        { k with pending := k.pending.eraseIdx write, issued := k.issued ++ [made] }

theorem State.moves_of_next {k target : State} {event : Event} (step : k.next event = some target) :
    k.Moves event target := by
  cases event with
  | writePC bs =>
      obtain rfl := Option.some.inj step
      exact .writePC bs
  | update key =>
      obtain ⟨size, step⟩ := Option.ite_none_right_eq_some.mp step
      obtain rfl := Option.some.inj step
      exact .update size
  | fire timer =>
      simp only [State.next] at step
      split at step
      · rename_i found
        obtain rfl := Option.some.inj step
        exact .fire found
      · cases step
  | callback timer =>
      simp only [State.next] at step
      split at step
      · rename_i found
        obtain rfl := Option.some.inj step
        exact .callback found
      · cases step
  | writeTo write =>
      simp only [State.next] at step
      split at step
      · rename_i found
        obtain rfl := Option.some.inj step
        exact .writeTo found
      · cases step

/-- `init` for a node with the given key array. -/
def State.init (publicKey : KeyArray) : State where
  address := addressOf publicKey
  subnet := subnetOf publicKey
  keyToInfo := fun _ => none
  addrs := ⟨fun _ => none, fun _ => none⟩
  subnets := ⟨fun _ => none, fun _ => none⟩
  infoTimeout := fun _ => none
  nextInfo := 0
  nextBuffer := 0
  timers := []
  accepted := []
  pending := []
  issued := []
  lookups := []

end Uqda.KeyStore
