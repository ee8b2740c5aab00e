import Uqda.KeyStore.Timers
import Uqda.Wire.Tlv

/-!
# Packets from the network

The embedding of `readPC` in `src/ipv6rwc/ipv6rwc.go` and of `CreateICMPv6` in
`src/ipv6rwc/icmpv6.go`.

A reader goroutine is cut at its reads and at its mutex sections: it receives a
datagram, reads the MTU, and then either reports the datagram as too big through
`writePC` or learns the sender through `update` and compares addresses.  Between
any two of these steps other goroutines may run sections of the store and change
the MTU.  What becomes of each datagram is noted in a log; this is bookkeeping of
the model.

The encoding of an ICMP message is a library function and a parameter here.
-/

namespace Uqda.KeyStore

open Uqda.Addressing Uqda.Transition Uqda.Store Uqda.Wire

/-! ## Packet Too Big -/

/-- `icmp.PacketTooBig`. -/
structure PacketTooBig where
  mtu : Nat
  data : List UInt8

/-- `icmp.Message` with the body that `readPC` uses. -/
structure IcmpMessage where
  type : UInt8
  code : UInt8
  body : PacketTooBig

/-- `icmpMessage.Marshal(icmp.IPv6PseudoHeader(src, dst))`, `none` on an error. -/
abbrev Marshal := IcmpMessage → (src dst : Address) → Option (List UInt8)

/-- The fields of `ipv6.Header`. -/
structure Ipv6Header where
  version : Nat
  trafficClass : Nat := 0
  flowLabel : Nat := 0
  payloadLen : Nat
  nextHeader : Nat
  hopLimit : Nat
  src : Address
  dst : Address

/-- `ipv6Header_Marshal`. -/
def ipv6HeaderMarshal (h : Ipv6Header) : List UInt8 :=
  [(UInt8.ofNat h.version <<< 4) ||| (UInt8.ofNat h.trafficClass >>> 4),
    (UInt8.ofNat h.trafficClass <<< 4) ||| UInt8.ofNat (h.flowLabel / 2 ^ 16),
    UInt8.ofNat (h.flowLabel / 2 ^ 8), UInt8.ofNat h.flowLabel] ++
  bigEndian 2 (h.payloadLen % 2 ^ 16) ++ [UInt8.ofNat h.nextHeader, UInt8.ofNat h.hopLimit] ++
  h.src.toList ++ h.dst.toList

/-- `CreateICMPv6`. -/
def createICMPv6 (marshal : Marshal) (dst src : Address) (mtype mcode : UInt8)
    (mbody : PacketTooBig) : Option (List UInt8) :=
  match marshal ⟨mtype, mcode, mbody⟩ src dst with
  | none => none
  | some icmpMessageBuf =>
      let ipv6Header : Ipv6Header :=
        { version := 6
          nextHeader := 58
          payloadLen := icmpMessageBuf.length
          hopLimit := 255
          src := src
          dst := dst }
      some (ipv6HeaderMarshal ipv6Header ++ icmpMessageBuf)

/-- `ipv6.ICMPTypePacketTooBig`. -/
def icmpTypePacketTooBig : UInt8 := 2

/-- The report that `readPC` makes for a datagram longer than the MTU, `none` if it
cannot be encoded. -/
def packetTooBig (marshal : Marshal) (bs : List UInt8) (mtu : Nat) : Option (List UInt8) :=
  let buf : Vector UInt8 512 := copyAt (Vector.replicate 512 0) 0 bs
  createICMPv6 marshal (addressAt buf.toList 8) (addressAt buf.toList 24) icmpTypePacketTooBig 0
    ⟨mtu, buf.toList.take bs.length⟩

/-! ## The reader -/

/-- What `core.ReadFrom` delivers: a datagram and the key of its sender. -/
structure Datagram where
  bytes : List UInt8
  sender : KeyArray

/-- The tests of `readPC` before it reads the MTU. -/
def Datagram.isIPv6 (d : Datagram) : Bool :=
  match d.bytes with
  | [] => false
  | first :: _ => first &&& 0xf0 == 0x60 && 40 ≤ d.bytes.length

/-- The test of `readPC` on the destination. -/
def State.addressed (k : State) (d : Datagram) : Bool :=
  addressAt d.bytes 24 = k.address ∨ subnetAt d.bytes 24 = k.subnet

/-- The test of `readPC` on the source, against the record of the sender. -/
def KeyInfo.sent (info : KeyInfo) (d : Datagram) : Bool :=
  addressAt d.bytes 8 = info.address ∨ subnetAt d.bytes 8 = info.subnet

/-- Where the reader stands.  `room` is the length of the caller's buffer. -/
inductive Reader where
  | idle
  | reading (room : Nat)
  | received (room : Nat) (d : Datagram)
  | reporting (room : Nat) (d : Datagram) (mtu : Nat) (packet : List UInt8)
  | checking (room : Nat) (d : Datagram) (mtu : Nat)

/-- What became of a datagram: the MTU that was read for it, if it was read, and
what was copied to the caller's buffer, if it was returned. -/
structure Handled where
  room : Nat
  datagram : Datagram
  mtu : Option Nat
  result : Option (List UInt8)

/-- The store with its MTU and one reader. -/
structure Ingress where
  store : State
  maxMTU : Nat
  mtu : Nat
  reader : Reader
  delivered : List Datagram
  handled : List Handled

/-- A section of another goroutine, a change of the MTU, or a step of the reader. -/
inductive IngressEvent where
  | other (called : Section)
  | setMTU (mtu : Nat)
  | readPC (room : Nat)
  | readFrom (d : Datagram)
  | readFromFails
  | advance

/-- The datagram that an event delivers. -/
def IngressEvent.datagram : IngressEvent → Option Datagram
  | .readFrom d => some d
  | _ => none

/-- `SetMTU`. -/
def Ingress.setMTU (node : Ingress) (mtu : Nat) : Ingress :=
  let mtu := if mtu > node.maxMTU then node.maxMTU else mtu
  let mtu := if mtu < 1280 then 1280 else mtu
  { node with mtu := mtu }

/-- The reader is done with a datagram and reads the next one. -/
def Ingress.skip (node : Ingress) (room : Nat) (d : Datagram) (mtu : Option Nat) : Ingress :=
  { node with
    reader := .reading room
    handled := node.handled ++ [⟨room, d, mtu, none⟩] }

/-- `ReadFrom` returns a datagram. -/
def Ingress.readFrom (node : Ingress) (room : Nat) (d : Datagram) : Ingress :=
  let node := { node with delivered := node.delivered ++ [d] }
  if d.isIPv6 then { node with reader := .received room d } else node.skip room d none

/-- The reader reads the MTU and looks at the length and the destination. -/
def Ingress.measure (marshal : Marshal) (node : Ingress) (room : Nat) (d : Datagram) : Ingress :=
  if d.bytes.length > node.mtu then
    match packetTooBig marshal d.bytes node.mtu with
    | some packet => { node with reader := .reporting room d node.mtu packet }
    | none => node.skip room d (some node.mtu)
  else if node.store.addressed d then
    { node with reader := .checking room d node.mtu }
  else
    node.skip room d (some node.mtu)

/-- The reader learns the sender and looks at the source. -/
def Ingress.check (node : Ingress) (room : Nat) (d : Datagram) (mtu : Nat) : Ingress :=
  let (info, store) := node.store.update d.sender.toList
  let node := { node with store := store }
  if info.sent d then
    { node with
      reader := .idle
      handled := node.handled ++ [⟨room, d, some mtu, some (d.bytes.take room)⟩] }
  else
    node.skip room d (some mtu)

/-- The transition function. -/
def Ingress.next (marshal : Marshal) : Step Ingress IngressEvent := fun node event =>
  match event with
  | .other called => (node.store.perform called).map fun store => { node with store := store }
  | .setMTU mtu => some (node.setMTU mtu)
  | .readPC room =>
      match node.reader with
      | .idle => some { node with reader := .reading room }
      | _ => none
  | .readFrom d =>
      match node.reader with
      | .reading room => some (node.readFrom room d)
      | _ => none
  | .readFromFails =>
      match node.reader with
      | .reading _ => some { node with reader := .idle }
      | _ => none
  | .advance =>
      match node.reader with
      | .received room d => some (node.measure marshal room d)
      | .reporting room d mtu packet =>
          some ({ node with store := (node.store.writePC packet).2 }.skip room d (some mtu))
      | .checking room d mtu => some (node.check room d mtu)
      | .idle | .reading _ => none

/-- A new store for a node with the given key. -/
def Ingress.init (publicKey : KeyArray) (maxMTU : Nat) : Ingress where
  store := State.init publicKey
  maxMTU := maxMTU
  mtu := 1280
  reader := .idle
  delivered := []
  handled := []

/-! ## The node's own address -/

/-- The address and the subnet of the node. -/
def State.own (k : State) : Address × Subnet :=
  (k.address, k.subnet)

@[simp]
theorem State.own_resetTimeout (k : State) (info : KeyInfo) :
    (k.resetTimeout info).own = k.own := by
  rw [State.resetTimeout_eq_stop]
  rfl

@[simp]
theorem State.own_sendToAddress (k : State) (addr : Address) (packet : Packet) :
    (k.sendToAddress addr packet).own = k.own := by
  unfold State.sendToAddress
  cases k.addrs.toInfo addr with
  | some info => exact k.own_resetTimeout info
  | none =>
      obtain ⟨buf, fresh, equal, -⟩ := k.fill_eq_stop k.addrs .expireAddrBuffer addr packet
      simp only [equal]
      rfl

@[simp]
theorem State.own_sendToSubnet (k : State) (subnet : Subnet) (packet : Packet) :
    (k.sendToSubnet subnet packet).own = k.own := by
  unfold State.sendToSubnet
  cases k.subnets.toInfo subnet with
  | some info => exact k.own_resetTimeout info
  | none =>
      obtain ⟨buf, fresh, equal, -⟩ := k.fill_eq_stop k.subnets .expireSubnetBuffer subnet packet
      simp only [equal]
      rfl

@[simp]
theorem State.own_writePC (k : State) (bs : List UInt8) : (k.writePC bs).2.own = k.own := by
  unfold State.writePC
  cases k.route bs with
  | error err => rfl
  | ok route =>
      cases route with
      | address addr => exact State.own_sendToAddress _ addr _
      | subnet subnet => exact State.own_sendToSubnet _ subnet _

@[simp]
theorem State.own_update (k : State) (key : PublicKey) : (k.update key).2.own = k.own := by
  simp only [State.update]
  split
  · exact k.own_resetTimeout _
  · simp only [State.learn, State.resetTimeout_eq_stop]
    rfl

theorem State.own_perform {k target : State} {called : Section}
    (step : k.perform called = some target) : target.own = k.own := by
  cases called with
  | sendToAddress addr packet =>
      cases step
      exact k.own_sendToAddress addr packet
  | sendToSubnet subnet packet =>
      cases step
      exact k.own_sendToSubnet subnet packet
  | event event =>
      cases State.moves_of_next step with
      | writePC bs => exact k.own_writePC bs
      | update => exact k.own_update _
      | fire | writeTo => rfl
      | @callback timer callback found => cases callback <;> rfl

/-! ## Authentic packets -/

/-- An IPv6 packet of at least a header and at most the MTU, for this node, from an
address that belongs to the sending key. -/
structure Genuine (publicKey : KeyArray) (d : Datagram) (mtu : Nat) : Prop where
  version : ∃ first, d.bytes.head? = some first ∧ first >>> 4 = 6
  header : 40 ≤ d.bytes.length
  fits : d.bytes.length ≤ mtu
  destination : addrForKey publicKey.toList = some (addressAt d.bytes 24) ∨
    subnetForKey publicKey.toList = some (subnetAt d.bytes 24)
  source : addrForKey d.sender.toList = some (addressAt d.bytes 8) ∨
    subnetForKey d.sender.toList = some (subnetAt d.bytes 8)

/-- A returned datagram is genuine for the MTU that was read for it and was copied
whole if there was room; a skipped one is not genuine. -/
def Handled.Judged (publicKey : KeyArray) (handled : Handled) : Prop :=
  match handled.result with
  | some bs =>
      (handled.datagram.bytes.length ≤ handled.room → bs = handled.datagram.bytes) ∧
        ∃ mtu, handled.mtu = some mtu ∧ Genuine publicKey handled.datagram mtu
  | none => ∀ mtu, handled.mtu = none ∨ handled.mtu = some mtu →
      ¬ Genuine publicKey handled.datagram mtu

/-- The datagram that the reader is working on. -/
def Reader.inFlight : Reader → List Datagram
  | .idle | .reading _ => []
  | .received _ d | .reporting _ d _ _ | .checking _ d _ => [d]

/-- Every delivered datagram has been judged, in order, except for one that the
reader is working on, and the reader finishes that one in at most two steps of its
own. -/
structure Ingress.Authentic (marshal : Marshal) (publicKey : KeyArray) (node : Ingress) :
    Prop where
  judged : ∀ handled ∈ node.handled, handled.Judged publicKey
  complete : node.delivered = node.handled.map Handled.datagram ++ node.reader.inFlight
  finishes : ∃ steps ≤ 2, ∃ target,
    run (Ingress.next marshal) node (List.replicate steps .advance) = some target ∧
      target.reader.inFlight = []

/-- What the reader has established about the datagram it is working on. -/
def Reader.Checked (publicKey : KeyArray) : Reader → Prop
  | .idle | .reading _ => True
  | .received _ d => d.isIPv6 = true
  | .reporting _ d mtu _ => mtu < d.bytes.length
  | .checking _ d mtu => d.isIPv6 = true ∧ d.bytes.length ≤ mtu ∧
      (addressAt d.bytes 24 = addressOf publicKey ∨ subnetAt d.bytes 24 = subnetOf publicKey)

/-- The part of the invariant that does not mention the reader. -/
structure Ingress.Kept (publicKey : KeyArray) (node : Ingress) : Prop where
  linked : node.store.Linked
  own : node.store.own = (addressOf publicKey, subnetOf publicKey)
  judged : ∀ handled ∈ node.handled, handled.Judged publicKey

/-- The invariant of the node. -/
structure Ingress.Sound (publicKey : KeyArray) (node : Ingress) : Prop
    extends node.Kept publicKey where
  checked : node.reader.Checked publicKey
  complete : node.delivered = node.handled.map Handled.datagram ++ node.reader.inFlight

theorem isIPv6_iff {d : Datagram} :
    d.isIPv6 = true ↔
      (∃ first, d.bytes.head? = some first ∧ first >>> 4 = 6) ∧ 40 ≤ d.bytes.length := by
  have nibble : ∀ octet : UInt8, octet &&& 0xf0 = 0x60 ↔ octet >>> 4 = 6 :=
    Bits.forall_octet (by decide +kernel)
  unfold Datagram.isIPv6
  cases d.bytes with
  | nil => simp
  | cons first rest => simp [nibble]

theorem State.addressed_iff {k : State} {publicKey : KeyArray} {d : Datagram}
    (own : k.own = (addressOf publicKey, subnetOf publicKey)) :
    k.addressed d = true ↔
      addressAt d.bytes 24 = addressOf publicKey ∨ subnetAt d.bytes 24 = subnetOf publicKey := by
  obtain ⟨address, subnet⟩ := Prod.mk.injEq .. ▸ own
  simp [State.addressed, address, subnet]

/-- The record that `update` returns is that of the key. -/
theorem State.Linked.update_derived {k : State} (inv : k.Linked) (key : KeyArray) :
    (k.update key.toList).1.address = addressOf key ∧
      (k.update key.toList).1.subnet = subnetOf key := by
  simp only [State.update, copyAt_zero_toList]
  cases found : k.keyToInfo key with
  | none => exact ⟨rfl, rfl⟩
  | some info =>
      obtain ⟨rfl, derived⟩ := inv.known found
      exact derived

theorem KeyInfo.sent_iff {info : KeyInfo} {d : Datagram}
    (address : info.address = addressOf d.sender) (subnet : info.subnet = subnetOf d.sender) :
    info.sent d = true ↔
      addrForKey d.sender.toList = some (addressAt d.bytes 8) ∨
        subnetForKey d.sender.toList = some (subnetAt d.bytes 8) := by
  rw [addrForKey_eq_addressOf, subnetForKey_eq_subnetOf, KeyInfo.sent, address, subnet]
  simp only [Option.some.injEq, decide_eq_true_eq]
  exact or_congr eq_comm eq_comm

section Reader

variable {publicKey : KeyArray} {node : Ingress}

/-- A datagram that is not genuine is skipped. -/
theorem Ingress.Kept.skip (inv : node.Kept publicKey) {room : Nat} {d : Datagram}
    {mtu : Option Nat} (complete : node.delivered = node.handled.map Handled.datagram ++ [d])
    (rejected : ∀ read, mtu = none ∨ mtu = some read → ¬ Genuine publicKey d read) :
    (node.skip room d mtu).Sound publicKey where
  linked := inv.linked
  own := inv.own
  checked := trivial
  judged := by
    intro handled member
    rcases List.mem_append.mp member with old | new
    · exact inv.judged handled old
    · rw [List.mem_singleton.mp new]
      exact rejected
  complete := by simp [Ingress.skip, Reader.inFlight, complete]

/-- A genuine datagram is returned. -/
theorem Ingress.Kept.return (inv : node.Kept publicKey) {room mtu : Nat} {d : Datagram}
    (complete : node.delivered = node.handled.map Handled.datagram ++ [d])
    (genuine : Genuine publicKey d mtu) :
    ({ node with
      reader := .idle
      handled := node.handled ++ [⟨room, d, some mtu, some (d.bytes.take room)⟩] } :
      Ingress).Sound publicKey where
  linked := inv.linked
  own := inv.own
  checked := trivial
  judged := by
    intro handled member
    rcases List.mem_append.mp member with old | new
    · exact inv.judged handled old
    · rw [List.mem_singleton.mp new]
      exact ⟨List.take_of_length_le, mtu, rfl, genuine⟩
  complete := by simp [Reader.inFlight, complete]

/-- A section of the store touches nothing else of the invariant. -/
theorem Ingress.Kept.withStore (inv : node.Kept publicKey) {store : State}
    (linked : store.Linked) (own : store.own = node.store.own) :
    ({ node with store := store } : Ingress).Kept publicKey where
  linked := linked
  own := own.trans inv.own
  judged := inv.judged

/-- The reader moves on without finishing the datagram. -/
theorem Ingress.Sound.move (inv : node.Sound publicKey) {reader : Reader}
    (checked : reader.Checked publicKey) (same : reader.inFlight = node.reader.inFlight) :
    ({ node with reader := reader } : Ingress).Sound publicKey where
  linked := inv.linked
  own := inv.own
  checked := checked
  judged := inv.judged
  complete := by
    rw [same]
    exact inv.complete

theorem Ingress.Sound.readFrom (inv : node.Sound publicKey) {room : Nat}
    (reading : node.reader = .reading room) (d : Datagram) :
    (node.readFrom room d).Sound publicKey := by
  have delivered : node.delivered = node.handled.map Handled.datagram := by
    simpa [reading, Reader.inFlight] using inv.complete
  have kept : ({ node with delivered := node.delivered ++ [d] } : Ingress).Kept publicKey :=
    ⟨inv.linked, inv.own, inv.judged⟩
  unfold Ingress.readFrom
  by_cases isIPv6 : d.isIPv6 = true
  · rw [if_pos isIPv6]
    refine ⟨⟨inv.linked, inv.own, inv.judged⟩, isIPv6, ?_⟩
    simp [Reader.inFlight, delivered]
  · rw [if_neg isIPv6]
    refine kept.skip (congrArg (· ++ [d]) delivered) ?_
    intro read _ genuine
    exact isIPv6 (isIPv6_iff.mpr ⟨genuine.version, genuine.header⟩)

theorem Ingress.Sound.measure (inv : node.Sound publicKey) (marshal : Marshal) {room : Nat}
    {d : Datagram} (received : node.reader = .received room d) :
    (node.measure marshal room d).Sound publicKey := by
  have complete : node.delivered = node.handled.map Handled.datagram ++ [d] := by
    simpa [received, Reader.inFlight] using inv.complete
  have isIPv6 : d.isIPv6 = true := by
    simpa [received, Reader.Checked] using inv.checked
  unfold Ingress.measure
  split
  · rename_i oversize
    cases packetTooBig marshal d.bytes node.mtu with
    | some packet => exact inv.move oversize (by rw [received]; rfl)
    | none =>
        refine inv.skip complete ?_
        rintro read (unread | same) genuine
        · cases unread
        · cases same
          exact absurd genuine.fits (Nat.not_le_of_lt oversize)
  · rename_i fits
    by_cases addressed : node.store.addressed d = true
    · rw [if_pos addressed]
      have destination := (State.addressed_iff inv.own).mp addressed
      exact inv.move ⟨isIPv6, Nat.le_of_not_lt fits, destination⟩ (by rw [received]; rfl)
    · rw [if_neg addressed]
      refine inv.skip complete ?_
      intro read _ genuine
      have destination := genuine.destination
      rw [addrForKey_eq_addressOf, subnetForKey_eq_subnetOf, Option.some.injEq,
        Option.some.injEq] at destination
      exact addressed ((State.addressed_iff inv.own).mpr (destination.imp Eq.symm Eq.symm))

theorem Ingress.Sound.report (inv : node.Sound publicKey) {room : Nat} {d : Datagram}
    {mtu : Nat} {packet : List UInt8} (reporting : node.reader = .reporting room d mtu packet) :
    (({ node with store := (node.store.writePC packet).2 } : Ingress).skip room d
      (some mtu)).Sound publicKey := by
  have complete : node.delivered = node.handled.map Handled.datagram ++ [d] := by
    simpa [reporting, Reader.inFlight] using inv.complete
  have oversize : mtu < d.bytes.length := by
    simpa [reporting, Reader.Checked] using inv.checked
  have kept := inv.withStore (inv.linked.writePC packet) (node.store.own_writePC packet)
  refine kept.skip complete ?_
  rintro read (unread | same) genuine
  · cases unread
  · cases same
    exact absurd genuine.fits (Nat.not_le_of_lt oversize)

theorem Ingress.Sound.check (inv : node.Sound publicKey) {room : Nat} {d : Datagram} {mtu : Nat}
    (checking : node.reader = .checking room d mtu) :
    (node.check room d mtu).Sound publicKey := by
  have complete : node.delivered = node.handled.map Handled.datagram ++ [d] := by
    simpa [checking, Reader.inFlight] using inv.complete
  have checked := inv.checked
  rw [checking] at checked
  obtain ⟨isIPv6, fits, destination⟩ := checked
  obtain ⟨version, header⟩ := isIPv6_iff.mp isIPv6
  obtain ⟨address, subnet⟩ := inv.linked.update_derived d.sender
  have kept := inv.withStore (inv.linked.update d.sender.toList)
    (node.store.own_update d.sender.toList)
  unfold Ingress.check
  by_cases sent : (node.store.update d.sender.toList).1.sent d = true
  · simp only [sent, if_true]
    refine kept.return complete
      ⟨version, header, fits, ?_, (KeyInfo.sent_iff address subnet).mp sent⟩
    rw [addrForKey_eq_addressOf, subnetForKey_eq_subnetOf, Option.some.injEq, Option.some.injEq]
    exact destination.imp Eq.symm Eq.symm
  · simp only [sent]
    refine kept.skip complete ?_
    intro read _ genuine
    exact sent ((KeyInfo.sent_iff address subnet).mpr genuine.source)

theorem Ingress.Sound.next {marshal : Marshal} {event : IngressEvent} {target : Ingress}
    (inv : node.Sound publicKey) (step : node.next marshal event = some target) :
    target.Sound publicKey := by
  cases event with
  | other called =>
      obtain ⟨store, performed, rfl⟩ := Option.map_eq_some_iff.mp step
      exact ⟨inv.withStore (inv.linked.perform performed) (State.own_perform performed),
        inv.checked, inv.complete⟩
  | setMTU mtu =>
      simp only [Ingress.next, Option.some.injEq] at step
      subst step
      exact ⟨⟨inv.linked, inv.own, inv.judged⟩, inv.checked, inv.complete⟩
  | readPC room =>
      simp only [Ingress.next] at step
      split at step
      · rename_i idle
        obtain rfl := Option.some.inj step
        exact inv.move trivial (by rw [idle]; rfl)
      · cases step
  | readFrom d =>
      simp only [Ingress.next] at step
      split at step
      · rename_i reading
        obtain rfl := Option.some.inj step
        exact inv.readFrom reading d
      · cases step
  | readFromFails =>
      simp only [Ingress.next] at step
      split at step
      · rename_i reading
        obtain rfl := Option.some.inj step
        exact inv.move trivial (by rw [reading]; rfl)
      · cases step
  | advance =>
      simp only [Ingress.next] at step
      split at step
      · rename_i received
        obtain rfl := Option.some.inj step
        exact inv.measure marshal received
      · rename_i reporting
        obtain rfl := Option.some.inj step
        exact inv.report reporting
      · rename_i checking
        obtain rfl := Option.some.inj step
        exact inv.check checking
      · cases step
      · cases step

end Reader

theorem Ingress.init_sound (publicKey : KeyArray) (maxMTU : Nat) :
    (Ingress.init publicKey maxMTU).Sound publicKey where
  linked := State.init_linked publicKey
  own := rfl
  judged := by simp [Ingress.init]
  checked := trivial
  complete := rfl

/-! ## The log of datagrams -/

theorem Ingress.inFlight_check (node : Ingress) (room : Nat) (d : Datagram) (mtu : Nat) :
    (node.check room d mtu).reader.inFlight = [] := by
  unfold Ingress.check
  dsimp only
  split <;> rfl

/-- A reader that has read the MTU needs one more step. -/
theorem Ingress.finishes_of_measured (marshal : Marshal) {node : Ingress}
    (measured : ∀ room d, node.reader ≠ .received room d) :
    ∃ steps ≤ 1, ∃ target,
      run (Ingress.next marshal) node (List.replicate steps .advance) = some target ∧
        target.reader.inFlight = [] := by
  cases reader : node.reader with
  | idle => exact ⟨0, Nat.zero_le _, node, rfl, by rw [reader]; rfl⟩
  | reading room => exact ⟨0, Nat.zero_le _, node, rfl, by rw [reader]; rfl⟩
  | received room d => exact absurd reader (measured room d)
  | reporting room d mtu packet =>
      refine ⟨1, Nat.le_refl _, Ingress.skip { node with store := (node.store.writePC packet).2 }
        room d (some mtu), ?_, rfl⟩
      simp only [List.replicate, run, Ingress.next, reader, Option.bind_some]
  | checking room d mtu =>
      refine ⟨1, Nat.le_refl _, _, ?_, node.inFlight_check room d mtu⟩
      simp only [List.replicate, run, Ingress.next, reader, Option.bind_some]

theorem Ingress.measure_reader_ne (marshal : Marshal) (node : Ingress) (room : Nat) (d : Datagram)
    (otherRoom : Nat) (other : Datagram) :
    (node.measure marshal room d).reader ≠ .received otherRoom other := by
  unfold Ingress.measure
  split
  · cases packetTooBig marshal d.bytes node.mtu <;> simp [Ingress.skip]
  · split <;> simp [Ingress.skip]

theorem Ingress.finishes (marshal : Marshal) (node : Ingress) :
    ∃ steps ≤ 2, ∃ target,
      run (Ingress.next marshal) node (List.replicate steps .advance) = some target ∧
        target.reader.inFlight = [] := by
  by_cases received : ∃ room d, node.reader = .received room d
  · obtain ⟨room, d, reader⟩ := received
    obtain ⟨steps, few, target, ended, done⟩ :=
      Ingress.finishes_of_measured marshal (node.measure_reader_ne marshal room d)
    refine ⟨steps + 1, Nat.succ_le_succ few, target, ?_, done⟩
    rw [List.replicate_succ, run_cons_eq_some_iff]
    exact ⟨_, by simp only [Ingress.next, reader], ended⟩
  · obtain ⟨steps, few, finished⟩ := Ingress.finishes_of_measured marshal
      fun room d reader => received ⟨room, d, reader⟩
    exact ⟨steps, Nat.le_succ_of_le few, finished⟩

end Uqda.KeyStore
