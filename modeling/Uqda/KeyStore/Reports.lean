import Uqda.KeyStore.Ingress

/-!
# Reports about oversize datagrams

A datagram longer than the MTU is answered with a Packet Too Big message.  The
message is made before the source of the datagram has been compared with the key of
its sender, and `writePC` looks at the node's own side and at the range of the
destination only.  So the message goes to whatever network address the datagram
names as its source, and the sender need not own it.
-/

namespace Uqda.KeyStore

open Uqda.Addressing Uqda.Transition Uqda.Wire

/-- The Packet Too Big message that the reader sends because of a datagram: it reads
the datagram and then the MTU, and the store accepts the message. -/
def Ingress.reports (marshal : Marshal) (node : Ingress) (d : Datagram) : Option (List UInt8) :=
  match run (Ingress.next marshal) { node with reader := .reading 0 } [.readFrom d, .advance] with
  | some ⟨store, _, _, .reporting _ _ _ packet, _, _⟩ =>
      match (store.writePC packet).1 with
      | .ok _ => some packet
      | .error _ => none
  | _ => none

/-- The address at an offset belongs to a key. -/
def Owned (key : KeyArray) (bs : List UInt8) (offset : Nat) : Prop :=
  addrForKey key.toList = some (addressAt bs offset) ∨
    subnetForKey key.toList = some (subnetAt bs offset)

/-- A datagram that the reader answers with a report: it is an IPv6 packet longer
than the MTU, for this node, from an address or subnet of the network, and the
report can be encoded. -/
structure Ingress.Answered (marshal : Marshal) (node : Ingress) (d : Datagram) : Prop where
  isIPv6 : d.isIPv6 = true
  oversize : node.mtu < d.bytes.length
  destination : addressAt d.bytes 24 = node.store.address ∨
    subnetAt d.bytes 24 = node.store.subnet
  source : Address.isValid (addressAt d.bytes 8) = true ∨
    Subnet.isValid (subnetAt d.bytes 8) = true
  encoded : (marshal ⟨icmpTypePacketTooBig, 0, ⟨node.mtu, d.bytes.take 512⟩⟩
    (addressAt d.bytes 24) (addressAt d.bytes 8)).isSome

/-- The first bytes of an address are its subnet. -/
theorem subnetAt_congr {first second : List UInt8} {offset other : Nat}
    (same : addressAt first offset = addressAt second other) :
    subnetAt first offset = subnetAt second other := by
  apply Vector.ext
  intro i bound
  have entry : (addressAt first offset)[i] = (addressAt second other)[i] := by rw [same]
  simpa [addressAt, subnetAt, copyAt] using entry

theorem addressAt_append {front rest : List UInt8} {offset : Nat} (addr : Address)
    (size : front.length = offset) : addressAt (front ++ (addr.toList ++ rest)) offset = addr := by
  apply Vector.ext
  intro i bound
  simp [addressAt, copyAt, ← size, List.getElem?_append_left]

theorem addressAt_ipv6HeaderMarshal_src (h : Ipv6Header) (rest : List UInt8) :
    addressAt (ipv6HeaderMarshal h ++ rest) 8 = h.src := by
  simp only [ipv6HeaderMarshal, List.append_assoc]
  rw [← List.append_assoc, ← List.append_assoc]
  exact addressAt_append h.src (by simp)

theorem addressAt_ipv6HeaderMarshal_dst (h : Ipv6Header) (rest : List UInt8) :
    addressAt (ipv6HeaderMarshal h ++ rest) 24 = h.dst := by
  simp only [ipv6HeaderMarshal, List.append_assoc]
  rw [← List.append_assoc, ← List.append_assoc, ← List.append_assoc]
  exact addressAt_append h.dst (by simp)

theorem length_ipv6HeaderMarshal (h : Ipv6Header) : (ipv6HeaderMarshal h).length = 40 := by
  simp [ipv6HeaderMarshal]

/-- The copy of the datagram has its addresses. -/
theorem addressAt_copyAt (bs : List UInt8) {offset : Nat} (inside : offset + 16 ≤ 512) :
    addressAt (copyAt (Vector.replicate 512 0) 0 bs).toList offset = addressAt bs offset := by
  apply Vector.ext
  intro i bound
  have small : offset + i < 512 := by omega
  simp [addressAt, copyAt, small]

theorem take_copyAt (bs : List UInt8) :
    (copyAt (Vector.replicate 512 0) 0 bs).toList.take bs.length = bs.take 512 := by
  rw [toList_copyAt_zero, List.take_take, List.take_append_of_le_length (Nat.min_le_left ..),
    List.take_eq_take_iff]
  omega

/-- The header of the report about a datagram. -/
def reportHeader (bs message : List UInt8) : Ipv6Header where
  version := 6
  nextHeader := 58
  payloadLen := message.length
  hopLimit := 255
  src := addressAt bs 24
  dst := addressAt bs 8

/-- The report goes from the destination of the datagram to its source. -/
theorem packetTooBig_eq (marshal : Marshal) (bs : List UInt8) (mtu : Nat) :
    packetTooBig marshal bs mtu =
      (marshal ⟨icmpTypePacketTooBig, 0, ⟨mtu, bs.take 512⟩⟩ (addressAt bs 24)
        (addressAt bs 8)).map fun message =>
          ipv6HeaderMarshal (reportHeader bs message) ++ message := by
  unfold packetTooBig createICMPv6
  simp only [addressAt_copyAt bs (show 8 + 16 ≤ 512 by decide),
    addressAt_copyAt bs (show 24 + 16 ≤ 512 by decide), take_copyAt]
  cases marshal ⟨icmpTypePacketTooBig, 0, ⟨mtu, bs.take 512⟩⟩ (addressAt bs 24)
    (addressAt bs 8) <;> rfl

theorem exists_destination_iff {bs : List UInt8} :
    (∃ route, destination bs = some route) ↔
      Address.isValid (addressAt bs 24) = true ∨ Subnet.isValid (subnetAt bs 24) = true := by
  unfold destination
  by_cases address : Address.isValid (addressAt bs 24) = true
  · simp [address]
  · by_cases subnet : Subnet.isValid (subnetAt bs 24) = true <;> simp [address, subnet]

/-- The store routes an IPv6 packet exactly if it is from this node and to an address
or subnet of the network. -/
theorem State.exists_route_iff {k : State} {first : UInt8} {rest : List UInt8}
    (version : first &&& 0xf0 = 0x60) (long : 40 ≤ (first :: rest).length) :
    (∃ route, k.route (first :: rest) = .ok route) ↔
      (addressAt (first :: rest) 8 = k.address ∨ subnetAt (first :: rest) 8 = k.subnet) ∧
      (Address.isValid (addressAt (first :: rest) 24) = true ∨
        Subnet.isValid (subnetAt (first :: rest) 24) = true) := by
  have isIPv6 : (first &&& 0xf0 != 0x60) = false := by simp [version]
  rw [← exists_destination_iff]
  simp only [State.route, isIPv6, Bool.false_eq_true, if_false, if_neg (Nat.not_lt_of_le long)]
  by_cases source : addressAt (first :: rest) 8 ≠ k.address ∧ subnetAt (first :: rest) 8 ≠ k.subnet
  · rw [if_pos source]
    refine iff_of_false (by simp) ?_
    rintro ⟨address | subnet, -⟩
    · exact source.1 address
    · exact source.2 subnet
  · rw [if_neg source]
    have own : addressAt (first :: rest) 8 = k.address ∨
        subnetAt (first :: rest) 8 = k.subnet := by
      by_contra neither
      exact source ⟨fun address => neither (Or.inl address),
        fun subnet => neither (Or.inr subnet)⟩
    cases destination (first :: rest) with
    | none => simp
    | some route => simp [own]

theorem State.writePC_eq_ok_iff {k : State} {bs : List UInt8} :
    (∃ n, (k.writePC bs).1 = .ok n) ↔ ∃ route, k.route bs = .ok route := by
  unfold State.writePC
  cases k.route bs with
  | error err => simp
  | ok route => cases route <;> simp

/-- The store accepts the report about a datagram exactly if the datagram is for this
node and from an address or subnet of the network. -/
theorem State.exists_route_report_iff {k : State} {bs message : List UInt8} :
    (∃ route, k.route (ipv6HeaderMarshal (reportHeader bs message) ++ message) = .ok route) ↔
      (addressAt bs 24 = k.address ∨ subnetAt bs 24 = k.subnet) ∧
      (Address.isValid (addressAt bs 8) = true ∨ Subnet.isValid (subnetAt bs 8) = true) := by
  have source := addressAt_ipv6HeaderMarshal_src (reportHeader bs message) message
  have destination := addressAt_ipv6HeaderMarshal_dst (reportHeader bs message) message
  have long : 40 ≤ (ipv6HeaderMarshal (reportHeader bs message) ++ message).length := by
    rw [List.length_append, length_ipv6HeaderMarshal]
    exact Nat.le_add_right ..
  have subnet := subnetAt_congr (source.trans (rfl : _ = addressAt bs 24))
  have otherSubnet := subnetAt_congr (destination.trans (rfl : _ = addressAt bs 8))
  obtain ⟨first, rest, version, split⟩ : ∃ first rest, first &&& 0xf0 = 0x60 ∧
      ipv6HeaderMarshal (reportHeader bs message) ++ message = first :: rest := by
    refine ⟨_, _, ?_, rfl⟩
    simp only [reportHeader]
    decide
  rw [split] at source destination long subnet otherSubnet ⊢
  rw [State.exists_route_iff version long, source, destination, subnet, otherSubnet]
  rfl

/-- When the reader sends a report, and which. -/
theorem Ingress.reports_eq_some_iff {marshal : Marshal} {node : Ingress} {d : Datagram}
    {packet : List UInt8} :
    node.reports marshal d = some packet ↔
      d.isIPv6 = true ∧ node.mtu < d.bytes.length ∧
        packetTooBig marshal d.bytes node.mtu = some packet ∧
        ∃ route, node.store.route packet = .ok route := by
  unfold Ingress.reports
  by_cases isIPv6 : d.isIPv6 = true
  · by_cases oversize : node.mtu < d.bytes.length
    · cases encoded : packetTooBig marshal d.bytes node.mtu with
      | none =>
          simp [run, Ingress.next, Ingress.readFrom, Ingress.measure, Ingress.skip, isIPv6,
            oversize, encoded]
      | some report =>
          simp only [run, Ingress.next, Ingress.readFrom, Ingress.measure, isIPv6, oversize,
            encoded, if_true, Option.bind_some, true_and, Option.some.injEq, gt_iff_lt]
          rw [← State.writePC_eq_ok_iff]
          constructor
          · intro sent
            split at sent
            · rename_i accepted
              cases sent
              exact ⟨rfl, _, accepted⟩
            · cases sent
          · rintro ⟨rfl, n, accepted⟩
            rw [accepted]
    · by_cases addressed : node.store.addressed d = true <;>
        simp [run, Ingress.next, Ingress.readFrom, Ingress.measure, Ingress.skip, isIPv6,
          oversize, addressed]
  · simp [run, Ingress.next, Ingress.readFrom, Ingress.skip, isIPv6]

/-- A datagram is answered with a report exactly under the conditions of
`Answered`. -/
theorem Ingress.exists_reports_iff {marshal : Marshal} {node : Ingress} {d : Datagram} :
    (∃ packet, node.reports marshal d = some packet) ↔ node.Answered marshal d := by
  constructor
  · rintro ⟨packet, sent⟩
    obtain ⟨isIPv6, oversize, made, routed⟩ := Ingress.reports_eq_some_iff.mp sent
    rw [packetTooBig_eq] at made
    obtain ⟨message, encoded, rfl⟩ := Option.map_eq_some_iff.mp made
    obtain ⟨destination, source⟩ := State.exists_route_report_iff.mp routed
    exact ⟨isIPv6, oversize, destination, source, by rw [encoded]; rfl⟩
  · rintro ⟨isIPv6, oversize, destination, source, encoded⟩
    obtain ⟨message, encoded⟩ := Option.isSome_iff_exists.mp encoded
    refine ⟨ipv6HeaderMarshal (reportHeader d.bytes message) ++ message,
      Ingress.reports_eq_some_iff.mpr ⟨isIPv6, oversize, ?_,
        State.exists_route_report_iff.mpr ⟨destination, source⟩⟩⟩
    rw [packetTooBig_eq, encoded]
    rfl

theorem Ingress.addressAt_of_reports {marshal : Marshal} {node : Ingress} {d : Datagram}
    {packet : List UInt8} (sent : node.reports marshal d = some packet) :
    addressAt packet 24 = addressAt d.bytes 8 := by
  obtain ⟨-, -, made, -⟩ := Ingress.reports_eq_some_iff.mp sent
  rw [packetTooBig_eq] at made
  obtain ⟨message, -, rfl⟩ := Option.map_eq_some_iff.mp made
  exact addressAt_ipv6HeaderMarshal_dst _ message

theorem Owned.congr {key : KeyArray} {first second : List UInt8} {offset other : Nat}
    (same : addressAt first offset = addressAt second other) :
    Owned key first offset ↔ Owned key second other := by
  unfold Owned
  rw [same, subnetAt_congr same]

/-- Every report that the reader sends because of a datagram goes to an address of
the datagram's sender exactly if the source of the datagram belongs to the sender
or the datagram is not answered at all. -/
theorem reports_owned_iff (marshal : Marshal) (node : Ingress) (d : Datagram) :
    (∀ packet, node.reports marshal d = some packet → Owned d.sender packet 24) ↔
      (Owned d.sender d.bytes 8 ∨ ¬ node.Answered marshal d) := by
  constructor
  · intro owned
    by_cases answered : node.Answered marshal d
    · obtain ⟨packet, sent⟩ := Ingress.exists_reports_iff.mpr answered
      exact Or.inl ((Owned.congr (Ingress.addressAt_of_reports sent)).mp (owned packet sent))
    · exact Or.inr answered
  · rintro (owned | unanswered) packet sent
    · exact (Owned.congr (Ingress.addressAt_of_reports sent)).mpr owned
    · exact absurd (Ingress.exists_reports_iff.mp ⟨packet, sent⟩) unanswered

/-! ## A reflected report -/

/-- An encoder of ICMP messages that leaves the checksum empty. -/
def plainMarshal : Marshal := fun message _ _ =>
  some ([message.type, message.code, 0, 0] ++ bigEndian 4 message.body.mtu ++ message.body.data)

/-- The address `200::1`, which does not belong to the peer. -/
def victim : Address :=
  ((Vector.replicate 16 0).set 0 0x02).set 15 1

/-- A datagram of 1281 bytes that the peer sends to the node in the victim's name. -/
def spoofed : Datagram where
  bytes := ipv6HeaderMarshal
    { version := 6, payloadLen := 1241, nextHeader := 17, hopLimit := 64, src := victim,
      dst := addressOf nodeKey } ++ List.replicate 1241 0
  sender := peerKey

theorem addressAt_toList (addr : Address) : addressAt addr.toList 0 = addr := by
  rw [addressAt, List.drop_zero, copyAt_zero_toList]

theorem addressAt_spoofed : addressAt spoofed.bytes 8 = victim :=
  addressAt_ipv6HeaderMarshal_src _ _

theorem length_spoofed : spoofed.bytes.length = 1281 := by
  rw [spoofed, List.length_append, length_ipv6HeaderMarshal, List.length_replicate]

theorem answered_spoofed : (Ingress.init nodeKey 65535).Answered plainMarshal spoofed where
  isIPv6 := by
    rw [isIPv6_iff]
    refine ⟨⟨_, rfl, by decide⟩, ?_⟩
    rw [length_spoofed]
    decide
  oversize := by
    rw [length_spoofed]
    decide
  destination := Or.inl (addressAt_ipv6HeaderMarshal_dst _ _)
  source := by
    rw [addressAt_spoofed]
    exact Or.inl (by decide)
  encoded := rfl

/-- The node answers the victim, whose address the peer does not own. -/
theorem spoofed_is_answered :
    ∃ packet, (Ingress.init nodeKey 65535).reports plainMarshal spoofed = some packet ∧
      addressAt packet 24 = victim ∧ ¬ Owned spoofed.sender packet 24 := by
  obtain ⟨packet, sent⟩ := Ingress.exists_reports_iff.mpr answered_spoofed
  have destination := (Ingress.addressAt_of_reports sent).trans addressAt_spoofed
  have foreign : addrForKey peerKey.toList ≠ some victim ∧
      subnetForKey peerKey.toList ≠ some (subnetAt victim.toList 0) := by
    constructor <;> decide +kernel
  refine ⟨packet, sent, destination, ?_⟩
  rw [Owned.congr (destination.trans (addressAt_toList victim).symm)]
  rintro (address | subnet)
  · exact foreign.1 (address.trans (congrArg some (addressAt_toList victim)))
  · exact foreign.2 subnet

end Uqda.KeyStore
