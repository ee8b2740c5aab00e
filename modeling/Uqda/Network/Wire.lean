import Uqda.Bits.Octet
import Uqda.Wire.Varint

/-!
# The messages of the routing protocol

The embedding of `third_party/ironwood/network/wire.go` and of the encoders and decoders
next to the message types in `router.go`, `pathfinder.go` and `traffic.go`.  An encoder
appends to a buffer and panics if it wrote another number of bytes than `size` says, here
`none`; a decoder returns an error on malformed bytes, here `none` as well.

Paths are written as numbers that end with a zero, so a port that is zero would end a path
early: a message is well-formed if its ports are not zero.
-/

namespace Uqda.Network

open Uqda.Wire

/-- An Ed25519 public key. -/
abbrev PublicKey := Vector UInt8 32

/-- An Ed25519 signature. -/
abbrev Signature := Vector UInt8 64

/-- The number that a node gives to one of its peers.  Zero is no port. -/
abbrev PeerPort := UInt64

/-- The type byte of a message. -/
inductive WirePacketType
  | wireDummy
  | wireKeepAlive
  | wireProtoSigReq
  | wireProtoSigRes
  | wireProtoAnnounce
  | wireProtoBloomFilter
  | wireProtoPathLookup
  | wireProtoPathNotify
  | wireProtoPathBroken
  | wireTraffic
  deriving DecidableEq, Repr

/-- The constants of `wirePacketType`, counted from zero. -/
def WirePacketType.byte : WirePacketType → UInt8
  | wireDummy => 0
  | wireKeepAlive => 1
  | wireProtoSigReq => 2
  | wireProtoSigRes => 3
  | wireProtoAnnounce => 4
  | wireProtoBloomFilter => 5
  | wireProtoPathLookup => 6
  | wireProtoPathNotify => 7
  | wireProtoPathBroken => 8
  | wireTraffic => 9

/-! ## Fields -/

/-- `wireChopSlice` into an array of `n` bytes. -/
def wireChopSlice (n : Nat) : Chopper (Vector UInt8 n) := fun data =>
  if enough : n ≤ data.length then
    some (⟨(data.take n).toArray, by simpa using enough⟩, data.drop n)
  else none

/-- `wireChopUint`. -/
def wireChopUint : Chopper UInt64 := chopUvarint

/-- `wireSizeUint`. -/
def wireSizeUint (u : UInt64) : Nat := (putUvarint u).length

/-- `wireAppendUint`. -/
def wireAppendUint (out : Bytes) (u : UInt64) : Bytes := out ++ putUvarint u

/-- `wireSizePath`. -/
def wireSizePath (path : List PeerPort) : Nat :=
  path.foldl (fun size port => size + wireSizeUint port) 0 + wireSizeUint 0

/-- `wireAppendPath`. -/
def wireAppendPath (dest : Bytes) (path : List PeerPort) : Bytes :=
  wireAppendUint (path.foldl wireAppendUint dest) 0

theorem chops_slice (n : Nat) :
    Chops (fun value : Vector UInt8 n => value.toList) (wireChopSlice n) (fun _ => True) where
  chop_encode := by
    intro value rest _
    have size : value.toList.length = n := value.length_toList
    have enough : n ≤ (value.toList ++ rest).length := by
      rw [List.length_append, size]
      exact Nat.le_add_right _ _
    have front : (value.toList ++ rest).take n = value.toList := List.take_left' size
    have back : (value.toList ++ rest).drop n = rest := List.drop_left' size
    have array : value.toList.toArray = value.toArray := Array.toArray_toList
    simp only [wireChopSlice, dif_pos enough, front, back, array]
  of_chop := by
    intro data value rest chopped
    refine ⟨trivial, data.take n, ?_, ?_⟩
    · rw [wireChopSlice] at chopped
      split at chopped
      · cases chopped
        exact (List.take_append_drop n data).symm
      · cases chopped
    · rw [wireChopSlice] at chopped
      split at chopped
      · rename_i enough
        cases chopped
        simp [enough]
      · cases chopped

theorem chops_uint : Chops putUvarint wireChopUint (fun _ => True) :=
  chops_uvarint

theorem length_lt_of_wireChopUint {data rest : Bytes} {u : UInt64}
    (chopped : wireChopUint data = some (u, rest)) : rest.length < data.length := by
  obtain ⟨-, used, rfl, shorter⟩ := chops_uint.of_chop chopped
  have positive := length_putUvarint_pos u
  rw [List.length_append]
  omega

/-- The loop of `wireDecodePath`. -/
def wireDecodePathFrom (path : List PeerPort) (bs : Bytes) : Option (List PeerPort × Bytes) :=
  match _chopped : wireChopUint bs with
  | none => none
  | some (u, rest) => if u = 0 then some (path, rest) else wireDecodePathFrom (path ++ [u]) rest
termination_by bs.length
decreasing_by exact length_lt_of_wireChopUint _chopped

/-- `wireDecodePath`: the path and how many bytes it takes. -/
def wireDecodePath (path : List PeerPort) (source : Bytes) : Option (List PeerPort × Nat) :=
  (wireDecodePathFrom path source).map fun (path, bs) => (path, source.length - bs.length)

/-- `wireChopPath`. -/
def wireChopPath : Chopper (List PeerPort) := fun data =>
  (wireDecodePath [] data).map fun (path, length) => (path, data.drop length)

/-- The bytes of a path. -/
def pathBytes (path : List PeerPort) : Bytes := path.flatMap putUvarint ++ putUvarint 0

/-- No port of the path is zero. -/
def Ported (path : List PeerPort) : Prop := ∀ port ∈ path, port ≠ 0

instance (path : List PeerPort) : Decidable (Ported path) :=
  List.decidableBAll (fun port => port ≠ 0) path

theorem wireAppendPath_eq (dest : Bytes) (path : List PeerPort) :
    wireAppendPath dest path = dest ++ pathBytes path := by
  have loop : ∀ dest : Bytes, path.foldl wireAppendUint dest = dest ++ path.flatMap putUvarint := by
    induction path with
    | nil => simp
    | cons port path ih =>
        intro dest
        simp [ih, wireAppendUint]
  rw [wireAppendPath, loop, wireAppendUint, List.append_assoc, pathBytes]

theorem wireSizePath_eq (path : List PeerPort) : wireSizePath path = (pathBytes path).length := by
  have loop : ∀ start : Nat, path.foldl (fun size port => size + wireSizeUint port) start =
      start + (path.flatMap putUvarint).length := by
    induction path with
    | nil => simp
    | cons port path ih =>
        intro start
        rw [List.foldl_cons, ih, List.flatMap_cons, List.length_append, wireSizeUint,
          Nat.add_assoc]
  rw [wireSizePath, loop, pathBytes, List.length_append, wireSizeUint, Nat.zero_add]

theorem wireDecodePathFrom_eq {bs rest : Bytes} {u : UInt64} (path : List PeerPort)
    (chopped : wireChopUint bs = some (u, rest)) :
    wireDecodePathFrom path bs =
      if u = 0 then some (path, rest) else wireDecodePathFrom (path ++ [u]) rest := by
  rw [wireDecodePathFrom]
  split
  · rename_i none
    rw [chopped] at none
    cases none
  · rename_i again
    rw [chopped] at again
    cases again
    rfl

theorem wireDecodePathFrom_append {path : List PeerPort} (before : List PeerPort) (rest : Bytes)
    (ported : Ported path) :
    wireDecodePathFrom before (pathBytes path ++ rest) = some (before ++ path, rest) := by
  induction path generalizing before with
  | nil =>
      have read : wireChopUint (putUvarint 0 ++ rest) = some (0, rest) :=
        chops_uint.chop_encode rest trivial
      rw [pathBytes, List.flatMap_nil, List.nil_append, wireDecodePathFrom_eq _ read, if_pos rfl,
        List.append_nil]
  | cons port path ih =>
      obtain ⟨nonzero, ported⟩ := List.forall_mem_cons.mp ported
      have read : wireChopUint (pathBytes (port :: path) ++ rest) =
          some (port, pathBytes path ++ rest) := by
        rw [pathBytes, List.flatMap_cons, List.append_assoc, List.append_assoc,
          chops_uint.chop_encode _ trivial, pathBytes, List.append_assoc]
      rw [wireDecodePathFrom_eq _ read, if_neg nonzero, ih _ ported, List.append_assoc,
        List.singleton_append]

theorem of_wireDecodePathFrom {before path : List PeerPort} {data rest : Bytes}
    (read : wireDecodePathFrom before data = some (path, rest)) :
    ∃ ports used, path = before ++ ports ∧ Ported ports ∧ data = used ++ rest ∧
      (pathBytes ports).length ≤ used.length := by
  induction before, data using wireDecodePathFrom.induct with
  | case1 before data none =>
      rw [wireDecodePathFrom] at read
      split at read
      · cases read
      · rename_i chopped
        rw [none] at chopped
        cases chopped
  | case2 before data left chopped =>
      rw [wireDecodePathFrom_eq _ chopped, if_pos rfl] at read
      cases read
      obtain ⟨-, used, rfl, shorter⟩ := chops_uint.of_chop chopped
      exact ⟨[], used, (List.append_nil _).symm, List.forall_mem_nil _, rfl, shorter⟩
  | case3 before data u left chopped nonzero ih =>
      rw [wireDecodePathFrom_eq _ chopped, if_neg nonzero] at read
      obtain ⟨ports, used, rfl, ported, rfl, shorter⟩ := ih read
      obtain ⟨-, front, rfl, shorter'⟩ := chops_uint.of_chop chopped
      refine ⟨u :: ports, front ++ used, by simp, List.forall_mem_cons.mpr ⟨nonzero, ported⟩,
        by simp, ?_⟩
      have front_used : (front ++ used).length = front.length + used.length :=
        List.length_append
      rw [pathBytes, List.flatMap_cons, List.append_assoc, List.length_append, front_used]
      exact Nat.add_le_add shorter' shorter

/-- Paths chopped off the front. -/
theorem chops_path : Chops pathBytes wireChopPath Ported where
  chop_encode := by
    intro path rest ported
    have read := wireDecodePathFrom_append [] rest ported
    have length : (pathBytes path ++ rest).length - rest.length = (pathBytes path).length := by
      rw [List.length_append, Nat.add_sub_cancel]
    simp only [wireChopPath, wireDecodePath, read, Option.map_some, List.nil_append, length,
      List.drop_left]
  of_chop := by
    intro data path rest chopped
    simp only [wireChopPath, wireDecodePath, Option.map_eq_some_iff, Prod.mk.injEq,
      Prod.exists] at chopped
    obtain ⟨path, length, ⟨path, left, read, rfl, rfl⟩, rfl, rfl⟩ := chopped
    obtain ⟨ports, used, rfl, ported, rfl, shorter⟩ := of_wireDecodePathFrom read
    refine ⟨ported, used, ?_, shorter⟩
    rw [List.length_append, Nat.add_sub_cancel, List.drop_left]

end Uqda.Network
