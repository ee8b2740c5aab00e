import Uqda.Addressing.Core
import Uqda.Wire.Text

/-!
# Protocol messages between nodes

The stateless part of `src/core/proto.go`, `src/core/nodeinfo.go` and `src/core/core.go`:
the types of packets, the switches that a received packet passes, and the packets that
answer a request.

A packet starts with a session type.  A protocol packet goes on with a protocol type,
and a debug message with a debug type, so that a debug response carries three bytes in
front of its payload.
-/

namespace Uqda.Proto

open Uqda.Addressing Uqda.Wire

/-! ## Types of packets -/

/-- `typeSessionTraffic`: the packet is for the IPv6 layer. -/
def typeSessionTraffic : UInt8 := 1

/-- `typeSessionProto`: the packet is for the protocol handler. -/
def typeSessionProto : UInt8 := 2

/-- `typeProtoNodeInfoRequest`. -/
def typeProtoNodeInfoRequest : UInt8 := 1

/-- `typeProtoNodeInfoResponse`. -/
def typeProtoNodeInfoResponse : UInt8 := 2

/-- `typeProtoDebug`: a debug type follows. -/
def typeProtoDebug : UInt8 := 255

/-- The debug requests. -/
inductive DebugKind where
  | self
  | peers
  | tree
  deriving DecidableEq, Repr

/-- `typeDebugGetSelfRequest`, `typeDebugGetPeersRequest` and `typeDebugGetTreeRequest`. -/
def DebugKind.requestType : DebugKind → UInt8
  | .self => 1
  | .peers => 3
  | .tree => 5

/-- `typeDebugGetSelfResponse`, `typeDebugGetPeersResponse` and
`typeDebugGetTreeResponse`. -/
def DebugKind.responseType : DebugKind → UInt8
  | .self => 2
  | .peers => 4
  | .tree => 6

/-- The requests to other nodes. -/
inductive Kind where
  | debug (kind : DebugKind)
  | nodeInfo
  deriving DecidableEq, Repr

/-! ## Receiving -/

/-- What `Core.ReadFrom` does with a packet. -/
inductive Session where
  | traffic (bs : Bytes)
  | proto (bs : Bytes)
  | dropped
  deriving DecidableEq, Repr

/-- The switch in `Core.ReadFrom`. -/
def readFrom : Bytes → Session
  | [] => .dropped
  | type :: bs =>
      if type = typeSessionTraffic then .traffic bs
      else if type = typeSessionProto then .proto bs
      else .dropped

/-- What `handleProto` does with a message. -/
inductive Message where
  | nodeInfoRequest
  | nodeInfoResponse (info : Bytes)
  | debug (bs : Bytes)
  | ignored
  deriving DecidableEq, Repr

/-- The switch in `protoHandler.handleProto`. -/
def handleProto : Bytes → Message
  | [] => .ignored
  | type :: bs =>
      if type = typeProtoNodeInfoRequest then .nodeInfoRequest
      else if type = typeProtoNodeInfoResponse then .nodeInfoResponse bs
      else if type = typeProtoDebug then .debug bs
      else .ignored

/-- What `_handleDebug` does with a message. -/
inductive DebugMessage where
  | request (kind : DebugKind)
  | response (kind : DebugKind) (bs : Bytes)
  | ignored
  deriving DecidableEq, Repr

/-- The switch in `protoHandler._handleDebug`. -/
def handleDebug : Bytes → DebugMessage
  | [] => .ignored
  | type :: bs =>
      if type = DebugKind.self.requestType then .request .self
      else if type = DebugKind.self.responseType then .response .self bs
      else if type = DebugKind.peers.requestType then .request .peers
      else if type = DebugKind.peers.responseType then .response .peers bs
      else if type = DebugKind.tree.requestType then .request .tree
      else if type = DebugKind.tree.responseType then .response .tree bs
      else .ignored

/-- The kind and the payload of a protocol message that is a response. -/
def responseOf (bs : Bytes) : Option (Kind × Bytes) :=
  match handleProto bs with
  | .nodeInfoResponse info => some (.nodeInfo, info)
  | .debug rest =>
      match handleDebug rest with
      | .response kind payload => some (.debug kind, payload)
      | _ => none
  | _ => none

/-- The kind and the payload of a packet that is a response. -/
def delivered (packet : Bytes) : Option (Kind × Bytes) :=
  match readFrom packet with
  | .proto bs => responseOf bs
  | _ => none

/-! ## Sending -/

/-- What the answers are made of: the MTU of the packet connection, the own node as JSON
unless that fails, the keys of the peers and of the tree, and the node info. -/
structure Environment where
  mtu : UInt64
  getSelf : Option Bytes
  getPeers : List Bytes
  getTree : List Bytes
  nodeInfo : Bytes

/-- `Core.MTU`. -/
def Environment.coreMTU (env : Environment) : UInt64 :=
  let mtu := env.mtu - 1
  if mtu > 65535 then 65535 else mtu

/-- The packet of `_sendDebug`. -/
def sendDebug (dType : UInt8) (data : Bytes) : Bytes :=
  [typeSessionProto, typeProtoDebug, dType] ++ data

/-- The loop over keys: it stops before the first key that does not fit. -/
def appendKeys (limit : UInt64) : Bytes → List Bytes → Bytes
  | bs, [] => bs
  | bs, key :: keys =>
      let tmp := bs ++ key
      if UInt64.ofNat tmp.length + 2 > limit then bs else appendKeys limit tmp keys

/-- `_handleGetSelfRequest`. -/
def Environment.handleGetSelfRequest (env : Environment) : Option Bytes :=
  env.getSelf.map (sendDebug DebugKind.self.responseType)

/-- `_handleGetPeersRequest`. -/
def Environment.handleGetPeersRequest (env : Environment) : Bytes :=
  sendDebug DebugKind.peers.responseType (appendKeys env.coreMTU [] env.getPeers)

/-- `_handleGetTreeRequest`. -/
def Environment.handleGetTreeRequest (env : Environment) : Bytes :=
  sendDebug DebugKind.tree.responseType (appendKeys env.coreMTU [] env.getTree)

/-- The packet that answers a debug request, if there is one. -/
def Environment.handleRequest (env : Environment) : DebugKind → Option Bytes
  | .self => env.handleGetSelfRequest
  | .peers => some env.handleGetPeersRequest
  | .tree => some env.handleGetTreeRequest

/-- The loop over the payload in `getPeersHandler` and `getTreeHandler`. -/
def splitKeys (bs : Bytes) : List Bytes :=
  if publicKeySize ≤ bs.length then
    hexEncode (bs.take publicKeySize) :: splitKeys (bs.drop publicKeySize)
  else
    []
termination_by bs.length
decreasing_by
  simp only [publicKeySize] at *
  simp only [List.length_drop]
  omega

end Uqda.Proto
