import Uqda.Admin.Peers
import Uqda.Links.Options
import Uqda.Links.Removal
import Uqda.Wire.Json

/-!
# The handlers of the admin socket

The functions that are registered with `AddHandler`: by `New`, `SetupAdminHandlers` and
`logLookups` in `src/admin`, by `SetAdmin` in `src/core`, and by `SetupAdminHandlers` in
`src/multicast` and `src/tun`.  Each of them decodes its arguments in its own way.

Most handlers make a request, pass `json.Unmarshal` a pointer to the pointer and hand the
pointer on.  Arguments of `null` make that pointer nil.  Three of the handlers read a
field of the request, so they panic on it.  `removePeer` panics as well where
`links.remove` does.

What a handler reports about the node, or what another node answers, is given with each
call.
-/

namespace Uqda.Admin

open Uqda.Addressing Uqda.Links Uqda.Wire

/-- The handlers, in the order in which they are registered. -/
inductive HandlerName where
  | lookups
  | list
  | getNodeInfo
  | debugRemoteGetSelf
  | debugRemoteGetPeers
  | debugRemoteGetTree
  | getSelf
  | getPeers
  | doctor
  | getTree
  | getPaths
  | getSessions
  | addPeer
  | removePeer
  | getMulticastInterfaces
  | getTun
  deriving DecidableEq, Repr

/-- The name under which a handler is registered. -/
def HandlerName.name : HandlerName → String
  | .lookups => "lookups"
  | .list => "list"
  | .getNodeInfo => "getNodeInfo"
  | .debugRemoteGetSelf => "debug_remoteGetSelf"
  | .debugRemoteGetPeers => "debug_remoteGetPeers"
  | .debugRemoteGetTree => "debug_remoteGetTree"
  | .getSelf => "getSelf"
  | .getPeers => "getPeers"
  | .doctor => "doctor"
  | .getTree => "getTree"
  | .getPaths => "getPaths"
  | .getSessions => "getSessions"
  | .addPeer => "addPeer"
  | .removePeer => "removePeer"
  | .getMulticastInterfaces => "getMulticastInterfaces"
  | .getTun => "getTun"

/-! ## Requests -/

/-- `GetPeersRequest`. -/
structure GetPeersRequest where
  sortBy : String := ""

/-- `AddPeerRequest` and `RemovePeerRequest`. -/
structure PeerRequest where
  uri : String := ""
  sintf : String := ""

/-- `GetNodeInfoRequest` and the requests of the debug handlers. -/
structure KeyRequest where
  key : String := ""

/-- A request without fields. -/
def emptyRequest (package name : String) : RecordType Unit :=
  ⟨package, name, []⟩

/-- `GetPeersRequest` as `json` decodes it. -/
def getPeersRequest : RecordType GetPeersRequest :=
  ⟨"admin", "GetPeersRequest", [stringField "sort" fun req text => { req with sortBy := text }]⟩

/-- `AddPeerRequest` and `RemovePeerRequest` as `json` decodes them. -/
def peerRequest (name : String) : RecordType PeerRequest :=
  ⟨"admin", name,
    [stringField "uri" fun req text => { req with uri := text },
      stringField "interface" fun req text => { req with sintf := text }]⟩

/-- The requests with a key as `json` decodes them. -/
def keyRequest (name : String) : RecordType KeyRequest :=
  ⟨"core", name, [stringField "key" fun req text => { req with key := text }]⟩

/-! ## What a handler returns -/

/-- The value that a handler returns.  Those that are not modelled are in `other`. -/
inductive Result (ω : Type) where
  | peers (entries : List PeerEntry)
  | empty
  | other (value : ω)

/-- How a handler ends. -/
inductive Reply (ω : Type) where
  | ok (result : Result ω)
  | error (text : String)
  /-- The process ends. -/
  | panicked

/-- What a call finds: the peers of the node, what a handler that is not modelled further
returns for the key of a remote node, and the error of closing the connection of a link. -/
structure View (ω : Type) where
  peers : List PeerInfo
  answer : HandlerName → List UInt8 → Except String ω
  closeError : Option String

variable {ω : Type}

/-- The answer of a handler that is not modelled further, as a reply. -/
def View.reply (view : View ω) (handler : HandlerName) (key : List UInt8) : Reply ω :=
  match view.answer handler key with
  | .ok value => .ok (.other value)
  | .error err => .error err

/-- `AdminSocket`, with the functions of the standard library that it uses: how `json`
compares keys, `url.Parse`, the error of `hex.DecodeString`, `json.Marshal` and what the
links use. -/
structure AdminSocket (ω : Type) extends Library where
  handlers : List HandlerName
  equalFold : String → String → Bool
  urlParse : String → Except String Url
  hexError : String → String
  marshal : Result ω → Except String String
  links : Links.Library

/-- `a.handlers[reqname]`.  The first handler that is registered for a name is kept. -/
def AdminSocket.lookup (a : AdminSocket ω) (reqname : String) : Option HandlerName :=
  a.handlers.find? fun handler => a.toLower handler.name == reqname

/-! ## Handlers -/

/-- `if err := json.Unmarshal(..); err != nil { return nil, err }`. -/
def unmarshalled {α : Type} (core : State) (decoded : α × Option String)
    (body : α → Reply ω × State) : Reply ω × State :=
  match decoded with
  | (_, some err) => (.error err, core)
  | (req, none) => body req

/-- A handler that reports on the node and does not look at its request. -/
def AdminSocket.report (a : AdminSocket ω) (view : View ω) (core : State) (handler : HandlerName)
    (type : RecordType Unit) (input : Json) : Reply ω × State :=
  unmarshalled core (type.unmarshalPointer a.equalFold () input)
    fun _ => (view.reply handler [], core)

/-- `getPeersHandler`, which reads `req.SortBy`. -/
def AdminSocket.getPeers (a : AdminSocket ω) (view : View ω) : Option GetPeersRequest → Reply ω
  | some req => .ok (.peers (a.getPeersHandler req.sortBy view.peers))
  | none => .panicked

/-- `addPeerHandler`, which reads `req.Uri` and `req.Sintf`. -/
def AdminSocket.addPeerHandler (a : AdminSocket ω) (core : State) :
    Option PeerRequest → Reply ω × State
  | some req =>
      match a.urlParse req.uri with
      | .error err => (.error ("unable to parse peering URI: " ++ err), core)
      | .ok u =>
          match core.addPeer a.links u req.sintf .persistent with
          | (.error err, core) => (.error err.error, core)
          | (.ok _, core) => (.ok .empty, core)
  | none => (.panicked, core)

/-- `Core.RemovePeer`.  A connection is closed if the link has one. -/
def removePeer (view : View ω) (core : State) (info : LinkInfo) : Reply ω × State :=
  match core.table.remove info with
  | .failed err => (.error err.error, core)
  | .panicked => (.panicked, core)
  | .removed table =>
      let conn := (core.table.stored info).bind fun (_, link) => link.conn
      match conn.bind fun _ => view.closeError with
      | some err => (.error err, { core with table := table })
      | none => (.ok .empty, { core with table := table })

/-- `removePeerHandler`, which reads `req.Uri` and `req.Sintf`. -/
def AdminSocket.removePeerHandler (a : AdminSocket ω) (view : View ω) (core : State) :
    Option PeerRequest → Reply ω × State
  | some req =>
      match a.urlParse req.uri with
      | .error err => (.error ("unable to parse peering URI: " ++ err), core)
      | .ok u => removePeer view core (a.links.linkInfo u req.sintf)
  | none => (.panicked, core)

/-- The key of a remote node.  The text goes in front of the error of the decoder. -/
def AdminSocket.remoteKey (a : AdminSocket ω) (context key : String) :
    Except String (List UInt8) :=
  match hexDecode key.toUTF8.data.toList with
  | none => .error (context ++ a.hexError key)
  | some kbs => if kbs.length ≠ publicKeySize then .error "invalid public key length" else .ok kbs

/-- Ask the node that has the key. -/
def View.ask (view : View ω) (handler : HandlerName) (key : Except String (List UInt8)) :
    Reply ω :=
  match key with
  | .error err => .error err
  | .ok kbs => view.reply handler kbs

/-- `nodeInfoAdminHandler`. -/
def AdminSocket.nodeInfoAdminHandler (a : AdminSocket ω) (view : View ω) (req : KeyRequest) :
    Reply ω :=
  if req.key = "" then .error "no remote public key supplied"
  else view.ask .getNodeInfo (a.remoteKey "failed to decode public key: " req.key)

/-- The handlers of the protocol actor. -/
def AdminSocket.debugHandler (a : AdminSocket ω) (view : View ω) (core : State)
    (handler : HandlerName) (name : String) (input : Json) : Reply ω × State :=
  unmarshalled core ((keyRequest name).unmarshal a.equalFold {} input)
    fun req => (view.ask handler (a.remoteKey "" req.key), core)

/-- The registered functions. -/
def AdminSocket.handle (a : AdminSocket ω) (view : View ω) (core : State) (input : Json) :
    HandlerName → Reply ω × State
  | .lookups => (view.reply .lookups [], core)
  | .list => (view.reply .list [], core)
  | .getNodeInfo =>
      unmarshalled core ((keyRequest "GetNodeInfoRequest").unmarshal a.equalFold {} input)
        fun req => (a.nodeInfoAdminHandler view req, core)
  | .debugRemoteGetSelf =>
      a.debugHandler view core .debugRemoteGetSelf "DebugGetSelfRequest" input
  | .debugRemoteGetPeers =>
      a.debugHandler view core .debugRemoteGetPeers "DebugGetPeersRequest" input
  | .debugRemoteGetTree =>
      a.debugHandler view core .debugRemoteGetTree "DebugGetTreeRequest" input
  | .getSelf => a.report view core .getSelf (emptyRequest "admin" "GetSelfRequest") input
  | .getPeers =>
      unmarshalled core (getPeersRequest.unmarshalPointer a.equalFold {} input)
        fun req => (a.getPeers view req, core)
  | .doctor =>
      -- the pointer itself is passed, so that `null` leaves it alone
      unmarshalled core ((emptyRequest "admin" "DoctorRequest").unmarshal a.equalFold () input)
        fun _ => (view.reply .doctor [], core)
  | .getTree => a.report view core .getTree (emptyRequest "admin" "GetTreeRequest") input
  | .getPaths => a.report view core .getPaths (emptyRequest "admin" "GetPathsRequest") input
  | .getSessions =>
      a.report view core .getSessions (emptyRequest "admin" "GetSessionsRequest") input
  | .addPeer =>
      unmarshalled core ((peerRequest "AddPeerRequest").unmarshalPointer a.equalFold {} input)
        (a.addPeerHandler core)
  | .removePeer =>
      unmarshalled core ((peerRequest "RemovePeerRequest").unmarshalPointer a.equalFold {} input)
        (a.removePeerHandler view core)
  | .getMulticastInterfaces =>
      a.report view core .getMulticastInterfaces
        (emptyRequest "multicast" "GetMulticastInterfacesRequest") input
  | .getTun => a.report view core .getTun (emptyRequest "tun" "GetTUNRequest") input

/-! ## Panics -/

/-- The handlers that read a field of a request given by a pointer. -/
def HandlerName.dereferences : HandlerName → Bool
  | .getPeers | .addPeer | .removePeer => true
  | _ => false

/-- The arguments name a link that has no cancel function. -/
def AdminSocket.NamesUncancellable (a : AdminSocket ω) (core : State) (input : Json) : Prop :=
  ∃ req u, (peerRequest "RemovePeerRequest").unmarshal a.equalFold {} input = (req, none) ∧
    a.urlParse req.uri = .ok u ∧ core.table.Uncancellable (a.links.linkInfo u req.sintf)

/-- The arguments that a handler panics on. -/
def AdminSocket.Fatal (a : AdminSocket ω) (core : State) (handler : HandlerName) (input : Json) :
    Prop :=
  (handler.dereferences = true ∧ input = .null) ∨
    (handler = .removePeer ∧ a.NamesUncancellable core input)

section Panics

variable {a : AdminSocket ω} {view : View ω} {core : State} {input : Json}

theorem unmarshalled_panicked_iff {α : Type} {decoded : α × Option String}
    {body : α → Reply ω × State} :
    (unmarshalled core decoded body).1 = .panicked ↔
      decoded.2 = none ∧ (body decoded.1).1 = .panicked := by
  obtain ⟨req, err⟩ := decoded
  cases err <;> simp [unmarshalled]

@[simp]
theorem View.reply_ne_panicked (handler : HandlerName) (key : List UInt8) :
    view.reply handler key ≠ .panicked := by
  unfold View.reply
  split <;> simp

@[simp]
theorem View.ask_ne_panicked (handler : HandlerName) (key : Except String (List UInt8)) :
    view.ask handler key ≠ .panicked := by
  cases key <;> simp [View.ask]

theorem AdminSocket.nodeInfoAdminHandler_ne_panicked (req : KeyRequest) :
    a.nodeInfoAdminHandler view req ≠ .panicked := by
  unfold AdminSocket.nodeInfoAdminHandler
  split <;> simp

theorem AdminSocket.getPeers_panicked_iff {req : Option GetPeersRequest} :
    a.getPeers view req = .panicked ↔ req = none := by
  cases req <;> simp [AdminSocket.getPeers]

theorem AdminSocket.addPeerHandler_panicked_iff {req : Option PeerRequest} :
    (a.addPeerHandler core req : Reply ω × State).1 = .panicked ↔ req = none := by
  cases req with
  | none => simp [AdminSocket.addPeerHandler]
  | some req =>
      simp only [AdminSocket.addPeerHandler]
      cases a.urlParse req.uri with
      | error err => simp
      | ok u =>
          rcases added : core.addPeer a.links u req.sintf .persistent with ⟨_ | _, target⟩ <;>
            simp [added]

theorem removePeer_panicked_iff {info : LinkInfo} :
    (removePeer view core info).1 = .panicked ↔ core.table.Uncancellable info := by
  rw [← Table.remove_eq_panicked_iff]
  unfold removePeer
  cases core.table.remove info with
  | failed | panicked => simp
  | removed table =>
      dsimp only
      split <;> simp

theorem AdminSocket.removePeerHandler_panicked_iff {req : Option PeerRequest} :
    (a.removePeerHandler view core req).1 = .panicked ↔
      ∀ peer, req = some peer → ∃ u, a.urlParse peer.uri = .ok u ∧
        core.table.Uncancellable (a.links.linkInfo u peer.sintf) := by
  cases req with
  | none => simp [AdminSocket.removePeerHandler]
  | some peer =>
      simp only [AdminSocket.removePeerHandler]
      cases parsed : a.urlParse peer.uri <;> simp [parsed, removePeer_panicked_iff]

/-- A handler panics on exactly these arguments. -/
theorem AdminSocket.handle_panicked_iff (handler : HandlerName) :
    (a.handle view core input handler).1 = .panicked ↔ a.Fatal core handler input := by
  cases handler with
  | getPeers =>
      rw [AdminSocket.handle, unmarshalled_panicked_iff, AdminSocket.getPeers_panicked_iff,
        RecordType.unmarshalPointer_eq_none_iff]
      simp [AdminSocket.Fatal, HandlerName.dereferences]
  | addPeer =>
      rw [AdminSocket.handle, unmarshalled_panicked_iff, AdminSocket.addPeerHandler_panicked_iff,
        RecordType.unmarshalPointer_eq_none_iff]
      simp [AdminSocket.Fatal, HandlerName.dereferences]
  | removePeer =>
      rw [AdminSocket.handle, unmarshalled_panicked_iff,
        AdminSocket.removePeerHandler_panicked_iff]
      by_cases null : input = .null
      · simp [null, RecordType.unmarshalPointer, AdminSocket.Fatal, HandlerName.dereferences]
      · rw [RecordType.unmarshalPointer_of_ne_null null]
        simp [null, AdminSocket.Fatal, AdminSocket.NamesUncancellable, Prod.ext_iff]
  | getNodeInfo =>
      simp [AdminSocket.handle, unmarshalled_panicked_iff, AdminSocket.Fatal,
        HandlerName.dereferences, AdminSocket.nodeInfoAdminHandler_ne_panicked]
  | _ =>
      simp [AdminSocket.handle, AdminSocket.report, AdminSocket.debugHandler,
        unmarshalled_panicked_iff, AdminSocket.Fatal, HandlerName.dereferences]

end Panics

/-! ## The links -/

/-- The process runs, and the links are as they were or have made one step. -/
def Moved (core target : State) : Prop :=
  target.crashed = false ∧ (target = core ∨ ∃ event, core.next event = some target)

section Moved

variable {a : AdminSocket ω} {view : View ω} {core : State} {input : Json}

theorem Moved.refl (alive : core.crashed = false) : Moved core core :=
  ⟨alive, .inl rfl⟩

theorem unmarshalled_moved (alive : core.crashed = false) {α : Type}
    {decoded : α × Option String} {body : α → Reply ω × State}
    (moved : ∀ req, (body req).1 ≠ .panicked → Moved core (body req).2)
    (answered : (unmarshalled core decoded body).1 ≠ .panicked) :
    Moved core (unmarshalled core decoded body).2 := by
  obtain ⟨req, err⟩ := decoded
  cases err with
  | none => exact moved req answered
  | some err => exact .refl alive

theorem addPeer_moved (alive : core.crashed = false) (lib : Links.Library) (u : Url)
    (sintf : String) (linkType : LinkType) :
    Moved core (core.addPeer lib u sintf linkType).2 := by
  cases added : (core.addPeer lib u sintf linkType).1 with
  | error err =>
      rw [State.addPeer_of_error added]
      exact .refl alive
  | ok options =>
      have step : core.next (.add (lib.linkInfo u sintf) linkType) =
          some (core.addPeer lib u sintf linkType).2 := by
        rw [State.next, alive, if_neg Bool.false_ne_true, State.advance_of_addPeer added]
      have crashed := State.crashed_of_next alive step
      exact ⟨by simpa using crashed, .inr ⟨_, step⟩⟩

theorem AdminSocket.addPeerHandler_moved (alive : core.crashed = false)
    (req : Option PeerRequest) : Moved core (a.addPeerHandler core req).2 := by
  cases req with
  | none => exact .refl alive
  | some req =>
      simp only [AdminSocket.addPeerHandler]
      cases a.urlParse req.uri with
      | error err => exact .refl alive
      | ok u =>
          have moved := addPeer_moved alive a.links u req.sintf .persistent
          rcases added : core.addPeer a.links u req.sintf .persistent with ⟨_ | _, target⟩ <;>
            simpa [added] using moved

theorem removePeer_moved (alive : core.crashed = false) {info : LinkInfo}
    (answered : (removePeer view core info).1 ≠ .panicked) :
    Moved core (removePeer view core info).2 := by
  unfold removePeer at answered ⊢
  cases removed : core.table.remove info with
  | failed err => exact .refl alive
  | panicked =>
      rw [removed] at answered
      exact absurd rfl answered
  | removed table =>
      have step : core.next (.remove info) = some { core with table := table } := by
        simp [State.next, alive, State.advance, removed]
      have moved : Moved core { core with table := table } := ⟨alive, .inr ⟨_, step⟩⟩
      dsimp only
      split <;> exact moved

theorem AdminSocket.removePeerHandler_moved (alive : core.crashed = false)
    (req : Option PeerRequest) (answered : (a.removePeerHandler view core req).1 ≠ .panicked) :
    Moved core (a.removePeerHandler view core req).2 := by
  cases req with
  | none => exact .refl alive
  | some req =>
      simp only [AdminSocket.removePeerHandler] at answered ⊢
      cases parsed : a.urlParse req.uri with
      | error err => exact .refl alive
      | ok u =>
          rw [parsed] at answered
          exact removePeer_moved alive answered

/-- A handler that returns has made at most one step of the links. -/
theorem AdminSocket.handle_moved (alive : core.crashed = false) {handler : HandlerName}
    (answered : (a.handle view core input handler).1 ≠ .panicked) :
    Moved core (a.handle view core input handler).2 := by
  cases handler with
  | addPeer =>
      exact unmarshalled_moved alive (fun req _ => a.addPeerHandler_moved alive req) answered
  | removePeer => exact unmarshalled_moved alive (a.removePeerHandler_moved alive) answered
  | lookups | list => exact .refl alive
  | _ => exact unmarshalled_moved alive (fun _ _ => .refl alive) answered

end Moved

end Uqda.Admin
