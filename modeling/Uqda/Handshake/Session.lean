import Uqda.Handshake.Core
import Uqda.Transition.Core

/-!
# Handshake sessions

The handshake part of `links.handler` in `src/core/link.go`, up to the point where
the remote metadata is authenticated, and the system of all handlers that honest
nodes run.

A handler is cut at its blocking reads: it encodes and sends its hello, then reads
the remote hello and answers it with a confirmation, then reads the remote
confirmation.  The network belongs to an adversary, who puts arbitrary bytes into
the connection of any handler at any time.  A deadline or a failed write ends a
handler between two reads.
-/

namespace Uqda.Handshake

open Uqda.Addressing Uqda.Transition

/-- The options of a link that the handshake reads. -/
structure LinkOptions where
  password : Bytes
  priority : UInt8
  requireSecure : Bool
  deriving DecidableEq

/-- Why a handler returned during the handshake.  `transport` is a failed write or
an expired deadline. -/
inductive HandlerError where
  | handshake (failure : Failure)
  | incompatibleVersion (majorVer minorVer : UInt16)
  | linkToSelf
  | confirmationUnsupported
  | transport
  deriving DecidableEq

/-- Where a handler stands.  `confirmed` and `unconfirmed` handlers have finished
the handshake, with and without a remote confirmation. -/
inductive Phase where
  | awaitingHello
  | awaitingConfirmation
  | confirmed
  | unconfirmed
  | failed (err : HandlerError)
  deriving DecidableEq

/-- The variables of a handler, and the bytes on their way to and from it. -/
structure Session (c : Crypto) where
  owner : c.PrivateKey
  options : LinkOptions
  localMeta : VersionMetadata
  remoteMeta : Option VersionMetadata
  phase : Phase
  inbox : Bytes
  outbox : Bytes

/-- What one section of a handler does. -/
structure Progress (c : Crypto) where
  session : Session c
  signed : List Signing
  verified : List Verification

/-- The handler up to its first read.  The result is the error with which it
returns, or the waiting handler. -/
def Session.start (c : Crypto) (owner : c.PrivateKey) (options : LinkOptions)
    (random : Option (Vector UInt8 32)) : Except HandlerError (Progress c) :=
  let localMeta := { versionGetBaseMetadata with
    publicKey := c.publicKey owner
    priority := options.priority }
  match localMeta.encode c random owner options.password with
  | .error failure => .error (.handshake failure)
  | .ok encoded => .ok
      { session :=
          { owner := owner
            options := options
            localMeta := encoded.m
            remoteMeta := none
            phase := .awaitingHello
            inbox := []
            outbox := encoded.bytes }
        signed := encoded.signed
        verified := [] }

variable {c : Crypto}

/-- The handler returns an error. -/
def Session.fail (session : Session c) (err : HandlerError) : Session c :=
  { session with phase := .failed err }

/-- The handler between its two reads, with the remote hello decoded: the checks,
and the confirmation if the remote side supports it. -/
def Session.answer (session : Session c) (remoteMeta : VersionMetadata) :
    Session c × List Signing :=
  if !remoteMeta.check then
    (session.fail (.incompatibleVersion remoteMeta.majorVer remoteMeta.minorVer), [])
  else if remoteMeta.publicKey = c.publicKey session.owner then
    (session.fail .linkToSelf, [])
  else if remoteMeta.supportsHandshakeConfirmation then
    match encodeConfirmation c session.owner session.options.password session.localMeta
        remoteMeta with
    | .error failure => (session.fail (.handshake failure), [])
    | .ok (confirmation, signing) =>
        ({ session with
            remoteMeta := some remoteMeta
            phase := .awaitingConfirmation
            outbox := session.outbox ++ confirmation }, [signing])
  else if session.options.requireSecure then
    (session.fail .confirmationUnsupported, [])
  else
    ({ session with remoteMeta := some remoteMeta, phase := .unconfirmed }, [])

/-- The handler reads the remote hello. -/
def Session.readHello (session : Session c) : Progress c :=
  let decoding := VersionMetadata.decode c {} session.inbox session.options.password
  let session := { session with inbox := decoding.unread }
  match decoding.result with
  | .error failure => ⟨session.fail (.handshake failure), [], []⟩
  | .ok (remoteMeta, verified) =>
      let (session, signed) := session.answer remoteMeta
      ⟨session, signed, verified⟩

/-- The handler reads the remote confirmation. -/
def Session.readConfirmation (session : Session c) (remoteMeta : VersionMetadata) :
    Progress c :=
  let decoding := decodeConfirmation c session.inbox remoteMeta.publicKey
    session.options.password session.localMeta remoteMeta
  let session := { session with inbox := decoding.unread }
  match decoding.result with
  | .error failure => ⟨session.fail (.handshake failure), [], []⟩
  | .ok check => ⟨{ session with phase := .confirmed }, [], [check]⟩

/-! ## The system -/

/-- All handlers that honest nodes have started, and the signatures these nodes
have made. -/
structure System (c : Crypto) where
  sessions : List (Session c)
  signed : List Signing

/-- A step of a handler or of the adversary. -/
inductive SystemEvent (c : Crypto) where
  | start (owner : c.PrivateKey) (options : LinkOptions) (random : Option (Vector UInt8 32))
  | inject (session : Nat) (bytes : Bytes)
  | readHello (session : Nat)
  | readConfirmation (session : Nat)
  | abort (session : Nat)

/-- The section that an event runs in a handler that is there. -/
def Session.section (session : Session c) : SystemEvent c → Option (Progress c)
  | .start .. => none
  | .inject _ bytes => some ⟨{ session with inbox := session.inbox ++ bytes }, [], []⟩
  | .readHello _ =>
      match session.phase with
      | .awaitingHello => some session.readHello
      | _ => none
  | .readConfirmation _ =>
      match session.phase, session.remoteMeta with
      | .awaitingConfirmation, some remoteMeta => some (session.readConfirmation remoteMeta)
      | _, _ => none
  | .abort _ =>
      match session.phase with
      | .awaitingHello | .awaitingConfirmation => some ⟨session.fail .transport, [], []⟩
      | _ => none

/-- The handler that an event concerns. -/
def SystemEvent.session : SystemEvent c → Option Nat
  | .start .. => none
  | .inject session _ => some session
  | .readHello session => some session
  | .readConfirmation session => some session
  | .abort session => some session

/-- The handler that an event concerns and what it does there. -/
def System.progress (system : System c) (event : SystemEvent c) :
    Option (Nat × Session c × Progress c) := do
  let number ← event.session
  let session ← system.sessions[number]?
  let progress ← session.section event
  return (number, session, progress)

/-- The transition function.  A handler that cannot encode its hello returns
without a trace. -/
def System.next : Step (System c) (SystemEvent c) := fun system event =>
  match event with
  | .start owner options random =>
      match Session.start c owner options random with
      | .error _ => some system
      | .ok progress => some
          { sessions := system.sessions ++ [progress.session]
            signed := system.signed ++ progress.signed }
  | event =>
      (system.progress event).map fun (number, _, progress) =>
        { sessions := system.sessions.set number progress.session
          signed := system.signed ++ progress.signed }

/-- No handler has been started. -/
def System.init (c : Crypto) : System c :=
  ⟨[], []⟩

end Uqda.Handshake
