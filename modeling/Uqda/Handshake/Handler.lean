import Uqda.Handshake.Authentic
import Uqda.Handshake.Session
import Uqda.Links.Core

/-!
# Which peers are admitted

`links.handler` of `src/core/link.go` from its first line to the call of
`core.HandleConn`, and `verifyTLSPeerIdentity` of `src/core/tls.go`.

The handler is given what the remote side will send and how each of its writes
and deadline calls ends.  The nonce is drawn beforehand, since `rand.Read` does
not fail.  What happens inside `HandleConn` is not modelled; the calls of it are
recorded.
-/

namespace Uqda.Handshake

open Uqda.Addressing Uqda.Links Uqda.Wire

/-- The public key in a certificate. -/
inductive CertificateKey where
  | ed25519 (key : Bytes)
  | other
  deriving DecidableEq, Repr

/-- A connection, as far as type assertions tell: a `*tls.Conn` with the
certificates of the peer, a `*linkConn` around another one, or something else. -/
inductive NetConn where
  | tls (peerCertificates : List CertificateKey)
  | tracked (conn : NetConn)
  | other

/-- The errors of `verifyTLSPeerIdentity`. -/
inductive IdentityError where
  /-- "TLS peer presented %d certificates, want exactly one" -/
  | certificates (count : Nat)
  /-- "TLS peer certificate does not contain an Ed25519 key" -/
  | notEd25519
  /-- "TLS peer certificate does not match UQDA identity" -/
  | mismatch
  deriving DecidableEq, Repr

/-- The connection inside a `*linkConn`. -/
def NetConn.untracked : NetConn → NetConn
  | .tracked conn => conn
  | conn => conn

/-- `verifyTLSPeerIdentity`. -/
def verifyTLSPeerIdentity (conn : NetConn) (expected : Bytes) : Except IdentityError Unit :=
  match conn.untracked with
  | .tls [.ed25519 peerKey] => if peerKey = expected then .ok () else .error .mismatch
  | .tls [.other] => .error .notEd25519
  | .tls peerCertificates => .error (.certificates peerCertificates.length)
  | _ => .ok ()

/-- `linkOptions`, as far as the handler reads them. -/
structure PeerOptions extends LinkOptions where
  pinnedEd25519Keys : List KeyArray

/-- What the handler is called with beside the options, and the `AllowedPublicKeys`
of the node. -/
structure Admission where
  linkType : LinkType
  isLocal : Bool
  conn : NetConn
  allowedPublicKeys : List KeyArray

/-- How the calls on the connection end: whether a deadline could be set, and how
many bytes a write accepted, `none` for an error. -/
structure Transport where
  setDeadline : Bool
  writeHandshake : Option Nat
  writeConfirmation : Option Nat
  clearDeadline : Bool

/-- Why the handler returned before `HandleConn`. -/
inductive Rejection where
  /-- "failed to generate handshake: %w" -/
  | generate (failure : Failure)
  /-- "failed to set handshake deadline: %w" -/
  | setDeadline
  /-- "write handshake: %w" or "incomplete handshake send" -/
  | writeHandshake
  | decode (failure : Failure)
  /-- "remote node incompatible version (local %s, remote %s)" -/
  | incompatibleVersion (majorVer minorVer : UInt16)
  | linkToSelf
  /-- "failed to generate handshake confirmation: %w" -/
  | generateConfirmation (failure : Failure)
  /-- "write handshake confirmation: %w" or "incomplete handshake confirmation send" -/
  | writeConfirmation
  /-- "verify handshake confirmation: %w" -/
  | verifyConfirmation (failure : Failure)
  /-- "peer does not support transcript-bound handshakes" -/
  | unsupported
  /-- "verify transport identity: %w" -/
  | identity (err : IdentityError)
  /-- "failed to clear handshake deadline: %w" -/
  | clearDeadline
  /-- "node public key that does not match pinned keys" -/
  | notPinned
  /-- "node public key %q is not in AllowedPublicKeys" -/
  | notAllowed (key : Bytes)
  deriving DecidableEq, Repr

/-- The key and the priority of a call of `core.HandleConn`. -/
structure HandleConn where
  key : Bytes
  priority : UInt8
  deriving DecidableEq, Repr

/-- The calls of `HandleConn` that a handler made, or why it made none. -/
structure Handled where
  calls : List HandleConn
  rejection : Option Rejection
  deriving DecidableEq, Repr

/-- The handler returns an error before it calls `HandleConn`. -/
def Handled.rejected (reason : Rejection) : Handled :=
  ⟨[], some reason⟩

/-- The handler after the handshake: the identity of the transport, the pins, the
allowed keys, and the call of `HandleConn` with the higher priority. -/
def Admission.finish (admission : Admission) (options : PeerOptions) (clearDeadline : Bool)
    (remoteMeta : VersionMetadata) : Handled :=
  match verifyTLSPeerIdentity admission.conn remoteMeta.publicKey with
  | .error err => .rejected (.identity err)
  | .ok () =>
      if !clearDeadline then
        .rejected .clearDeadline
      else if options.pinnedEd25519Keys.length > 0 ∧
          copyAt (Vector.replicate publicKeySize 0) 0 remoteMeta.publicKey ∉
            options.pinnedEd25519Keys then
        .rejected .notPinned
      else
        let allowed := admission.allowedPublicKeys
        let isallowed := allowed.length == 0 ||
          allowed.any fun key => key.toList == remoteMeta.publicKey
        if !admission.isLocal ∧ admission.linkType = .incoming ∧ !isallowed then
          .rejected (.notAllowed remoteMeta.publicKey)
        else
          let priority :=
            if remoteMeta.priority > options.priority then remoteMeta.priority
            else options.priority
          ⟨[⟨remoteMeta.publicKey, priority⟩], none⟩

section Handler

variable (c : Crypto) (owner : c.PrivateKey) (options : PeerOptions) (admission : Admission)
  (transport : Transport) (nonce : Vector UInt8 32) (stream : Bytes)

/-- The metadata that a handler encodes. -/
def handlerMeta : VersionMetadata :=
  { versionGetBaseMetadata with
    publicKey := c.publicKey owner
    priority := options.priority }

/-- `links.handler`. -/
def handler : Handled :=
  match (handlerMeta c owner options).encode c (some nonce) owner options.password with
  | .error failure => .rejected (.generate failure)
  | .ok encoded =>
      if !transport.setDeadline then
        .rejected .setDeadline
      else if transport.writeHandshake ≠ some encoded.bytes.length then
        .rejected .writeHandshake
      else
        let decoding := VersionMetadata.decode c {} stream options.password
        match decoding.result with
        | .error failure => .rejected (.decode failure)
        | .ok (remoteMeta, _) =>
            if !remoteMeta.check then
              .rejected (.incompatibleVersion remoteMeta.majorVer remoteMeta.minorVer)
            else if remoteMeta.publicKey = c.publicKey owner then
              .rejected .linkToSelf
            else if remoteMeta.supportsHandshakeConfirmation then
              match encodeConfirmation c owner options.password encoded.m remoteMeta with
              | .error failure => .rejected (.generateConfirmation failure)
              | .ok (confirmation, _) =>
                  if transport.writeConfirmation ≠ some confirmation.length then
                    .rejected .writeConfirmation
                  else
                    match (decodeConfirmation c decoding.unread remoteMeta.publicKey
                        options.password encoded.m remoteMeta).result with
                    | .error failure => .rejected (.verifyConfirmation failure)
                    | .ok _ => admission.finish options transport.clearDeadline remoteMeta
            else if options.requireSecure then
              .rejected .unsupported
            else
              admission.finish options transport.clearDeadline remoteMeta

end Handler

/-! ## After the handshake -/

/-- The key is the identity of a direct TLS carrier, it is among the pins if there
are any, and a link that comes in from elsewhere has an allowed key. -/
structure Admission.Permits (admission : Admission) (options : PeerOptions) (key : Bytes) :
    Prop where
  identity : ∀ certificates, admission.conn.untracked = .tls certificates →
    certificates = [.ed25519 key]
  pinned : options.pinnedEd25519Keys = [] ∨
    ∃ pin ∈ options.pinnedEd25519Keys, pin.toList = key
  allowed : admission.linkType = .incoming → admission.isLocal = false →
    admission.allowedPublicKeys = [] ∨
      ∃ entry ∈ admission.allowedPublicKeys, entry.toList = key

theorem verifyTLSPeerIdentity_eq_ok_iff {conn : NetConn} {expected : Bytes} :
    verifyTLSPeerIdentity conn expected = .ok () ↔
      ∀ certificates, conn.untracked = .tls certificates →
        certificates = [.ed25519 expected] := by
  unfold verifyTLSPeerIdentity
  split <;> simp_all

/-- The pins are compared with a copy of the key, which has its size. -/
theorem pinned_iff {pins : List KeyArray} {key : Bytes} (size : key.length = publicKeySize) :
    ¬ (pins.length > 0 ∧ copyAt (Vector.replicate publicKeySize 0) 0 key ∉ pins) ↔
      pins = [] ∨ ∃ pin ∈ pins, pin.toList = key := by
  obtain ⟨array, rfl⟩ : ∃ array : KeyArray, array.toList = key :=
    ⟨⟨key.toArray, size⟩, rfl⟩
  have listed : (∃ pin ∈ pins, pin.toList = array.toList) ↔ array ∈ pins := by
    simp [Vector.toList_inj]
  rw [copyAt_zero_toList, listed, gt_iff_lt, List.length_pos_iff, not_and_not_right]
  exact or_iff_not_imp_left.symm

theorem ite_gt_eq_max (first second : UInt8) :
    (if second > first then second else first) = max first second := by
  change _ = if first ≤ second then second else first
  by_cases greater : second > first
  · rw [if_pos greater, if_pos (UInt8.le_of_lt greater)]
  · by_cases le : first ≤ second
    · rw [if_neg greater, if_pos le]
      exact UInt8.le_antisymm le (UInt8.not_lt.mp greater)
    · rw [if_neg greater, if_neg le]

section Finish

variable {admission : Admission} {options : PeerOptions} {remoteMeta : VersionMetadata}

theorem Admission.allowed_iff {key : Bytes} :
    ¬ (!admission.isLocal ∧ admission.linkType = .incoming ∧
        !(admission.allowedPublicKeys.length == 0 ||
          admission.allowedPublicKeys.any fun entry => entry.toList == key)) ↔
      (admission.linkType = .incoming → admission.isLocal = false →
        admission.allowedPublicKeys = [] ∨
          ∃ entry ∈ admission.allowedPublicKeys, entry.toList = key) := by
  have matched : (admission.allowedPublicKeys.length == 0 ||
      admission.allowedPublicKeys.any fun entry => entry.toList == key) = true ↔
        admission.allowedPublicKeys = [] ∨
          ∃ entry ∈ admission.allowedPublicKeys, entry.toList = key := by
    simp
  rw [← matched]
  generalize (admission.allowedPublicKeys.length == 0 || _) = found
  cases admission.isLocal <;> cases found <;> simp

theorem Admission.finish_of_permits (size : remoteMeta.publicKey.length = publicKeySize)
    (permits : admission.Permits options remoteMeta.publicKey) :
    admission.finish options true remoteMeta =
      ⟨[⟨remoteMeta.publicKey, max options.priority remoteMeta.priority⟩], none⟩ := by
  simp only [Admission.finish, verifyTLSPeerIdentity_eq_ok_iff.mpr permits.identity]
  rw [if_neg (by simp), if_neg ((pinned_iff size).mpr permits.pinned),
    if_neg (Admission.allowed_iff.mpr permits.allowed), ite_gt_eq_max]

/-- The pins are checked once the transport is. -/
theorem Admission.finish_notPinned_iff
    (identity : verifyTLSPeerIdentity admission.conn remoteMeta.publicKey = .ok ()) :
    (admission.finish options true remoteMeta).rejection = some .notPinned ↔
      options.pinnedEd25519Keys.length > 0 ∧
        copyAt (Vector.replicate publicKeySize 0) 0 remoteMeta.publicKey ∉
          options.pinnedEd25519Keys := by
  simp only [Admission.finish, identity, Bool.not_true, Bool.false_eq_true, if_false]
  split
  case isTrue rejected => simp [Handled.rejected, rejected]
  case isFalse passed =>
    refine iff_of_false ?_ passed
    split <;> simp [Handled.rejected]

theorem not_mem_rejected {reason : Rejection} {call : HandleConn} :
    call ∉ (Handled.rejected reason).calls :=
  List.not_mem_nil

/-- A gate that rejects is behind a handler that calls. -/
theorem mem_calls_gate_iff {rejects : Prop} [Decidable rejects] {reason : Rejection}
    {handled : Handled} {call : HandleConn} :
    call ∈ (if rejects then .rejected reason else handled).calls ↔
      ¬rejects ∧ call ∈ handled.calls := by
  by_cases rejected : rejects
  · rw [if_pos rejected]
    exact iff_of_false not_mem_rejected fun passed => passed.1 rejected
  · rw [if_neg rejected]
    exact (and_iff_right rejected).symm

theorem Admission.permits_of_finish {clearDeadline : Bool} {call : HandleConn}
    (size : remoteMeta.publicKey.length = publicKeySize)
    (called : call ∈ (admission.finish options clearDeadline remoteMeta).calls) :
    clearDeadline = true ∧ admission.Permits options remoteMeta.publicKey := by
  unfold Admission.finish at called
  split at called
  · exact absurd called not_mem_rejected
  rename_i identity
  obtain ⟨cleared, called⟩ := mem_calls_gate_iff.mp called
  obtain ⟨pinned, called⟩ := mem_calls_gate_iff.mp called
  obtain ⟨allowed, -⟩ := mem_calls_gate_iff.mp called
  rw [Bool.not_eq_true', Bool.not_eq_false] at cleared
  exact ⟨cleared, verifyTLSPeerIdentity_eq_ok_iff.mp identity, (pinned_iff size).mp pinned,
    Admission.allowed_iff.mp allowed⟩

end Finish

/-! ## Admission -/

section Admission

variable (c : Crypto) (owner : c.PrivateKey) (options : PeerOptions) (admission : Admission)
  (transport : Transport) (nonce : Vector UInt8 32) (stream : Bytes)

/-- The hello that a handler sends. -/
def handlerHello : Encoded :=
  helloOf c
    { handlerMeta c owner options with
      nonce := nonce
      capabilities := capabilityHandshakeConfirmation }
    (c.length_publicKey owner) owner options.password

/-- The gates that a peer passes: `rest` is what follows its hello. -/
structure Admitted (remoteMeta : VersionMetadata) (rest : Bytes) : Prop where
  decoded : ∃ made, (VersionMetadata.decode c {} stream options.password).result =
    .ok (remoteMeta, made)
  received : stream = remoteMeta.wire ++ rest
  checked : remoteMeta.check = true
  foreign : remoteMeta.publicKey ≠ c.publicKey owner
  /-- A peer that advertises it confirms the two hellos that were exchanged. -/
  confirmed : remoteMeta.supportsHandshakeConfirmation = true →
    ∃ sig tail, sig.length = signatureSize ∧ rest = confirmationPreamble ++ sig ++ tail ∧
      c.verify remoteMeta.publicKey (c.blake2b options.password
        (confirmationMessage (handlerHello c owner options nonce).m remoteMeta)) sig = true
  insecure : remoteMeta.supportsHandshakeConfirmation = false → options.requireSecure = false
  permitted : admission.Permits options remoteMeta.publicKey
  deadlineSet : transport.setDeadline = true
  helloWritten : transport.writeHandshake =
    some (handlerHello c owner options nonce).bytes.length
  confirmationWritten : remoteMeta.supportsHandshakeConfirmation = true →
    transport.writeConfirmation = some confirmationSize
  deadlineCleared : transport.clearDeadline = true

variable {c owner options admission transport nonce stream}

theorem encode_handlerMeta_iff {encoded : Encoded} :
    (handlerMeta c owner options).encode c (some nonce) owner options.password = .ok encoded ↔
      options.password.length ≤ 64 ∧ encoded = handlerHello c owner options nonce := by
  have size : (handlerMeta c owner options).publicKey.length = publicKeySize :=
    c.length_publicKey owner
  simp [VersionMetadata.encode_eq_ok_iff size, handlerHello]

/-- The confirmation of a handler. -/
theorem encodeConfirmation_eq_ok_iff {password : Bytes} {localMeta remoteMeta : VersionMetadata}
    {result : Bytes × Signing} :
    encodeConfirmation c owner password localMeta remoteMeta = .ok result ↔
      localMeta.wire ≠ [] ∧ remoteMeta.wire ≠ [] ∧ password.length ≤ 64 ∧
        result = (confirmationPreamble ++
            c.sign owner (c.blake2b password (confirmationMessage localMeta remoteMeta)),
          ⟨c.publicKey owner, password, confirmationMessage localMeta remoteMeta⟩) := by
  rw [encodeConfirmation, bind_eq_ok_iff]
  simp only [confirmationHash_eq_ok_iff]
  constructor
  · rintro ⟨hash, ⟨localWire, remoteWire, short, rfl⟩, made⟩
    cases made
    exact ⟨localWire, remoteWire, short, rfl⟩
  · rintro ⟨localWire, remoteWire, short, rfl⟩
    exact ⟨_, ⟨localWire, remoteWire, short, rfl⟩, rfl⟩

/-- An accepted hello was decoded under a password that fits. -/
theorem password_of_decode {password : Bytes} {m : VersionMetadata} {made : List Verification}
    (decoded : (VersionMetadata.decode c {} stream password).result = .ok (m, made)) :
    password.length ≤ 64 := by
  obtain ⟨fields, sig, -, -, -, -, authenticated⟩ := VersionMetadata.decode_eq_ok_iff.mp decoded
  exact (VersionMetadata.authenticate_eq_ok_iff.mp authenticated).2.1

theorem IsHello.wire_ne_nil {m : VersionMetadata} (isHello : IsHello m) : m.wire ≠ [] :=
  List.ne_nil_of_length_pos (Nat.zero_lt_of_lt isHello.length_wire)

theorem handlerHello_isHello : IsHello (handlerHello c owner options nonce).m :=
  isHello_helloOf ..

theorem Admitted.handler_eq {remoteMeta : VersionMetadata} {rest : Bytes}
    (admitted : Admitted c owner options admission transport nonce stream remoteMeta rest) :
    handler c owner options admission transport nonce stream =
      ⟨[⟨remoteMeta.publicKey, max options.priority remoteMeta.priority⟩], none⟩ := by
  obtain ⟨made, decoded⟩ := admitted.decoded
  have short := password_of_decode decoded
  have encoded := encode_handlerMeta_iff.mpr
    ⟨short, (rfl : handlerHello c owner options nonce = _)⟩
  have size := (VersionMetadata.check_eq_true_iff.mp admitted.checked).2.2.1
  have finish := Admission.finish_of_permits size admitted.permitted
  have unread : (VersionMetadata.decode c {} stream options.password).unread = rest :=
    List.append_cancel_left ((decode_returns decoded).1.symm.trans admitted.received)
  unfold handler
  simp only [encoded, admitted.deadlineSet, admitted.helloWritten, decoded, admitted.checked,
    admitted.foreign, admitted.deadlineCleared, finish, unread, Bool.not_true,
    Bool.false_eq_true, if_false, ne_eq, not_true_eq_false]
  cases capable : remoteMeta.supportsHandshakeConfirmation with
  | true =>
      obtain ⟨sig, tail, sigSize, rfl, verified⟩ := admitted.confirmed capable
      have localWire := (@handlerHello_isHello c owner options nonce).wire_ne_nil
      have remoteWire := (isHello_of_decode decoded).wire_ne_nil
      have confirmation := encodeConfirmation_eq_ok_iff.mpr
        ⟨localWire, remoteWire, short, (rfl : (confirmationPreamble ++
          c.sign owner (c.blake2b options.password (confirmationMessage
            (handlerHello c owner options nonce).m remoteMeta)), _) = _)⟩
      have written : (confirmationPreamble ++ c.sign owner (c.blake2b options.password
          (confirmationMessage (handlerHello c owner options nonce).m remoteMeta))).length =
            confirmationSize := by
        rw [List.length_append, c.length_sign]
        rfl
      simp only [confirmation, written, admitted.confirmationWritten capable, if_true,
        not_true_eq_false, if_false,
        decodeConfirmation_of_verified size sigSize localWire remoteWire short verified]
  | false => simp only [admitted.insecure capable, Bool.false_eq_true, if_false]

theorem admitted_of_handler {call : HandleConn}
    (called : call ∈ (handler c owner options admission transport nonce stream).calls) :
    ∃ remoteMeta rest,
      Admitted c owner options admission transport nonce stream remoteMeta rest := by
  unfold handler at called
  split at called
  · exact absurd called not_mem_rejected
  rename_i encoded encodes
  obtain ⟨short, rfl⟩ := encode_handlerMeta_iff.mp encodes
  obtain ⟨deadlineSet, called⟩ := mem_calls_gate_iff.mp called
  obtain ⟨helloWritten, called⟩ := mem_calls_gate_iff.mp called
  simp only at called
  split at called
  · exact absurd called not_mem_rejected
  rename_i remoteMeta made decoded
  obtain ⟨checked, called⟩ := mem_calls_gate_iff.mp called
  obtain ⟨foreign, called⟩ := mem_calls_gate_iff.mp called
  rw [Bool.not_eq_true', Bool.not_eq_false] at deadlineSet checked
  have size := (VersionMetadata.check_eq_true_iff.mp checked).2.2.1
  have received := (decode_returns decoded).1
  split at called
  · -- the peer advertises confirmations
    rename_i capable
    split at called
    · exact absurd called not_mem_rejected
    rename_i confirmation signing confirms
    obtain ⟨-, -, -, made'⟩ := encodeConfirmation_eq_ok_iff.mp confirms
    cases made'
    obtain ⟨confirmationWritten, called⟩ := mem_calls_gate_iff.mp called
    split at called
    · exact absurd called not_mem_rejected
    rename_i check verifies
    obtain ⟨-, -, -, -, sig, tail, sigSize, follows, verified, -⟩ :=
      decodeConfirmation_eq_ok_iff.mp verifies
    obtain ⟨cleared, permits⟩ := Admission.permits_of_finish size called
    rw [ne_eq, not_not, List.length_append, c.length_sign] at confirmationWritten
    exact ⟨remoteMeta, _, ⟨made, decoded⟩, received, checked, foreign,
      fun _ => ⟨sig, tail, sigSize, follows, verified⟩,
      fun incapable => absurd (capable.symm.trans incapable) nofun, permits, deadlineSet,
      not_not.mp helloWritten, fun _ => confirmationWritten, cleared⟩
  · rename_i incapable
    obtain ⟨insecure, called⟩ := mem_calls_gate_iff.mp called
    obtain ⟨cleared, permits⟩ := Admission.permits_of_finish size called
    exact ⟨remoteMeta, _, ⟨made, decoded⟩, received, checked, foreign,
      fun capable => absurd capable incapable, fun _ => Bool.eq_false_iff.mpr insecure, permits,
      deadlineSet, not_not.mp helloWritten, fun capable => absurd capable incapable, cleared⟩

/-- The handler calls `HandleConn` exactly if the peer passes every gate, and then
once, with the key of the peer's hello and the higher of the two priorities. -/
theorem handler_admits_iff (c : Crypto) (owner : c.PrivateKey) (options : PeerOptions)
    (admission : Admission) (transport : Transport) (nonce : Vector UInt8 32) (stream : Bytes) :
    ((handler c owner options admission transport nonce stream).calls ≠ [] ↔
      ∃ remoteMeta rest,
        Admitted c owner options admission transport nonce stream remoteMeta rest) ∧
    ∀ remoteMeta rest,
      Admitted c owner options admission transport nonce stream remoteMeta rest →
        (handler c owner options admission transport nonce stream).calls =
          [⟨remoteMeta.publicKey, max options.priority remoteMeta.priority⟩] := by
  refine ⟨⟨fun called => ?_, ?_⟩, fun remoteMeta rest admitted => by rw [admitted.handler_eq]⟩
  · obtain ⟨call, member⟩ := List.exists_mem_of_ne_nil _ called
    exact admitted_of_handler member
  · rintro ⟨remoteMeta, rest, admitted⟩
    rw [admitted.handler_eq]
    exact List.cons_ne_nil _ _

end Admission

end Uqda.Handshake
