import Uqda.Addressing.Core
import Uqda.Bits.Octet
import Uqda.Wire.Tlv

/-!
# Version metadata and handshake confirmations

The embedding of `src/core/version.go`: the hello that opens a connection, its
decoder, and the confirmation that binds two hellos.

Every slice expression, big-endian read and `ed25519.Verify` call that can panic
in the source yields `Failure.fault` here, so that the absence of panics is a
statement about the model.  A reader is the list of the bytes it will deliver.
The signatures made and the verifications that succeeded are returned beside the
source's own results; this is bookkeeping of the model.
-/

namespace Uqda.Handshake

open Uqda.Addressing Uqda.Wire

/-- `ed25519.SignatureSize`. -/
def signatureSize : Nat := 64

/-- The bytes of an ASCII string. -/
def ascii (text : List Char) : Bytes :=
  text.map fun c => UInt8.ofNat c.toNat

/-- The primitives the handshake uses: Ed25519 and keyed BLAKE2b-512.  Only the
sizes of keys and signatures are fixed. -/
structure Crypto where
  PrivateKey : Type
  publicKey : PrivateKey → Bytes
  sign : PrivateKey → Bytes → Bytes
  verify : Bytes → Bytes → Bytes → Bool
  blake2b : Bytes → Bytes → Bytes
  length_publicKey : ∀ privateKey, (publicKey privateKey).length = publicKeySize
  length_sign : ∀ privateKey message, (sign privateKey message).length = signatureSize

/-- A signature made by an honest node: the signing key and what was hashed. -/
structure Signing where
  key : Bytes
  password : Bytes
  message : Bytes
  deriving DecidableEq

/-- An `ed25519.Verify` call that returned true, with what was hashed. -/
structure Verification where
  key : Bytes
  password : Bytes
  message : Bytes
  signature : Bytes
  deriving DecidableEq

/-- What was signed and what is checked have the same keyed hash only if they are the
same. -/
def Verification.NoCollision (c : Crypto) (check : Verification) (signing : Signing) : Prop :=
  c.blake2b signing.password signing.message = c.blake2b check.password check.message →
    signing.password = check.password ∧ signing.message = check.message

instance (c : Crypto) (check : Verification) (signing : Signing) :
    Decidable (check.NoCollision c signing) :=
  inferInstanceAs (Decidable (_ → _))

/-! ## Metadata -/

/-- `version_metadata`.  The defaults are Go's zero values. -/
structure VersionMetadata where
  majorVer : UInt16 := 0
  minorVer : UInt16 := 0
  publicKey : Bytes := []
  priority : UInt8 := 0
  nonce : Vector UInt8 32 := Vector.replicate 32 0
  capabilities : UInt32 := 0
  transcriptSignature : Bytes := []
  wire : Bytes := []
  deriving DecidableEq

/-- `ProtocolVersionMajor`. -/
def protocolVersionMajor : UInt16 := 0

/-- `ProtocolVersionMinor`. -/
def protocolVersionMinor : UInt16 := 5

/-- The operations `metaVersionMajor` to `metaTranscriptSignature`. -/
inductive MetaOp where
  | versionMajor
  | versionMinor
  | publicKey
  | priority
  | nonce
  | capabilities
  | transcriptSignature
  deriving DecidableEq, Repr

/-- The value of the constant. -/
def MetaOp.code : MetaOp → UInt16
  | .versionMajor => 0
  | .versionMinor => 1
  | .publicKey => 2
  | .priority => 3
  | .nonce => 4
  | .capabilities => 5
  | .transcriptSignature => 6

/-- The operation of a field, `none` for the operations the decoder skips. -/
def MetaOp.ofCode (code : UInt16) : Option MetaOp :=
  [.versionMajor, .versionMinor, .publicKey, .priority, .nonce, .capabilities,
    .transcriptSignature].find? fun op => op.code == code

/-- The length the decoder requires of a field. -/
def MetaOp.size : MetaOp → Nat
  | .versionMajor => 2
  | .versionMinor => 2
  | .publicKey => publicKeySize
  | .priority => 1
  | .nonce => 32
  | .capabilities => 4
  | .transcriptSignature => signatureSize

/-- `capabilityHandshakeConfirmation`. -/
def capabilityHandshakeConfirmation : UInt32 := 1

/-- `handshakeError`, as far as it is returned. -/
inductive HandshakeError where
  | invalidPreamble
  | invalidLength
  | invalidPassword
  | invalidSignature
  | invalidConfirmation
  deriving DecidableEq, Repr

/-- `handshakeError.Error`. -/
def HandshakeError.error : HandshakeError → String
  | .invalidPreamble => "invalid handshake, remote side is not UQDA"
  | .invalidLength => "invalid handshake length, possible version mismatch"
  | .invalidPassword => "invalid password supplied, check your config"
  | .invalidSignature => "handshake signature verification failed"
  | .invalidConfirmation => "handshake confirmation verification failed"

/-- Why a function of the handshake does not return a result.  `fault` is a
run-time panic, `keySize` the error of `blake2b.New512`, and the two read errors
are those of `io.ReadFull`. -/
inductive Failure where
  | fault
  | random
  | eof
  | unexpectedEOF
  | keySize
  | handshake (err : HandshakeError)
  deriving DecidableEq, Repr

/-- `confirmationSize`. -/
def confirmationSize : Nat := 4 + signatureSize

/-- `handshakeDomain`. -/
def handshakeDomain : Bytes :=
  ascii ['U', 'Q', 'D', 'A', '-', 'H', 'A', 'N', 'D', 'S', 'H', 'A', 'K', 'E', '-', 'V', '1',
    '\x00']

/-- `confirmationDomain`. -/
def confirmationDomain : Bytes :=
  ascii ['U', 'Q', 'D', 'A', '-', 'C', 'O', 'N', 'F', 'I', 'R', 'M', '-', 'V', '1', '\x00']

/-- `version_getBaseMetadata`. -/
def versionGetBaseMetadata : VersionMetadata :=
  { majorVer := protocolVersionMajor, minorVer := protocolVersionMinor }

/-- `supportsHandshakeConfirmation`. -/
def VersionMetadata.supportsHandshakeConfirmation (m : VersionMetadata) : Bool :=
  m.capabilities &&& capabilityHandshakeConfirmation != 0

/-- `check`. -/
def VersionMetadata.check (m : VersionMetadata) : Bool :=
  if m.majorVer ≠ protocolVersionMajor then
    false
  else if m.minorVer ≠ protocolVersionMinor then
    false
  else if m.publicKey.length ≠ publicKeySize then
    false
  else if m.supportsHandshakeConfirmation ∧ m.nonce = Vector.replicate 32 0 then
    false
  else
    true

/-! ## Hashes -/

/-- The sum of a hasher made by `blake2b.New512`, which rejects long keys. -/
def Crypto.sum512 (c : Crypto) (password message : Bytes) : Except Failure Bytes :=
  if password.length > 64 then .error .keySize else .ok (c.blake2b password message)

/-- `legacyHandshakeHash`. -/
def Crypto.legacyHandshakeHash (c : Crypto) (password publicKey : Bytes) :
    Except Failure Bytes :=
  c.sum512 password publicKey

/-- `handshakeHash`. -/
def Crypto.handshakeHash (c : Crypto) (password payload : Bytes) : Except Failure Bytes :=
  c.sum512 password (handshakeDomain ++ payload)

/-- What `confirmationHash` writes to the hasher: both wires, that of the smaller
key first. -/
def confirmationMessage (localMeta remoteMeta : VersionMetadata) : Bytes :=
  if List.compareLex compare localMeta.publicKey remoteMeta.publicKey = .gt then
    confirmationDomain ++ remoteMeta.wire ++ localMeta.wire
  else
    confirmationDomain ++ localMeta.wire ++ remoteMeta.wire

/-- `confirmationHash`. -/
def Crypto.confirmationHash (c : Crypto) (password : Bytes)
    (localMeta remoteMeta : VersionMetadata) : Except Failure Bytes :=
  if localMeta.wire.length = 0 ∨ remoteMeta.wire.length = 0 then
    .error (.handshake .invalidConfirmation)
  else
    c.sum512 password (confirmationMessage localMeta remoteMeta)

/-- `ed25519.Verify`, which panics on a key of the wrong size. -/
def Crypto.ed25519Verify (c : Crypto) (publicKey message sig : Bytes) : Except Failure Bool :=
  if publicKey.length ≠ publicKeySize then .error .fault
  else .ok (c.verify publicKey message sig)

/-! ## Encoding -/

/-- `binary.BigEndian.AppendUint16`. -/
def appendUint16 (bs : Bytes) (n : UInt16) : Bytes :=
  bs ++ bigEndian 2 n.toNat

/-- `binary.BigEndian.AppendUint32`. -/
def appendUint32 (bs : Bytes) (n : UInt32) : Bytes :=
  bs ++ bigEndian 4 n.toNat

/-- `binary.BigEndian.PutUint16(bs[4:6], n)`. -/
def putLength (bs : Bytes) (n : UInt16) : Bytes :=
  bs.take 4 ++ bigEndian 2 n.toNat ++ bs.drop 6

/-- The first four bytes of every hello. -/
def preamble : Bytes :=
  ascii ['m', 'e', 't', 'a']

/-- The hello up to the transcript signature, with an empty length. -/
def VersionMetadata.encodeFields (m : VersionMetadata) : Bytes :=
  let bs := preamble ++ [0, 0]
  let bs := appendUint16 (appendUint16 bs MetaOp.versionMajor.code) 2
  let bs := appendUint16 bs m.majorVer
  let bs := appendUint16 (appendUint16 bs MetaOp.versionMinor.code) 2
  let bs := appendUint16 bs m.minorVer
  let bs := appendUint16 (appendUint16 bs MetaOp.publicKey.code) (UInt16.ofNat publicKeySize)
  let bs := bs ++ m.publicKey
  let bs := appendUint16 (appendUint16 bs MetaOp.priority.code) 1
  let bs := bs ++ [m.priority]
  let bs := appendUint16 (appendUint16 bs MetaOp.nonce.code) (UInt16.ofNat m.nonce.toList.length)
  let bs := bs ++ m.nonce.toList
  let bs := appendUint16 (appendUint16 bs MetaOp.capabilities.code) 4
  appendUint32 bs m.capabilities

/-- A hello that was sent: the receiver `m` after the call and the bytes
returned, with the signatures made. -/
structure Encoded where
  m : VersionMetadata
  bytes : Bytes
  signed : List Signing

/-- `encode` once the nonce and the capabilities are set. -/
def VersionMetadata.encodeSigned (c : Crypto) (m : VersionMetadata)
    (privateKey : c.PrivateKey) (password : Bytes) : Except Failure Encoded := do
  let bs := m.encodeFields
  let hash ← c.handshakeHash password (bs.drop 6)
  let transcriptSignature := c.sign privateKey hash
  let signed : List Signing :=
    [⟨c.publicKey privateKey, password, handshakeDomain ++ bs.drop 6⟩,
      ⟨c.publicKey privateKey, password, m.publicKey⟩]
  let bs := appendUint16 bs MetaOp.transcriptSignature.code
  let bs := appendUint16 bs (UInt16.ofNat transcriptSignature.length)
  let bs := bs ++ transcriptSignature
  let legacyHash ← c.legacyHandshakeHash password m.publicKey
  let bs := bs ++ c.sign privateKey legacyHash
  let bs := putLength bs (UInt16.ofNat (bs.length - 6))
  return ⟨{ m with transcriptSignature := transcriptSignature, wire := bs }, bs, signed⟩

/-- `encode`.  The nonce is what `rand.Read` delivers, `none` if it fails. -/
def VersionMetadata.encode (c : Crypto) (m : VersionMetadata)
    (random : Option (Vector UInt8 32)) (privateKey : c.PrivateKey) (password : Bytes) :
    Except Failure Encoded :=
  match random with
  | none => .error .random
  | some nonce =>
      { m with nonce := nonce, capabilities := capabilityHandshakeConfirmation }.encodeSigned c
        privateKey password

/-! ## Decoding -/

/-- `io.ReadFull`: the bytes read and the bytes that remain.  On failure nothing
remains. -/
def readFull (r : Bytes) (n : Nat) : Except Failure (Bytes × Bytes) :=
  if n ≤ r.length then .ok (r.take n, r.drop n)
  else .error (if r.isEmpty then .eof else .unexpectedEOF)

/-- The slice expression `bs[low:high]`. -/
def slice (bs : Bytes) (low high : Nat) : Except Failure Bytes :=
  if low ≤ high ∧ high ≤ bs.length then .ok ((bs.take high).drop low) else .error .fault

/-- `binary.BigEndian.Uint16`. -/
def uint16 (bs : Bytes) : Except Failure UInt16 :=
  if 2 ≤ bs.length then .ok (UInt16.ofNat (ofBigEndian (bs.take 2))) else .error .fault

/-- `binary.BigEndian.Uint32`. -/
def uint32 (bs : Bytes) : Except Failure UInt32 :=
  if 4 ≤ bs.length then .ok (UInt32.ofNat (ofBigEndian (bs.take 4))) else .error .fault

/-- The assignment in the case of the switch for `op`. -/
def VersionMetadata.assign (m : VersionMetadata) (field : Bytes) :
    MetaOp → Except Failure VersionMetadata
  | .versionMajor => return { m with majorVer := ← uint16 field }
  | .versionMinor => return { m with minorVer := ← uint16 field }
  | .publicKey => return { m with publicKey := field }
  | .priority =>
      match field[0]? with
      | some priority => return { m with priority := priority }
      | none => .error .fault
  | .nonce => return { m with nonce := copyAt m.nonce 0 field }
  | .capabilities => return { m with capabilities := ← uint32 field }
  | .transcriptSignature => return { m with transcriptSignature := field }

/-- `append([]byte(nil), bs...)`, which is nil if there is nothing to append. -/
def appendToNil (bs : Bytes) : Option Bytes :=
  if bs.isEmpty then none else some bs

/-- The variables of the field loop in `decode`. -/
structure Loop where
  m : VersionMetadata
  signedFields : Option Bytes
  offset : Nat
  bs : Bytes

/-- The switch of the loop.  Fields with an unknown operation are skipped. -/
def Loop.switch (loop : Loop) (allFields : Bytes) (op : UInt16) (field : Bytes) :
    Except Failure Loop :=
  match MetaOp.ofCode op with
  | none => .ok loop
  | some .transcriptSignature => do
      if field.length ≠ signatureSize ∨ loop.signedFields.isSome then
        .error (.handshake .invalidLength)
      else
        let m ← loop.m.assign field .transcriptSignature
        let signed ← slice allFields 0 loop.offset
        return { loop with m := m, signedFields := appendToNil signed }
  | some op => do
      if field.length ≠ op.size then
        .error (.handshake .invalidLength)
      else
        return { loop with m := ← loop.m.assign field op }

/-- One iteration of the loop. -/
def Loop.step (loop : Loop) (allFields : Bytes) : Except Failure Loop := do
  if loop.signedFields.isSome then
    .error (.handshake .invalidLength)
  else
    let op ← uint16 (← slice loop.bs 0 2)
    let oplen ← uint16 (← slice loop.bs 2 4)
    let bs ← slice loop.bs 4 loop.bs.length
    if bs.length < oplen.toNat then
      .error (.handshake .invalidLength)
    else
      let field ← slice bs 0 oplen.toNat
      let loop ← loop.switch allFields op field
      let bs ← slice bs oplen.toNat bs.length
      return { loop with offset := loop.offset + (4 + oplen.toNat), bs := bs }

@[simp]
theorem ok_bind {ε α β : Type} (a : α) (second : α → Except ε β) :
    ((Except.ok a : Except ε α) >>= second) = second a :=
  rfl

theorem bind_eq_ok_iff {ε α β : Type} {first : Except ε α} {second : α → Except ε β} {b : β} :
    (first >>= second) = .ok b ↔ ∃ a, first = .ok a ∧ second a = .ok b := by
  cases first with
  | error err =>
      constructor
      · intro failed
        cases failed
      · rintro ⟨a, failed, -⟩
        cases failed
  | ok a =>
      constructor
      · exact fun ended => ⟨a, rfl, ended⟩
      · rintro ⟨b, equal, ended⟩
        cases equal
        exact ended

theorem slice_eq_ok_iff {bs part : Bytes} {low high : Nat} :
    slice bs low high = .ok part ↔
      (low ≤ high ∧ high ≤ bs.length) ∧ (bs.take high).drop low = part := by
  unfold slice
  split <;> simp [*]

/-- An iteration consumes at least the header of a field. -/
theorem Loop.length_of_step {loop target : Loop} {allFields : Bytes}
    (stepped : loop.step allFields = .ok target) : target.bs.length + 4 ≤ loop.bs.length := by
  unfold Loop.step at stepped
  split at stepped
  · cases stepped
  · simp only [bind_eq_ok_iff] at stepped
    obtain ⟨-, -, op, -, header, sliced, oplen, -, bs, rest, stepped⟩ := stepped
    obtain ⟨⟨-, fits⟩, -⟩ := slice_eq_ok_iff.mp sliced
    obtain ⟨-, rfl⟩ := slice_eq_ok_iff.mp rest
    split at stepped
    · cases stepped
    · simp only [bind_eq_ok_iff] at stepped
      obtain ⟨field, -, switched, -, tail, dropped, ended⟩ := stepped
      obtain ⟨-, rfl⟩ := slice_eq_ok_iff.mp dropped
      cases ended
      simp only [List.length_drop, List.length_take]
      omega

/-- The loop, which runs while there is room for a header. -/
def Loop.run (allFields : Bytes) (loop : Loop) : Except Failure Loop :=
  if 4 ≤ loop.bs.length then
    match _stepped : loop.step allFields with
    | .error err => .error err
    | .ok target => Loop.run allFields target
  else
    .ok loop
termination_by loop.bs.length
decreasing_by
  have shorter := Loop.length_of_step _stepped
  omega

/-- The last part of `decode`, after the loop. -/
def VersionMetadata.authenticate (c : Crypto) (m : VersionMetadata)
    (password sig : Bytes) (signedFields : Option Bytes) :
    Except Failure (VersionMetadata × List Verification) :=
  if m.publicKey.length ≠ publicKeySize then
    .error (.handshake .invalidLength)
  else
    match c.legacyHandshakeHash password m.publicKey with
    | .error _ => .error (.handshake .invalidPassword)
    | .ok legacyHash => do
        if !(← c.ed25519Verify m.publicKey legacyHash sig) then
          .error (.handshake .invalidSignature)
        else
          let legacy : Verification := ⟨m.publicKey, password, m.publicKey, sig⟩
          if m.supportsHandshakeConfirmation then
            match signedFields with
            | none => .error (.handshake .invalidSignature)
            | some signed =>
                if m.transcriptSignature.length ≠ signatureSize then
                  .error (.handshake .invalidSignature)
                else
                  match c.handshakeHash password signed with
                  | .error _ => .error (.handshake .invalidPassword)
                  | .ok hash => do
                      if !(← c.ed25519Verify m.publicKey hash m.transcriptSignature) then
                        .error (.handshake .invalidSignature)
                      else
                        .ok (m, [legacy, ⟨m.publicKey, password, handshakeDomain ++ signed,
                          m.transcriptSignature⟩])
          else
            .ok (m, [legacy])

/-- `decode` once the body has been read. -/
def VersionMetadata.decodeBody (c : Crypto) (m : VersionMetadata) (bs password : Bytes) :
    Except Failure (VersionMetadata × List Verification) :=
  if bs.length < signatureSize then
    .error .fault
  else do
    let sig ← slice bs (bs.length - signatureSize) bs.length
    let allFields ← slice bs 0 (bs.length - signatureSize)
    let loop ← Loop.run allFields ⟨m, none, 0, allFields⟩
    if loop.bs.length ≠ 0 then
      .error (.handshake .invalidLength)
    else
      loop.m.authenticate c password sig loop.signedFields

/-- The outcome of a decoder and what it leaves in the reader. -/
structure Decoding (α : Type) where
  result : Except Failure α
  unread : Bytes

/-- `decode`.  On success the receiver and the verifications made are returned. -/
def VersionMetadata.decode (c : Crypto) (m : VersionMetadata) (r password : Bytes) :
    Decoding (VersionMetadata × List Verification) :=
  match readFull r 6 with
  | .error err => ⟨.error err, []⟩
  | .ok (bh, r) =>
      if bh.take 4 ≠ preamble then
        ⟨.error (.handshake .invalidPreamble), r⟩
      else
        let hl := ofBigEndian (bh.drop 4)
        if hl < signatureSize then
          ⟨.error (.handshake .invalidLength), r⟩
        else
          match readFull r hl with
          | .error err => ⟨.error err, []⟩
          | .ok (bs, r) => ⟨{ m with wire := bh ++ bs }.decodeBody c bs password, r⟩

/-! ## Confirmations -/

/-- The first four bytes of every confirmation. -/
def confirmationPreamble : Bytes :=
  ascii ['c', 'o', 'n', 'f']

/-- `encodeConfirmation`, with the signature made. -/
def encodeConfirmation (c : Crypto) (privateKey : c.PrivateKey) (password : Bytes)
    (localMeta remoteMeta : VersionMetadata) : Except Failure (Bytes × Signing) := do
  let hash ← c.confirmationHash password localMeta remoteMeta
  return (confirmationPreamble ++ c.sign privateKey hash,
    ⟨c.publicKey privateKey, password, confirmationMessage localMeta remoteMeta⟩)

/-- `decodeConfirmation`, with the verification made. -/
def decodeConfirmation (c : Crypto) (r publicKey password : Bytes)
    (localMeta remoteMeta : VersionMetadata) : Decoding Verification :=
  if publicKey.length ≠ publicKeySize then
    ⟨.error (.handshake .invalidConfirmation), r⟩
  else
    match readFull r confirmationSize with
    | .error err => ⟨.error err, []⟩
    | .ok (bs, r) =>
        if bs.take 4 ≠ confirmationPreamble then
          ⟨.error (.handshake .invalidConfirmation), r⟩
        else
          match c.confirmationHash password localMeta remoteMeta with
          | .error err => ⟨.error err, r⟩
          | .ok hash =>
              match c.ed25519Verify publicKey hash (bs.drop 4) with
              | .error err => ⟨.error err, r⟩
              | .ok true =>
                  ⟨.ok ⟨publicKey, password, confirmationMessage localMeta remoteMeta,
                    bs.drop 4⟩, r⟩
              | .ok false => ⟨.error (.handshake .invalidConfirmation), r⟩

end Uqda.Handshake
