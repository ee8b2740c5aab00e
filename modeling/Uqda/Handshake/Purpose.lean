import Uqda.Handshake.Authentic

/-!
# The purposes of signatures

A node signs for three purposes: its public key in the legacy signature, the
fields of its hello in the transcript signature, and two hellos in a
confirmation.  The last two begin with a domain, the first has none, so it is its
length that keeps it apart: a public key is shorter than the fields of any hello
that has a key field, and shorter than any hello.  What a node signs for one
purpose is thus never what a receiver checks for another.
-/

namespace Uqda.Handshake

open Uqda.Addressing Uqda.Wire

/-- What a signature is for. -/
inductive Purpose where
  | legacy
  | transcript
  | confirmation
  deriving DecidableEq, Repr

/-- The same hash function and signatures, with every verification successful:
what is accepted is everything that would be accepted but for a signature. -/
def Crypto.lenient (c : Crypto) : Crypto :=
  { c with verify := fun _ _ _ => true }

/-- The node signs for the purpose: what is hashed, and the signature it sends.
Confirmations are of a hello it has encoded and one it has decoded. -/
inductive Purpose.Signs (c : Crypto) (privateKey : c.PrivateKey) :
    Purpose → Signing → Bytes → Prop where
  | legacy {m : VersionMetadata} {random password encoded signing}
      (size : m.publicKey.length = publicKeySize)
      (sent : m.encode c random privateKey password = .ok encoded)
      (second : encoded.signed[1]? = some signing) :
      Signs c privateKey .legacy signing
        (encoded.bytes.drop (encoded.bytes.length - signatureSize))
  | transcript {m : VersionMetadata} {random password encoded signing}
      (size : m.publicKey.length = publicKeySize)
      (sent : m.encode c random privateKey password = .ok encoded)
      (first : encoded.signed[0]? = some signing) :
      Signs c privateKey .transcript signing encoded.m.transcriptSignature
  | confirmation {m remoteMeta : VersionMetadata} {random helloPassword encoded}
      {stream remotePassword made password bytes signing}
      (size : m.publicKey.length = publicKeySize)
      (sent : m.encode c random privateKey helloPassword = .ok encoded)
      (decoded : (VersionMetadata.decode c {} stream remotePassword).result =
        .ok (remoteMeta, made))
      (confirmed : encodeConfirmation c privateKey password encoded.m remoteMeta =
        .ok (bytes, signing)) :
      Signs c privateKey .confirmation signing (bytes.drop 4)

/-- A receiver checks a signature for the purpose, and accepts. -/
inductive Purpose.Checks (c : Crypto) : Purpose → Verification → Prop where
  | legacy {stream password m made check}
      (decoded : (VersionMetadata.decode c {} stream password).result = .ok (m, made))
      (first : made[0]? = some check) : Checks c .legacy check
  | transcript {stream password m made check}
      (decoded : (VersionMetadata.decode c {} stream password).result = .ok (m, made))
      (second : made[1]? = some check) : Checks c .transcript check
  | confirmation {m remoteMeta : VersionMetadata} {random own helloPassword encoded}
      {stream remotePassword made r publicKey password check}
      (size : m.publicKey.length = publicKeySize)
      (sent : m.encode c random own helloPassword = .ok encoded)
      (decoded : (VersionMetadata.decode c {} stream remotePassword).result =
        .ok (remoteMeta, made))
      (confirmed : (decodeConfirmation c r publicKey password encoded.m remoteMeta).result =
        .ok check) : Checks c .confirmation check

/-- What messages hashed for the purpose look like. -/
def Purpose.Shape : Purpose → Bytes → Prop
  | .legacy, message => message.length = publicKeySize
  | .transcript, message =>
      publicKeySize < message.length ∧ ∃ fields, message = handshakeDomain ++ fields
  | .confirmation, message =>
      publicKeySize < message.length ∧ ∃ wires, message = confirmationDomain ++ wires

/-- The shape of a message tells its purpose. -/
theorem Purpose.Shape.unique {first second : Purpose} {message : Bytes}
    (isFirst : first.Shape message) (isSecond : second.Shape message) : first = second := by
  cases first with
  | legacy =>
      have short : message.length = publicKeySize := isFirst
      cases second with
      | legacy => rfl
      | transcript | confirmation => exact absurd short (Nat.ne_of_gt isSecond.1)
  | transcript =>
      obtain ⟨long, fields, domain⟩ := isFirst
      cases second with
      | legacy => exact absurd isSecond (Nat.ne_of_gt long)
      | transcript => rfl
      | confirmation =>
          obtain ⟨-, wires, other⟩ := isSecond
          exact absurd (domain.symm.trans other) (handshakeDomain_append_ne _ _)
  | confirmation =>
      obtain ⟨long, wires, domain⟩ := isFirst
      cases second with
      | legacy => exact absurd isSecond (Nat.ne_of_gt long)
      | transcript =>
          obtain ⟨-, fields, other⟩ := isSecond
          exact absurd (other.symm.trans domain) (handshakeDomain_append_ne _ _)
      | confirmation => rfl

/-! ## Signing -/

section Signing

variable {c : Crypto} {privateKey : c.PrivateKey}

theorem Purpose.shape_confirmation {localMeta : VersionMetadata} (isLocal : IsHello localMeta)
    (remoteMeta : VersionMetadata) :
    Purpose.confirmation.Shape (confirmationMessage localMeta remoteMeta) :=
  ⟨publicKeySize_lt_length_confirmationMessage isLocal, confirmationMessage_eq_append ..⟩

theorem isHello_of_encode {m : VersionMetadata} {random : Option (Vector UInt8 32)}
    {password : Bytes} {encoded : Encoded} (size : m.publicKey.length = publicKeySize)
    (sent : m.encode c random privateKey password = .ok encoded) : IsHello encoded.m := by
  obtain ⟨nonce, -, -, rfl⟩ := (VersionMetadata.encode_eq_ok_iff size).mp sent
  exact isHello_helloOf ..

/-- The last bytes of a hello are its legacy signature. -/
theorem drop_helloWire (m : VersionMetadata) (size : m.publicKey.length = publicKeySize)
    (password : Bytes) :
    (helloWire c m size privateKey password).drop
        ((helloWire c m size privateKey password).length - signatureSize) =
      c.sign privateKey (c.blake2b password m.publicKey) := by
  rw [helloWire, frame, ← List.append_assoc]
  refine List.drop_left' ?_
  simp only [List.length_append, c.length_sign, Nat.add_sub_cancel]

theorem Purpose.Signs.shape {purpose : Purpose} {signing : Signing} {signature : Bytes}
    (signs : purpose.Signs c privateKey signing signature) : purpose.Shape signing.message := by
  cases signs with
  | legacy size sent second =>
      obtain ⟨nonce, -, -, rfl⟩ := (VersionMetadata.encode_eq_ok_iff size).mp sent
      cases second
      exact size
  | transcript size sent first =>
      obtain ⟨nonce, -, -, rfl⟩ := (VersionMetadata.encode_eq_ok_iff size).mp sent
      cases first
      refine ⟨?_, _, rfl⟩
      rw [List.length_append, length_encodeAll_helloFields]
      decide
  | confirmation size sent decoded confirmed =>
      obtain ⟨hash, -, made⟩ := bind_eq_ok_iff.mp confirmed
      cases made
      exact Purpose.shape_confirmation (isHello_of_encode size sent) _

/-- The signature sent is that of the hash. -/
theorem Purpose.Signs.signature_eq {purpose : Purpose} {signing : Signing} {signature : Bytes}
    (signs : purpose.Signs c privateKey signing signature) :
    signature = c.sign privateKey (c.blake2b signing.password signing.message) := by
  cases signs with
  | legacy size sent second =>
      obtain ⟨nonce, -, -, rfl⟩ := (VersionMetadata.encode_eq_ok_iff size).mp sent
      cases second
      exact drop_helloWire ..
  | transcript size sent first =>
      obtain ⟨nonce, -, -, rfl⟩ := (VersionMetadata.encode_eq_ok_iff size).mp sent
      cases first
      rfl
  | confirmation size sent decoded confirmed =>
      obtain ⟨hash, hashed, made⟩ := bind_eq_ok_iff.mp confirmed
      obtain ⟨-, -, -, rfl⟩ := confirmationHash_eq_ok_iff.mp hashed
      cases made
      exact List.drop_left' rfl

end Signing

/-! ## Checking -/

section Checking

variable {c : Crypto} {stream password : Bytes} {m : VersionMetadata} {made : List Verification}

/-- The verifications of the decoder: the legacy signature over the public key
and, for a hello that advertises confirmations, the transcript signature over the
fields in front of it. -/
theorem decode_made
    (decoded : (VersionMetadata.decode c {} stream password).result = .ok (m, made)) :
    m.publicKey.length = publicKeySize ∧ ∃ sig,
      c.verify m.publicKey (c.blake2b password m.publicKey) sig = true ∧
      (made = [⟨m.publicKey, password, m.publicKey, sig⟩] ∨
        ∃ front, publicKeySize < (encodeAll front).length ∧
          c.verify m.publicKey (c.blake2b password (handshakeDomain ++ encodeAll front))
            m.transcriptSignature = true ∧
          made = [⟨m.publicKey, password, m.publicKey, sig⟩,
            ⟨m.publicKey, password, handshakeDomain ++ encodeAll front,
              m.transcriptSignature⟩]) := by
  obtain ⟨fields, sig, -, -, -, accepted, authenticated⟩ :=
    VersionMetadata.decode_eq_ok_iff.mp decoded
  rw [foldl_apply_eq_metadataOf] at authenticated
  obtain ⟨size, -, legacy, rfl, transcript⟩ :=
    VersionMetadata.authenticate_eq_ok_iff.mp authenticated
  refine ⟨size, sig, legacy, ?_⟩
  split at transcript
  · obtain ⟨signed, remembered, -, verified, rfl⟩ := transcript
    obtain ⟨front, last, rfl, signature, rfl⟩ := signedBytes_eq_encodeAll accepted remembered
    exact Or.inr ⟨front, publicKeySize_lt_length_of_key signature size, verified, rfl⟩
  · exact Or.inl transcript

theorem Purpose.Checks.shape {purpose : Purpose} {check : Verification}
    (checks : purpose.Checks c check) : purpose.Shape check.message := by
  cases checks with
  | legacy decoded first =>
      obtain ⟨size, sig, -, rfl | ⟨front, -, -, rfl⟩⟩ := decode_made decoded
      · cases first
        exact size
      · cases first
        exact size
  | transcript decoded second =>
      obtain ⟨size, sig, -, rfl | ⟨front, long, -, rfl⟩⟩ := decode_made decoded
      · cases second
      · cases second
        refine ⟨?_, _, rfl⟩
        rw [List.length_append]
        omega
  | confirmation size sent decoded confirmed =>
      obtain ⟨sig, rfl⟩ := decodeConfirmation_message confirmed
      exact Purpose.shape_confirmation (isHello_of_encode size sent) _

/-- What is accepted has been verified. -/
theorem Purpose.Checks.verified {purpose : Purpose} {check : Verification}
    (checks : purpose.Checks c check) :
    c.verify check.key (c.blake2b check.password check.message) check.signature = true := by
  cases checks with
  | legacy decoded first =>
      obtain ⟨-, sig, legacy, rfl | ⟨front, -, -, rfl⟩⟩ := decode_made decoded
      · cases first
        exact legacy
      · cases first
        exact legacy
  | transcript decoded second =>
      obtain ⟨-, sig, -, rfl | ⟨front, -, transcript, rfl⟩⟩ := decode_made decoded
      · cases second
      · cases second
        exact transcript
  | confirmation size sent decoded confirmed =>
      obtain ⟨-, -, -, -, sig, rest, -, -, verified, rfl⟩ :=
        decodeConfirmation_eq_ok_iff.mp confirmed
      exact verified

end Checking

/-- What a node hashes to sign for one purpose is never what a receiver hashes to
check a signature for another purpose, in any message that it would accept but for
the signatures.  The two hashes then differ unless they collide.  If in addition the
signature verifies only over the hash it was made for, it is not accepted for another
purpose. -/
theorem purposes_separated (c : Crypto) (privateKey : c.PrivateKey) (made checked : Purpose)
    (different : made ≠ checked) (signing : Signing) (signature : Bytes)
    (signs : made.Signs c privateKey signing signature) :
    (∀ check, checked.Checks c.lenient check →
      check.message ≠ signing.message ∧
        (check.NoCollision c signing →
          c.blake2b signing.password signing.message ≠
            c.blake2b check.password check.message)) ∧
    ∀ check, checked.Checks c check → check.key = c.publicKey privateKey →
      check.NoCollision c signing →
      (c.verify (c.publicKey privateKey) (c.blake2b check.password check.message)
          (c.sign privateKey (c.blake2b signing.password signing.message)) = true →
        c.blake2b signing.password signing.message =
          c.blake2b check.password check.message) →
      check.signature ≠ signature := by
  have apart {message : Bytes} (shape : checked.Shape message) : message ≠ signing.message := by
    rintro rfl
    exact different (signs.shape.unique shape)
  have hashes {check : Verification} (shape : checked.Shape check.message)
      (noCollision : check.NoCollision c signing) :
      c.blake2b signing.password signing.message ≠
        c.blake2b check.password check.message := by
    intro same
    exact apart shape (noCollision same).2.symm
  constructor
  · intro check checks
    exact ⟨apart checks.shape, hashes checks.shape⟩
  · intro check checks key noCollision binding reused
    refine hashes checks.shape noCollision (binding ?_)
    rw [← key, ← signs.signature_eq, ← reused]
    exact checks.verified

/-! ## A legacy signature and a transcript -/

/-- An injective stand-in for the keyed hash. -/
def pairing : Bytes → Bytes → Bytes
  | [], message => 0 :: message
  | byte :: password, message => 1 :: byte :: pairing password message

theorem pairing_injective (password message otherPassword otherMessage : Bytes)
    (same : pairing password message = pairing otherPassword otherMessage) :
    password = otherPassword ∧ message = otherMessage := by
  induction password generalizing otherPassword with
  | nil =>
      cases otherPassword with
      | nil => exact ⟨rfl, (List.cons.inj same).2⟩
      | cons other otherPassword => exact absurd (List.cons.inj same).1 (by decide)
  | cons byte password ih =>
      cases otherPassword with
      | nil => exact absurd (List.cons.inj same).1 (by decide)
      | cons other otherPassword =>
          obtain ⟨-, tail⟩ := List.cons.inj same
          obtain ⟨rfl, paired⟩ := List.cons.inj tail
          obtain ⟨rfl, rfl⟩ := ih otherPassword paired
          exact ⟨rfl, rfl⟩

/-- Primitives with that hash, in which only the legacy hash of the key 7 is
verified. -/
def pairingCrypto : Crypto :=
  { checksumCrypto with
    blake2b := pairing
    verify := fun _ hash _ => hash == pairing [] capableMeta.publicKey }

theorem length_capableMeta : capableMeta.publicKey.length = publicKeySize :=
  rfl

/-- The hello of the key 7 with these primitives. -/
def pairedHello : Encoded :=
  helloOf pairingCrypto capableMeta length_capableMeta (7 : UInt8) []

/-- What the node hashes for the legacy signature. -/
def legacySigning : Signing :=
  ⟨capableMeta.publicKey, [], capableMeta.publicKey⟩

/-- What a receiver checks of the hello for the transcript. -/
def transcriptCheck : Verification :=
  ⟨capableMeta.publicKey, [],
    handshakeDomain ++ encodeAll (helloFields capableMeta length_capableMeta),
    pairedHello.m.transcriptSignature⟩

/-- The legacy signature of the hello is not a transcript signature. -/
theorem legacySigning_not_transcript :
    Purpose.transcript.Checks pairingCrypto.lenient transcriptCheck ∧
      pairing [] legacySigning.message ≠ pairing [] transcriptCheck.message ∧
      ∀ check, Purpose.transcript.Checks pairingCrypto check →
        check.key = capableMeta.publicKey →
        check.signature ≠ pairedHello.bytes.drop (pairedHello.bytes.length - signatureSize) := by
  have encodes : VersionMetadata.encode pairingCrypto capableMeta
      (some (Vector.replicate 32 9)) (7 : UInt8) [] = .ok pairedHello :=
    (VersionMetadata.encode_eq_ok_iff rfl).mpr ⟨_, rfl, by decide, rfl⟩
  have decoded : (VersionMetadata.decode pairingCrypto.lenient {} pairedHello.bytes []).result =
      .ok (pairedHello.m, [⟨capableMeta.publicKey, [], capableMeta.publicKey,
        pairedHello.bytes.drop (pairedHello.bytes.length - signatureSize)⟩, transcriptCheck]) :=
    eq_ok_of_toOption (by decide +kernel)
  have checks : Purpose.transcript.Checks pairingCrypto.lenient transcriptCheck :=
    .transcript decoded rfl
  obtain ⟨inputs, accepted⟩ := purposes_separated pairingCrypto (7 : UInt8)
    .legacy .transcript (by decide) legacySigning _ (.legacy rfl encodes rfl)
  refine ⟨checks, (inputs transcriptCheck checks).2 (pairing_injective _ _ _ _), ?_⟩
  intro check checked key
  exact accepted check checked key (pairing_injective _ _ _ _)
    fun verified => (eq_of_beq verified).symm

end Uqda.Handshake
