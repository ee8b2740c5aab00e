import Uqda.Handshake.Encode

/-!
# What an accepted hello proves

A hello that advertises confirmations is covered by its transcript signature: the
signature is the last field and verifies over everything before it.  If the
signing key belongs to a node that signs only its own hellos and confirmations,
the signed bytes are the fields of one of its hellos, because no other message
that the node signs can take their place.
-/

namespace Uqda.Handshake

open Uqda.Addressing Uqda.Wire

/-! ## The signed prefix -/

/-- The signature that the loop remembers is the last field, and covers all
others. -/
theorem signedBytes_eq_encodeAll {before signed : Bytes} {fields : List Tlv}
    (accepted : Accepted before fields) (remembered : signedBytes before fields = some signed) :
    ∃ front last, fields = front ++ [last] ∧ IsSignature last ∧
      signed = before ++ encodeAll front := by
  induction fields generalizing before with
  | nil => cases remembered
  | cons field fields ih =>
      obtain ⟨-, last, accepted⟩ := accepted
      rw [signedBytes] at remembered
      split at remembered
      · rename_i here
        cases remembered
        rw [last here.1 here.2]
        exact ⟨[], field, rfl, here.1, by simp⟩
      · obtain ⟨front, final, rfl, signature, rfl⟩ := ih accepted remembered
        exact ⟨field :: front, final, rfl, signature, by simp⟩

/-- Of the fields before the last, only the first can be a transcript signature. -/
theorem Accepted.not_signature_of_mem_tail {front : List Tlv} {last field : Tlv}
    (accepted : Accepted [] (front ++ [last])) (member : field ∈ front.tail) :
    ¬ IsSignature field := by
  cases front with
  | nil => cases member
  | cons first front =>
      -- behind the first field the loop has consumed bytes
      have rest : Accepted ([] ++ first.encode) (front ++ [last]) := accepted.2.2
      have lastOnly := ((accepted_iff (flagged_append_encode [] first _)).mp rest).2
      rw [List.dropLast_concat] at lastOnly
      exact lastOnly field member

/-- An accepted hello that advertises confirmations ends with a transcript
signature that verifies over all fields before it. -/
theorem decode_capable {c : Crypto} {stream password : Bytes} {m : VersionMetadata}
    {made : List Verification}
    (decoded : (VersionMetadata.decode c {} stream password).result = .ok (m, made))
    (capable : m.supportsHandshakeConfirmation) :
    ∃ front last sig,
      stream = frame preamble (encodeAll (front ++ [last]) ++ sig) ++
        (VersionMetadata.decode c {} stream password).unread ∧
      (encodeAll (front ++ [last]) ++ sig).length < 2 ^ 16 ∧ sig.length = signatureSize ∧
      IsSignature last ∧ m = metadataOf m.wire (front ++ [last]) ∧
      m.publicKey.length = publicKeySize ∧ (∀ field ∈ front.tail, ¬ IsSignature field) ∧
      c.verify m.publicKey (c.blake2b password (handshakeDomain ++ encodeAll front))
        last.value = true ∧
      ⟨m.publicKey, password, handshakeDomain ++ encodeAll front, last.value⟩ ∈ made := by
  obtain ⟨fields, sig, bytes, fits, size, accepted, authenticated⟩ :=
    VersionMetadata.decode_eq_ok_iff.mp decoded
  rw [foldl_apply_eq_metadataOf] at authenticated
  obtain ⟨keySize, -, -, rfl, transcript⟩ :=
    VersionMetadata.authenticate_eq_ok_iff.mp authenticated
  rw [if_pos capable] at transcript
  obtain ⟨signed, remembered, -, verified, rfl⟩ := transcript
  obtain ⟨front, last, rfl, signature, rfl⟩ := signedBytes_eq_encodeAll accepted remembered
  have value : ∀ wire, (metadataOf wire (front ++ [last])).transcriptSignature = last.value := by
    intro wire
    simp [metadataOf, lastValue_signature_of_getLast? List.getLast?_concat signature]
  rw [value] at verified ⊢
  exact ⟨front, last, sig, bytes, fits, size, signature, rfl, keySize,
    fun field => accepted.not_signature_of_mem_tail, verified, by simp⟩

theorem rules_allHelloFields {c : Crypto} {m : VersionMetadata}
    {size : m.publicKey.length = publicKeySize} {privateKey : c.PrivateKey} {password : Bytes}
    (own : m.publicKey = c.publicKey privateKey)
    (signs : ∀ hash, c.verify (c.publicKey privateKey) hash (c.sign privateKey hash) = true)
    (short : password.length ≤ 64) :
    Rules c password (c.sign privateKey (c.blake2b password m.publicKey)) []
      (allHelloFields c m size privateKey password) where
  sized := sized_allHelloFields c m size privateKey password
  signatureLast := by
    rw [allHelloFields, List.dropLast_concat]
    simp [helloFields, IsSignature, MetaOp.code_inj]
  keyPresent := ⟨⟨MetaOp.publicKey.code, m.publicKey, by rw [size]; decide⟩,
    by simp [allHelloFields, helloFields], rfl⟩
  passwordFits := short
  legacy := by
    rw [keyOf_allHelloFields, own]
    exact signs _
  transcript _ := by
    refine ⟨_, List.getLast?_concat, isSignature_signatureField .., ?_⟩
    rw [keyOf_allHelloFields, allHelloFields, List.dropLast_concat, own]
    exact signs _

/-- The hello of an honest node is decoded to the metadata that were encoded. -/
theorem decode_helloWire {c : Crypto} {m : VersionMetadata}
    {size : m.publicKey.length = publicKeySize} {privateKey : c.PrivateKey} {password : Bytes}
    (own : m.publicKey = c.publicKey privateKey)
    (signs : ∀ hash, c.verify (c.publicKey privateKey) hash (c.sign privateKey hash) = true)
    (short : password.length ≤ 64) (rest : Bytes) :
    ∃ made, VersionMetadata.decode c {} (helloWire c m size privateKey password ++ rest) password =
      ⟨.ok ((helloOf c m size privateKey password).m, made), rest⟩ := by
  obtain ⟨made, decoded⟩ := decode_of_rules (framed_helloBody c m size privateKey password).2
    (c.length_sign ..) (rules_allHelloFields own signs short) rest
  rw [metadataOf_allHelloFields] at decoded
  exact ⟨made, decoded⟩

/-- A hello is read back from a stream as it was encoded, field by field and with its
wire, and nothing after it is read.  Its body fits the 16-bit length field. -/
theorem hello_roundTrip (c : Crypto) (privateKey : c.PrivateKey)
    (signs : ∀ hash, c.verify (c.publicKey privateKey) hash (c.sign privateKey hash) = true)
    (m : VersionMetadata) (own : m.publicKey = c.publicKey privateKey)
    (nonce : Vector UInt8 32) (password : Bytes) (short : password.length ≤ 64) (rest : Bytes) :
    ∃ encoded body made,
      m.encode c (some nonce) privateKey password = .ok encoded ∧
      encoded.m = { m with
        nonce := nonce
        capabilities := capabilityHandshakeConfirmation
        transcriptSignature := encoded.m.transcriptSignature
        wire := encoded.bytes } ∧
      encoded.bytes = preamble ++ bigEndian 2 body.length ++ body ∧ body.length < 2 ^ 16 ∧
      VersionMetadata.decode c {} (encoded.bytes ++ rest) password =
        ⟨.ok (encoded.m, made), rest⟩ := by
  have size : m.publicKey.length = publicKeySize := own ▸ c.length_publicKey privateKey
  have encodes := (@VersionMetadata.encode_eq_ok_iff c m (some nonce) privateKey password _
    size).mpr ⟨nonce, rfl, short, rfl⟩
  obtain ⟨made, decoded⟩ := @decode_helloWire c
    { m with nonce := nonce, capabilities := capabilityHandshakeConfirmation } size privateKey
    password own signs short rest
  have framed := framed_helloBody c
    { m with nonce := nonce, capabilities := capabilityHandshakeConfirmation } size privateKey
    password
  exact ⟨_, _, made, encodes, rfl, rfl, framed.2, decoded⟩

/-- The node with the key 7 sends a hello in front of three other bytes. -/
theorem hello_roundTrip_seven :
    ∃ encoded made,
      VersionMetadata.encode checksumCrypto
        { publicKey := checksumCrypto.publicKey (7 : UInt8), priority := 3 }
        (some (Vector.replicate 32 5)) (7 : UInt8) [1, 2] = .ok encoded ∧
      VersionMetadata.decode checksumCrypto {} (encoded.bytes ++ [9, 9, 9]) [1, 2] =
        ⟨.ok (encoded.m, made), [9, 9, 9]⟩ := by
  obtain ⟨encoded, -, made, encodes, -, -, -, decoded⟩ :=
    hello_roundTrip checksumCrypto (7 : UInt8) (checksumCrypto_verify_sign (7 : UInt8))
      { publicKey := checksumCrypto.publicKey (7 : UInt8), priority := 3 } rfl
      (Vector.replicate 32 5) [1, 2] (by decide) [9, 9, 9]
  exact ⟨encoded, made, encodes, decoded⟩

/-! ## Roles of signatures -/

/-- The domains differ in their sixth byte. -/
theorem handshakeDomain_append_ne (first second : Bytes) :
    handshakeDomain ++ first ≠ confirmationDomain ++ second := by
  intro same
  have bytes := congrArg (fun bs => bs[5]?) same
  rw [List.getElem?_append_left (by decide), List.getElem?_append_left (by decide)] at bytes
  exact absurd bytes (by decide)

theorem confirmationMessage_eq_append (localMeta remoteMeta : VersionMetadata) :
    ∃ wires, confirmationMessage localMeta remoteMeta = confirmationDomain ++ wires := by
  unfold confirmationMessage
  split
  · exact ⟨remoteMeta.wire ++ localMeta.wire, List.append_assoc ..⟩
  · exact ⟨localMeta.wire ++ remoteMeta.wire, List.append_assoc ..⟩

/-- A field is no longer than the sequence it occurs in. -/
theorem length_encode_le {field : Tlv} {fields : List Tlv} (member : field ∈ fields) :
    field.encode.length ≤ (encodeAll fields).length := by
  obtain ⟨front, back, rfl⟩ := List.append_of_mem member
  simp only [encodeAll_append, encodeAll_cons, List.length_append]
  omega

/-- Fields that carry a public key are longer than a public key. -/
theorem publicKeySize_lt_length_of_key {front : List Tlv} {last : Tlv}
    (signature : IsSignature last)
    (size : (keyOf (front ++ [last])).length = publicKeySize) :
    publicKeySize < (encodeAll front).length := by
  have other : ¬ last.tag = MetaOp.publicKey.code := by
    intro same
    rw [IsSignature, same] at signature
    exact absurd signature (by decide)
  rw [keyOf, lastValue_concat, if_neg other] at size
  cases found : lastValue .publicKey front with
  | none =>
      rw [found] at size
      cases size
  | some value =>
      rw [found] at size
      obtain ⟨field, member, -, rfl⟩ := exists_of_lastValue_eq_some found
      have length := length_encode_le member
      rw [field.length_encode] at length
      have size : field.value.length = publicKeySize := size
      omega

/-- Among the messages signed with a hello, only the transcript can be read as the
fields of a hello. -/
theorem transcript_of_mem_signed {c : Crypto} {m : VersionMetadata}
    {size : m.publicKey.length = publicKeySize} {privateKey : c.PrivateKey}
    {password : Bytes} {signing : Signing} {front : List Tlv}
    (made : signing ∈ (helloOf c m size privateKey password).signed)
    (message : signing.message = handshakeDomain ++ encodeAll front)
    (long : publicKeySize < (encodeAll front).length) :
    signing.password = password ∧ front = helloFields m size := by
  simp only [helloOf, List.mem_cons, List.not_mem_nil, or_false] at made
  rcases made with rfl | rfl
  · refine ⟨rfl, (encodeAll_injective ?_).symm⟩
    exact List.append_cancel_left message
  · have length := congrArg List.length message
    rw [List.length_append] at length
    have size : m.publicKey.length = publicKeySize := size
    have message : m.publicKey.length = handshakeDomain.length + (encodeAll front).length := length
    omega

/-! ## Metadata that belong to a hello -/

/-- The metadata are those of the hello in their `wire` field. -/
def IsHello (m : VersionMetadata) : Prop :=
  ∃ fields sig, m.wire = frame preamble (encodeAll fields ++ sig) ∧
    (encodeAll fields ++ sig).length < 2 ^ 16 ∧ sig.length = signatureSize ∧
    m = metadataOf m.wire fields

/-- The wire of a hello can be split off in one way only, and determines the
metadata. -/
theorem IsHello.append_inj {first second : VersionMetadata} {rest otherRest : Bytes}
    (isFirst : IsHello first) (isSecond : IsHello second)
    (same : first.wire ++ rest = second.wire ++ otherRest) :
    first = second ∧ rest = otherRest := by
  obtain ⟨fields, sig, wire, fits, size, fromFields⟩ := isFirst
  obtain ⟨others, otherSig, otherWire, otherFits, otherSize, fromOthers⟩ := isSecond
  rw [wire, otherWire] at same
  obtain ⟨rfl, rfl, rests⟩ := hello_append_inj fits otherFits (size.trans otherSize.symm) same
  refine ⟨?_, rests⟩
  rw [fromFields, fromOthers, wire, otherWire]

theorem IsHello.eq_of_wire {first second : VersionMetadata} (isFirst : IsHello first)
    (isSecond : IsHello second) (same : first.wire = second.wire) : first = second :=
  (isFirst.append_inj isSecond (congrArg (· ++ []) same)).1

theorem IsHello.length_wire {m : VersionMetadata} (isHello : IsHello m) :
    signatureSize < m.wire.length := by
  obtain ⟨fields, sig, wire, -, size, -⟩ := isHello
  rw [wire, length_frame, List.length_append, size, length_preamble]
  omega

theorem isHello_of_decode {stream password : Bytes} {c : Crypto} {m : VersionMetadata}
    {made : List Verification}
    (decoded : (VersionMetadata.decode c {} stream password).result = .ok (m, made)) :
    IsHello m := by
  obtain ⟨fields, sig, -, fits, size, -, authenticated⟩ :=
    VersionMetadata.decode_eq_ok_iff.mp decoded
  rw [foldl_apply_eq_metadataOf] at authenticated
  obtain ⟨-, -, -, rfl, -⟩ := VersionMetadata.authenticate_eq_ok_iff.mp authenticated
  exact ⟨fields, sig, rfl, fits, size, rfl⟩

theorem isHello_helloOf (c : Crypto) (m : VersionMetadata)
    (size : m.publicKey.length = publicKeySize) (privateKey : c.PrivateKey) (password : Bytes) :
    IsHello (helloOf c m size privateKey password).m :=
  ⟨allHelloFields c m size privateKey password,
    c.sign privateKey (c.blake2b password m.publicKey), rfl,
    (framed_helloBody c m size privateKey password).2, c.length_sign ..,
    (metadataOf_helloFields m size _ (isSignature_signatureField ..)).symm⟩

/-! ## What a confirmation covers -/

/-- Equal confirmation messages cover the same two hellos, in one of two orders. -/
theorem confirmationMessage_inj {localMeta remoteMeta otherLocal otherRemote : VersionMetadata}
    (isLocal : IsHello localMeta) (isRemote : IsHello remoteMeta)
    (isOtherLocal : IsHello otherLocal) (isOtherRemote : IsHello otherRemote)
    (same : confirmationMessage localMeta remoteMeta =
      confirmationMessage otherLocal otherRemote) :
    (localMeta = otherLocal ∧ remoteMeta = otherRemote) ∨
      (localMeta = otherRemote ∧ remoteMeta = otherLocal) := by
  unfold confirmationMessage at same
  split at same <;> split at same <;>
    simp only [List.append_assoc, List.append_cancel_left_eq] at same
  · obtain ⟨remotes, locals⟩ := isRemote.append_inj isOtherRemote same
    exact Or.inl ⟨isLocal.eq_of_wire isOtherLocal locals, remotes⟩
  · obtain ⟨crossed, wires⟩ := isRemote.append_inj isOtherLocal same
    exact Or.inr ⟨isLocal.eq_of_wire isOtherRemote wires, crossed⟩
  · obtain ⟨crossed, wires⟩ := isLocal.append_inj isOtherRemote same
    exact Or.inr ⟨crossed, isRemote.eq_of_wire isOtherLocal wires⟩
  · obtain ⟨locals, remotes⟩ := isLocal.append_inj isOtherLocal same
    exact Or.inl ⟨locals, isRemote.eq_of_wire isOtherRemote remotes⟩

/-- A confirmation message is longer than a public key. -/
theorem publicKeySize_lt_length_confirmationMessage {localMeta remoteMeta : VersionMetadata}
    (isLocal : IsHello localMeta) :
    publicKeySize < (confirmationMessage localMeta remoteMeta).length := by
  have long := isLocal.length_wire
  have sizes : publicKeySize < signatureSize := by decide
  unfold confirmationMessage
  split <;> simp only [List.length_append] <;> omega

/-! ## Confirmations -/

section Confirmation

variable {c : Crypto} {r publicKey password : Bytes} {localMeta remoteMeta : VersionMetadata}
  {check : Verification}

theorem confirmationHash_eq_ok_iff {hash : Bytes} :
    c.confirmationHash password localMeta remoteMeta = .ok hash ↔
      localMeta.wire ≠ [] ∧ remoteMeta.wire ≠ [] ∧ password.length ≤ 64 ∧
        c.blake2b password (confirmationMessage localMeta remoteMeta) = hash := by
  unfold Crypto.confirmationHash Crypto.sum512
  by_cases wires : localMeta.wire.length = 0 ∨ remoteMeta.wire.length = 0
  · rw [if_pos wires]
    simp only [List.length_eq_zero_iff] at wires
    constructor
    · nofun
    · rintro ⟨localWire, remoteWire, -⟩
      exact absurd wires (not_or.mpr ⟨localWire, remoteWire⟩)
  · rw [if_neg wires]
    simp only [List.length_eq_zero_iff, not_or] at wires
    by_cases short : password.length ≤ 64
    · simp [wires, short, Nat.not_lt_of_le short]
    · simp [short, Nat.lt_of_not_le short]

theorem decodeConfirmation_of_verified {sig rest : Bytes}
    (size : publicKey.length = publicKeySize) (sigSize : sig.length = signatureSize)
    (localWire : localMeta.wire ≠ []) (remoteWire : remoteMeta.wire ≠ [])
    (short : password.length ≤ 64)
    (verified : c.verify publicKey
      (c.blake2b password (confirmationMessage localMeta remoteMeta)) sig = true) :
    decodeConfirmation c (confirmationPreamble ++ sig ++ rest) publicKey password localMeta
        remoteMeta =
      ⟨.ok ⟨publicKey, password, confirmationMessage localMeta remoteMeta, sig⟩, rest⟩ := by
  have hash := confirmationHash_eq_ok_iff.mpr
    ⟨localWire, remoteWire, short, (rfl : c.blake2b password _ = _)⟩
  have read : readFull (confirmationPreamble ++ sig ++ rest) confirmationSize =
      .ok (confirmationPreamble ++ sig, rest) :=
    readFull_append (by rw [List.length_append, sigSize]; rfl)
  have front : (confirmationPreamble ++ sig).take 4 = confirmationPreamble := List.take_left' rfl
  have back : (confirmationPreamble ++ sig).drop 4 = sig := List.drop_left' rfl
  simp only [decodeConfirmation, size, ne_eq, not_true_eq_false, if_false, read, front, hash,
    Crypto.ed25519Verify, back, verified]

/-- A confirmation is accepted exactly if it has its preamble and its signature
verifies over both hellos. -/
theorem decodeConfirmation_eq_ok_iff :
    (decodeConfirmation c r publicKey password localMeta remoteMeta).result = .ok check ↔
      publicKey.length = publicKeySize ∧ localMeta.wire ≠ [] ∧ remoteMeta.wire ≠ [] ∧
        password.length ≤ 64 ∧ ∃ sig rest, sig.length = signatureSize ∧
        r = confirmationPreamble ++ sig ++ rest ∧
        c.verify publicKey
          (c.blake2b password (confirmationMessage localMeta remoteMeta)) sig = true ∧
        check = ⟨publicKey, password, confirmationMessage localMeta remoteMeta, sig⟩ := by
  constructor
  · intro decoded
    unfold decodeConfirmation at decoded
    split at decoded
    · cases decoded
    rename_i size
    split at decoded
    · cases decoded
    rename_i bs rest read
    split at decoded
    · cases decoded
    rename_i front
    split at decoded
    · cases decoded
    rename_i hash hashed
    obtain ⟨localWire, remoteWire, short, rfl⟩ := confirmationHash_eq_ok_iff.mp hashed
    split at decoded
    · cases decoded
    · rename_i verified
      obtain ⟨total, rfl⟩ := readFull_eq_ok_iff.mp read
      cases decoded
      rw [Crypto.ed25519Verify, if_neg size, Except.ok.injEq] at verified
      refine ⟨not_not.mp size, localWire, remoteWire, short, bs.drop 4, rest, ?_, ?_, verified, rfl⟩
      · rw [List.length_drop, total]
        rfl
      · rw [← not_not.mp front, List.take_append_drop]
    · cases decoded
  · rintro ⟨size, localWire, remoteWire, short, sig, rest, sigSize, rfl, verified, rfl⟩
    rw [decodeConfirmation_of_verified size sigSize localWire remoteWire short verified]

theorem decodeConfirmation_message
    (decoded : (decodeConfirmation c r publicKey password localMeta remoteMeta).result =
      .ok check) :
    ∃ sig, check = ⟨publicKey, password, confirmationMessage localMeta remoteMeta, sig⟩ := by
  obtain ⟨-, -, -, -, sig, -, -, -, -, message⟩ := decodeConfirmation_eq_ok_iff.mp decoded
  exact ⟨sig, message⟩

end Confirmation

/-! ## Authentic hellos -/

/-- Assume that every signature verified under a node's key was made by the node,
which signs only in `encode` and `encodeConfirmation`, and that hashes verified do
not collide with hashes signed.  Then an accepted hello with the node's key that
advertises confirmations has the metadata of a hello the node has encoded under
the same password. -/
theorem capable_hello_authentic {c : Crypto} {privateKey : c.PrivateKey}
    {hellos : List Encoded} {confirmations : List Signing}
    (encodedHere : ∀ encoded ∈ hellos, ∃ m random password,
      m.publicKey = c.publicKey privateKey ∧
        VersionMetadata.encode c m random privateKey password = .ok encoded)
    (confirmedHere : ∀ signing ∈ confirmations, ∃ password localMeta remoteMeta bytes,
      encodeConfirmation c privateKey password localMeta remoteMeta = .ok (bytes, signing))
    {stream password : Bytes} {m : VersionMetadata} {made : List Verification}
    (decoded : (VersionMetadata.decode c {} stream password).result = .ok (m, made))
    (capable : m.supportsHandshakeConfirmation)
    (honest : m.publicKey = c.publicKey privateKey)
    (unforged : ∀ check ∈ made, check.key = c.publicKey privateKey →
      c.verify check.key (c.blake2b check.password check.message) check.signature = true →
      ∃ signing ∈ hellos.flatMap Encoded.signed ++ confirmations,
        c.blake2b signing.password signing.message = c.blake2b check.password check.message)
    (collisionFree : ∀ check ∈ made,
      ∀ signing ∈ hellos.flatMap Encoded.signed ++ confirmations, check.NoCollision c signing) :
    ∃ encoded ∈ hellos,
      (∃ own random, own.publicKey = c.publicKey privateKey ∧
        VersionMetadata.encode c own random privateKey password = .ok encoded) ∧
      m.majorVer = encoded.m.majorVer ∧ m.minorVer = encoded.m.minorVer ∧
      m.publicKey = encoded.m.publicKey ∧ m.priority = encoded.m.priority ∧
      m.nonce = encoded.m.nonce ∧ m.capabilities = encoded.m.capabilities := by
  obtain ⟨front, last, sig, -, -, -, signature, fields, size, -, verified, checked⟩ :=
    decode_capable decoded capable
  have long : publicKeySize < (encodeAll front).length :=
    publicKeySize_lt_length_of_key signature (by rw [fields] at size; exact size)
  obtain ⟨signing, logged, sameHash⟩ := unforged _ checked honest verified
  obtain ⟨samePassword, message⟩ := collisionFree _ checked signing logged sameHash
  rcases List.mem_append.mp logged with fromHello | fromConfirmation
  · obtain ⟨encoded, member, signed⟩ := List.mem_flatMap.mp fromHello
    obtain ⟨own, random, ownPassword, ownKey, encodes⟩ := encodedHere encoded member
    have ownSize : own.publicKey.length = publicKeySize := by rw [ownKey, c.length_publicKey]
    obtain ⟨nonce, drawn, short, rfl⟩ := (VersionMetadata.encode_eq_ok_iff ownSize).mp encodes
    obtain ⟨signedUnder, rfl⟩ := transcript_of_mem_signed signed message long
    refine ⟨_, member, ⟨own, random, ownKey, ?_⟩, ?_⟩
    · have passwords : ownPassword = password := signedUnder.symm.trans samePassword
      rw [← passwords]
      exact encodes
    · rw [metadataOf_helloFields _ _ _ signature] at fields
      rw [fields]
      exact ⟨rfl, rfl, rfl, rfl, rfl, rfl⟩
  · obtain ⟨otherPassword, localMeta, remoteMeta, bytes, confirmed⟩ :=
      confirmedHere signing fromConfirmation
    obtain ⟨hash, -, made⟩ := bind_eq_ok_iff.mp confirmed
    cases made
    obtain ⟨wires, domain⟩ := confirmationMessage_eq_append localMeta remoteMeta
    exact absurd (message.symm.trans domain) (handshakeDomain_append_ne _ _)

/-! ## A genuine hello and a downgraded one -/

/-- The metadata of a hello from the key 7. -/
def capableMeta : VersionMetadata :=
  { versionGetBaseMetadata with
    publicKey := checksumCrypto.publicKey (7 : UInt8)
    priority := 3
    nonce := Vector.replicate 32 9
    capabilities := capabilityHandshakeConfirmation }

/-- The hello as its owner encodes it. -/
def genuineHello : Bytes :=
  helloWire checksumCrypto capableMeta rfl (7 : UInt8) []

/-- The transcript signature of the hello. -/
def genuineSignature : Tlv :=
  signatureField (transcriptOf checksumCrypto capableMeta rfl (7 : UInt8) []) rfl

/-- What its owner keeps of it. -/
def genuineEncoded : Encoded :=
  helloOf checksumCrypto capableMeta rfl (7 : UInt8) []

/-- The two verifications that a receiver of the hello makes. -/
def genuineChecks : List Verification :=
  [⟨capableMeta.publicKey, [], capableMeta.publicKey,
      checksumCrypto.sign (7 : UInt8) (checksumCrypto.blake2b [] capableMeta.publicKey)⟩,
    ⟨capableMeta.publicKey, [], handshakeDomain ++ encodeAll (helloFields capableMeta rfl),
      genuineSignature.value⟩]

theorem eq_ok_of_toOption {ε α : Type} {result : Except ε α} {a : α}
    (returned : result.toOption = some a) : result = .ok a := by
  cases result with
  | error err => cases returned
  | ok b =>
      cases returned
      rfl

theorem decode_genuineHello :
    (VersionMetadata.decode checksumCrypto {} genuineHello []).result =
      .ok (genuineEncoded.m, genuineChecks) :=
  eq_ok_of_toOption (by decide +kernel)

/-- A receiver of the hello has the metadata that its owner encoded. -/
theorem genuineHello_authentic :
    ∃ encoded ∈ [genuineEncoded],
      genuineEncoded.m.priority = encoded.m.priority ∧
      genuineEncoded.m.nonce = encoded.m.nonce := by
  have encodes : VersionMetadata.encode checksumCrypto capableMeta
      (some (Vector.replicate 32 9)) (7 : UInt8) [] = .ok genuineEncoded :=
    (VersionMetadata.encode_eq_ok_iff rfl).mpr ⟨_, rfl, by decide, rfl⟩
  obtain ⟨encoded, member, -, -, -, -, priority, nonce, -⟩ :=
    @capable_hello_authentic checksumCrypto (7 : UInt8) [genuineEncoded] []
      (by
        intro encoded member
        cases List.mem_singleton.mp member
        exact ⟨capableMeta, _, _, rfl, encodes⟩)
      (by simp) _ _ _ _ decode_genuineHello (by decide +kernel) (by decide +kernel)
      (by decide +kernel) (by decide +kernel)
  exact ⟨encoded, member, priority, nonce⟩

end Uqda.Handshake
