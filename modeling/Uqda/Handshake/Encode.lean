import Uqda.Addressing.Derivation
import Uqda.Handshake.Grammar

/-!
# What the encoder sends

A hello is a frame around the six fields of its metadata, the transcript
signature over them, and the legacy signature.  Reading the fields back gives the
metadata that was encoded.
-/

namespace Uqda.Handshake

open Uqda.Addressing Uqda.Wire

/-- The transcript-signature field. -/
def signatureField (sig : Bytes) (size : sig.length = signatureSize) : Tlv :=
  ⟨MetaOp.transcriptSignature.code, sig, by rw [size]; decide⟩

theorem isSignature_signatureField (sig : Bytes) (size : sig.length = signatureSize) :
    IsSignature (signatureField sig size) :=
  rfl

/-- The fields of a hello before the transcript signature. -/
def helloFields (m : VersionMetadata) (size : m.publicKey.length = publicKeySize) : List Tlv :=
  [⟨MetaOp.versionMajor.code, bigEndian 2 m.majorVer.toNat, by simp⟩,
    ⟨MetaOp.versionMinor.code, bigEndian 2 m.minorVer.toNat, by simp⟩,
    ⟨MetaOp.publicKey.code, m.publicKey, by rw [size]; decide⟩,
    ⟨MetaOp.priority.code, [m.priority], by simp⟩,
    ⟨MetaOp.nonce.code, m.nonce.toList, by simp⟩,
    ⟨MetaOp.capabilities.code, bigEndian 4 m.capabilities.toNat, by simp⟩]

theorem encodeFields_eq (m : VersionMetadata) (size : m.publicKey.length = publicKeySize) :
    m.encodeFields = preamble ++ [0, 0] ++ encodeAll (helloFields m size) := by
  have announced : (UInt16.ofNat publicKeySize).toNat = publicKeySize := rfl
  simp only [VersionMetadata.encodeFields, appendUint16, appendUint32, helloFields, Tlv.encode,
    encodeAll_cons, encodeAll_nil, size, announced, length_bigEndian, Vector.length_toList,
    List.length_singleton, List.append_assoc, List.append_nil]
  rfl

/-! ## Reading the fields back -/

theorem ofNat_ofBigEndian_uint16 (n : UInt16) :
    UInt16.ofNat (ofBigEndian (bigEndian 2 n.toNat)) = n := by
  rw [ofBigEndian_bigEndian_of_lt n.toNat_lt, UInt16.ofNat_toNat]

theorem ofNat_ofBigEndian_uint32 (n : UInt32) :
    UInt32.ofNat (ofBigEndian (bigEndian 4 n.toNat)) = n := by
  rw [ofBigEndian_bigEndian_of_lt n.toNat_lt, UInt32.ofNat_toNat]

/-- The fields of a hello give back its metadata, whatever signature follows. -/
theorem metadataOf_helloFields (m : VersionMetadata)
    (size : m.publicKey.length = publicKeySize) (wire : Bytes) {last : Tlv}
    (signature : IsSignature last) :
    metadataOf wire (helloFields m size ++ [last]) =
      { m with transcriptSignature := last.value, wire := wire } := by
  have tag : last.tag = MetaOp.transcriptSignature.code := signature
  rw [metadataOf_concat]
  simp [VersionMetadata.apply, tag, MetaOp.ofCode_eq_some_iff.mpr rfl, VersionMetadata.set,
    metadataOf, lastValue, helloFields, MetaOp.code_inj, ofNat_ofBigEndian_uint16,
    ofNat_ofBigEndian_uint32, copyAt_zero_toList]

/-! ## The hello -/

section Hello

variable (c : Crypto) (m : VersionMetadata) (size : m.publicKey.length = publicKeySize)
  (privateKey : c.PrivateKey) (password : Bytes)

/-- The transcript signature over the fields of the metadata. -/
def transcriptOf : Bytes :=
  c.sign privateKey (c.blake2b password (handshakeDomain ++ encodeAll (helloFields m size)))

/-- All fields of the hello. -/
def allHelloFields : List Tlv :=
  helloFields m size ++
    [signatureField (transcriptOf c m size privateKey password) (c.length_sign ..)]

/-- The hello as it is sent. -/
def helloWire : Bytes :=
  frame preamble (encodeAll (allHelloFields c m size privateKey password) ++
    c.sign privateKey (c.blake2b password m.publicKey))

/-- The result of encoding metadata whose nonce and capabilities are set. -/
def helloOf : Encoded where
  m := { m with
    transcriptSignature := transcriptOf c m size privateKey password
    wire := helloWire c m size privateKey password }
  bytes := helloWire c m size privateKey password
  signed :=
    [⟨c.publicKey privateKey, password, handshakeDomain ++ encodeAll (helloFields m size)⟩,
      ⟨c.publicKey privateKey, password, m.publicKey⟩]

theorem length_encodeAll_helloFields : (encodeAll (helloFields m size)).length = 97 := by
  simp [helloFields, size, publicKeySize]

theorem length_helloBody :
    (encodeAll (allHelloFields c m size privateKey password) ++
      c.sign privateKey (c.blake2b password m.publicKey)).length = 229 := by
  simp [allHelloFields, signatureField, transcriptOf, length_encodeAll_helloFields m size,
    c.length_sign, signatureSize]

theorem framed_helloBody :
    Framed (encodeAll (allHelloFields c m size privateKey password) ++
      c.sign privateKey (c.blake2b password m.publicKey)) := by
  constructor <;> rw [length_helloBody] <;> decide

theorem sized_of_length {op : MetaOp} {value : Bytes} {fits : value.length < 2 ^ 16}
    (size : value.length = op.size) : Sized ⟨op.code, value, fits⟩ := by
  intro other known
  cases MetaOp.code_inj.mp (MetaOp.ofCode_eq_some_iff.mp known)
  exact size

/-- The encoder writes every field in the length that is required of it. -/
theorem sized_allHelloFields :
    ∀ field ∈ allHelloFields c m size privateKey password, Sized field := by
  simp only [allHelloFields, helloFields, List.cons_append, List.nil_append, List.forall_mem_cons]
  refine ⟨?_, ?_, ?_, ?_, ?_, ?_, ?_, by simp⟩
  · exact sized_of_length (length_bigEndian ..)
  · exact sized_of_length (length_bigEndian ..)
  · exact sized_of_length size
  · exact sized_of_length rfl
  · exact sized_of_length m.nonce.length_toList
  · exact sized_of_length (length_bigEndian ..)
  · exact sized_of_length (c.length_sign ..)

theorem metadataOf_allHelloFields (wire : Bytes) :
    metadataOf wire (allHelloFields c m size privateKey password) =
      { m with
        transcriptSignature := transcriptOf c m size privateKey password
        wire := wire } :=
  metadataOf_helloFields m size wire rfl

@[simp]
theorem keyOf_allHelloFields :
    keyOf (allHelloFields c m size privateKey password) = m.publicKey := by
  have key := congrArg VersionMetadata.publicKey
    (metadataOf_allHelloFields c m size privateKey password [])
  exact key

end Hello

/-- The length is put in front of the body. -/
theorem putLength_eq {body : Bytes} (fits : body.length < 2 ^ 16) :
    putLength (preamble ++ [0, 0] ++ body)
      (UInt16.ofNat ((preamble ++ [0, 0] ++ body).length - 6)) = frame preamble body := by
  have total : (preamble ++ [0, 0] ++ body).length - 6 = body.length := by simp; omega
  rw [putLength, total, UInt16.toNat_ofNat_of_lt' fits]
  rfl

/-- The bytes before the length is filled in. -/
theorem encodeFields_append_signatures (c : Crypto) (m : VersionMetadata)
    (size : m.publicKey.length = publicKeySize) (privateKey : c.PrivateKey) (password : Bytes)
    (legacy : Bytes) :
    appendUint16 (appendUint16 m.encodeFields MetaOp.transcriptSignature.code)
        (UInt16.ofNat (transcriptOf c m size privateKey password).length) ++
        transcriptOf c m size privateKey password ++ legacy =
      preamble ++ [0, 0] ++
        (encodeAll (allHelloFields c m size privateKey password) ++ legacy) := by
  have length : (transcriptOf c m size privateKey password).length = signatureSize :=
    c.length_sign ..
  have announced : (UInt16.ofNat signatureSize).toNat = signatureSize := rfl
  simp only [encodeFields_eq m size, appendUint16, allHelloFields, signatureField, Tlv.encode,
    encodeAll_append, encodeAll_cons, encodeAll_nil, length, announced, List.append_assoc,
    List.append_nil]

theorem VersionMetadata.encodeSigned_eq_ok_iff {c : Crypto} {m : VersionMetadata}
    {privateKey : c.PrivateKey} {password : Bytes} {encoded : Encoded}
    (size : m.publicKey.length = publicKeySize) :
    m.encodeSigned c privateKey password = .ok encoded ↔
      password.length ≤ 64 ∧ encoded = helloOf c m size privateKey password := by
  have fields : m.encodeFields.drop 6 = encodeAll (helloFields m size) := by
    rw [encodeFields_eq m size, List.drop_left' (by simp)]
  by_cases short : password.length ≤ 64
  · have encodes : m.encodeSigned c privateKey password =
        .ok (helloOf c m size privateKey password) := by
      have bytes := encodeFields_append_signatures c m size privateKey password
        (c.sign privateKey (c.blake2b password m.publicKey))
      simp only [transcriptOf] at bytes
      simp only [encodeSigned, Crypto.handshakeHash, Crypto.legacyHandshakeHash, Crypto.sum512,
        if_neg (Nat.not_lt_of_le short), ok_bind, fields, bytes,
        putLength_eq (framed_helloBody c m size privateKey password).2]
      rfl
    rw [encodes, Except.ok.injEq]
    exact ⟨fun same => ⟨short, same.symm⟩, fun same => same.2.symm⟩
  · constructor
    · intro failed
      simp only [encodeSigned, Crypto.handshakeHash, Crypto.sum512,
        if_pos (Nat.lt_of_not_le short)] at failed
      cases failed
    · exact fun same => absurd same.1 short

/-- Encoding succeeds exactly if a nonce was drawn and the password fits, and then
sends the hello of the metadata. -/
theorem VersionMetadata.encode_eq_ok_iff {c : Crypto} {m : VersionMetadata}
    {random : Option (Vector UInt8 32)} {privateKey : c.PrivateKey} {password : Bytes}
    {encoded : Encoded} (size : m.publicKey.length = publicKeySize) :
    m.encode c random privateKey password = .ok encoded ↔
      ∃ nonce, random = some nonce ∧ password.length ≤ 64 ∧
        encoded = helloOf c
          { m with nonce := nonce, capabilities := capabilityHandshakeConfirmation } size
          privateKey password := by
  cases random with
  | none => simp [encode]
  | some nonce =>
      have drawn := @encodeSigned_eq_ok_iff c
        { m with nonce := nonce, capabilities := capabilityHandshakeConfirmation } privateKey
        password encoded size
      simp only [encode, Option.some.injEq, exists_eq_left']
      exact drawn

end Uqda.Handshake
