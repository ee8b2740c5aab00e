import Uqda.Handshake.Decode
import Mathlib.Data.UInt

/-!
# The grammar of hellos

The grammar is stated on its own terms: a framed sequence of fields with the
required lengths, at most one transcript signature, in last place, and the
signatures verified.  The decoder accepts every hello of the grammar.  It accepts
one more shape, because the flag for an earlier transcript signature is a slice
that stays nil when the signature is the first field: a transcript signature
followed by fields that by themselves obey all rules.
-/

namespace Uqda.Handshake

open Uqda.Addressing Uqda.Wire

/-- The public key that a sequence of fields carries. -/
def keyOf (fields : List Tlv) : Bytes :=
  (lastValue .publicKey fields).getD []

/-- The rules a hello's fields and its legacy signature obey.  A transcript
signature covers `before` and the fields in front of it. -/
structure Rules (c : Crypto) (password sig before : Bytes) (fields : List Tlv) : Prop where
  sized : ∀ field ∈ fields, Sized field
  signatureLast : ∀ field ∈ fields.dropLast, ¬ IsSignature field
  keyPresent : ∃ field ∈ fields, field.tag = MetaOp.publicKey.code
  passwordFits : password.length ≤ 64
  legacy : c.verify (keyOf fields) (c.blake2b password (keyOf fields)) sig = true
  transcript : (metadataOf [] fields).supportsHandshakeConfirmation →
    ∃ last, fields.getLast? = some last ∧ IsSignature last ∧
      c.verify (keyOf fields)
        (c.blake2b password (handshakeDomain ++ (before ++ encodeAll fields.dropLast)))
        last.value = true

/-- The stream begins with a hello of the grammar. -/
def Grammar (c : Crypto) (password stream : Bytes) : Prop :=
  ∃ fields sig rest, stream = frame preamble (encodeAll fields ++ sig) ++ rest ∧
    (encodeAll fields ++ sig).length < 2 ^ 16 ∧ sig.length = signatureSize ∧
    Rules c password sig [] fields

/-- The stream begins with a hello whose first field is a transcript signature and
whose other fields obey the rules. -/
def LeadingSignature (c : Crypto) (password stream : Bytes) : Prop :=
  ∃ first fields sig rest,
    stream = frame preamble (encodeAll (first :: fields) ++ sig) ++ rest ∧
    (encodeAll (first :: fields) ++ sig).length < 2 ^ 16 ∧ sig.length = signatureSize ∧
    IsSignature first ∧ Sized first ∧ Rules c password sig first.encode fields

/-! ## Last values -/

theorem lastValue_cons (op : MetaOp) (field : Tlv) (fields : List Tlv) :
    lastValue op (field :: fields) =
      (lastValue op fields).or (if field.tag = op.code then some field.value else none) := by
  induction fields using List.reverseRecOn with
  | nil => by_cases same : field.tag = op.code <;> simp [lastValue, same]
  | append_singleton fields last ih =>
      rw [← List.cons_append, lastValue_concat, lastValue_concat, ih]
      split <;> simp

theorem exists_of_lastValue_eq_some {op : MetaOp} {fields : List Tlv} {value : Bytes}
    (found : lastValue op fields = some value) :
    ∃ field ∈ fields, field.tag = op.code ∧ field.value = value := by
  obtain ⟨field, last, rfl⟩ := Option.map_eq_some_iff.mp found
  have member := List.mem_of_getLast? last
  rw [List.mem_filter, decide_eq_true_iff] at member
  exact ⟨field, member.1, member.2, rfl⟩

theorem isSome_lastValue_iff {op : MetaOp} {fields : List Tlv} :
    (lastValue op fields).isSome ↔ ∃ field ∈ fields, field.tag = op.code := by
  constructor
  · intro present
    obtain ⟨value, found⟩ := Option.isSome_iff_exists.mp present
    obtain ⟨field, member, tag, -⟩ := exists_of_lastValue_eq_some found
    exact ⟨field, member, tag⟩
  · rintro ⟨field, member, tag⟩
    have occurs : ∃ field ∈ fields, field.tag = op.code := ⟨field, member, tag⟩
    simpa [lastValue] using occurs

/-- A key of the right size is present exactly if a public-key field is. -/
theorem length_keyOf_iff {fields : List Tlv} (sized : ∀ field ∈ fields, Sized field) :
    (keyOf fields).length = publicKeySize ↔
      ∃ field ∈ fields, field.tag = MetaOp.publicKey.code := by
  rw [← isSome_lastValue_iff, keyOf]
  cases found : lastValue .publicKey fields with
  | none => simp [publicKeySize]
  | some value =>
      obtain ⟨field, member, tag, rfl⟩ := exists_of_lastValue_eq_some found
      have size := sized field member .publicKey (MetaOp.ofCode_eq_some_iff.mpr tag.symm)
      exact iff_of_true size rfl

theorem lastValue_signature_of_getLast? {fields : List Tlv} {last : Tlv}
    (isLast : fields.getLast? = some last) (signature : IsSignature last) :
    lastValue .transcriptSignature fields = some last.value := by
  obtain ⟨front, rfl⟩ := List.getLast?_eq_some_iff.mp isLast
  exact (lastValue_concat ..).trans (if_pos signature)

/-! ## What the loop enforces -/

/-- Either bytes have been consumed already, or the first field is not a
transcript signature. -/
def Flagged (before : Bytes) (fields : List Tlv) : Prop :=
  before ≠ [] ∨ ∀ first ∈ fields.head?, ¬ IsSignature first

theorem flagged_append_encode (before : Bytes) (field : Tlv) (fields : List Tlv) :
    Flagged (before ++ field.encode) fields :=
  Or.inl (by simp [Tlv.encode_ne_nil])

theorem Flagged.remembered_iff {before : Bytes} {field : Tlv} {fields : List Tlv}
    (flagged : Flagged before (field :: fields)) :
    IsSignature field ∧ before ≠ [] ↔ IsSignature field := by
  refine ⟨And.left, fun signature => ⟨signature, ?_⟩⟩
  rcases flagged with later | other
  · exact later
  · exact absurd signature (other field rfl)

/-- Away from the first field the loop enforces the lengths and the position of
the transcript signature. -/
theorem accepted_iff {before : Bytes} {fields : List Tlv} (flagged : Flagged before fields) :
    Accepted before fields ↔
      (∀ field ∈ fields, Sized field) ∧ ∀ field ∈ fields.dropLast, ¬ IsSignature field := by
  induction fields generalizing before with
  | nil => simp [Accepted]
  | cons field fields ih =>
      have last : (IsSignature field → before ≠ [] → fields = []) ↔
          (fields ≠ [] → ¬ IsSignature field) := by
        rw [← and_imp, flagged.remembered_iff]
        tauto
      rw [Accepted, ih (flagged_append_encode before field fields), last]
      cases fields with
      | nil => simp
      | cons next fields =>
          simp only [List.dropLast_cons_cons, List.forall_mem_cons, ne_eq, reduceCtorEq,
            not_false_eq_true, forall_const]
          tauto

/-- The remembered signature is the last field. -/
theorem signedBytes_eq_some_iff {before signed : Bytes} {fields : List Tlv}
    (flagged : Flagged before fields)
    (lastOnly : ∀ field ∈ fields.dropLast, ¬ IsSignature field) :
    signedBytes before fields = some signed ↔
      ∃ last, fields.getLast? = some last ∧ IsSignature last ∧
        before ++ encodeAll fields.dropLast = signed := by
  induction fields generalizing before with
  | nil => simp [signedBytes]
  | cons field fields ih =>
      simp only [signedBytes, flagged.remembered_iff]
      have rest := flagged_append_encode before field fields
      cases fields with
      | nil => by_cases signature : IsSignature field <;> simp [signature, signedBytes]
      | cons next fields =>
          rw [List.dropLast_cons_cons, List.forall_mem_cons] at lastOnly
          rw [if_neg lastOnly.1, ih rest lastOnly.2]
          simp

/-- Metadata that agrees with a sequence of fields in what authentication reads. -/
structure Carries (m : VersionMetadata) (fields : List Tlv) : Prop where
  publicKey : m.publicKey = keyOf fields
  capable : m.supportsHandshakeConfirmation =
    (metadataOf [] fields).supportsHandshakeConfirmation
  signature : ∀ last, fields.getLast? = some last → IsSignature last →
    m.transcriptSignature = last.value

/-- Fields that pass the loop are authenticated exactly if they obey the rules. -/
theorem authenticate_iff_rules {c : Crypto} {m : VersionMetadata}
    {password sig before : Bytes} {fields : List Tlv} (carries : Carries m fields)
    (flagged : Flagged before fields) (accepted : Accepted before fields) :
    (∃ out, m.authenticate c password sig (signedBytes before fields) = .ok out) ↔
      Rules c password sig before fields := by
  obtain ⟨sized, lastOnly⟩ := (accepted_iff flagged).mp accepted
  rw [VersionMetadata.exists_authenticate_iff, carries.publicKey, carries.capable]
  constructor
  · rintro ⟨size, short, legacy, transcript⟩
    refine ⟨sized, lastOnly, (length_keyOf_iff sized).mp size, short, legacy, ?_⟩
    intro capable
    obtain ⟨signed, remembered, -, verified⟩ := transcript capable
    obtain ⟨last, isLast, signature, rfl⟩ :=
      (signedBytes_eq_some_iff flagged lastOnly).mp remembered
    rw [carries.signature last isLast signature] at verified
    exact ⟨last, isLast, signature, verified⟩
  · intro rules
    refine ⟨(length_keyOf_iff sized).mpr rules.keyPresent, rules.passwordFits, rules.legacy, ?_⟩
    intro capable
    obtain ⟨last, isLast, signature, verified⟩ := rules.transcript capable
    have size : last.value.length = signatureSize :=
      sized last (List.mem_of_getLast? isLast) .transcriptSignature
        (MetaOp.ofCode_eq_some_iff.mpr signature.symm)
    rw [carries.signature last isLast signature]
    exact ⟨_, (signedBytes_eq_some_iff flagged lastOnly).mpr ⟨last, isLast, signature, rfl⟩,
      size, verified⟩

theorem carries_metadataOf (wire : Bytes) (fields : List Tlv) :
    Carries (metadataOf wire fields) fields where
  publicKey := rfl
  capable := rfl
  signature := by
    intro last isLast signature
    simp [metadataOf, lastValue_signature_of_getLast? isLast signature]

/-- A transcript signature in front of other fields changes none of them. -/
theorem carries_metadataOf_cons (wire : Bytes) {first : Tlv} {fields : List Tlv}
    (leading : IsSignature first) : Carries (metadataOf wire (first :: fields)) fields := by
  have skipped : ∀ op : MetaOp, op ≠ .transcriptSignature →
      lastValue op (first :: fields) = lastValue op fields := by
    intro op other
    rw [lastValue_cons, if_neg, Option.or_none]
    intro same
    exact other (MetaOp.code_inj.mp (same.symm.trans leading))
  refine ⟨?_, ?_, ?_⟩
  · simp [metadataOf, keyOf, skipped]
  · simp [VersionMetadata.supportsHandshakeConfirmation, metadataOf, skipped]
  · intro last isLast signature
    have stillLast : (first :: fields).getLast? = some last := by
      rw [List.getLast?_cons, isLast]
      rfl
    simp [metadataOf, lastValue_signature_of_getLast? stillLast signature]

/-! ## Accepted hellos -/

theorem passes_iff_rules {c : Crypto} {m : VersionMetadata} {password sig before : Bytes}
    {fields : List Tlv} (carries : Carries m fields) (flagged : Flagged before fields) :
    (Accepted before fields ∧
        ∃ out, m.authenticate c password sig (signedBytes before fields) = .ok out) ↔
      Rules c password sig before fields := by
  constructor
  · rintro ⟨accepted, authenticated⟩
    exact (authenticate_iff_rules carries flagged accepted).mp authenticated
  · intro rules
    have accepted := (accepted_iff flagged).mpr ⟨rules.sized, rules.signatureLast⟩
    exact ⟨accepted, (authenticate_iff_rules carries flagged accepted).mpr rules⟩

/-- No hello of the grammar begins with a transcript signature. -/
theorem Rules.head_not_signature {c : Crypto} {password sig before : Bytes} {first : Tlv}
    {fields : List Tlv} (rules : Rules c password sig before (first :: fields)) :
    ¬ IsSignature first := by
  intro signature
  cases fields with
  | nil =>
      obtain ⟨field, member, tag⟩ := rules.keyPresent
      rw [List.mem_singleton.mp member, signature] at tag
      exact absurd tag (by decide)
  | cons next fields => exact rules.signatureLast first (by simp) signature

/-- The fields pass the loop and the authentication exactly if they obey the rules
or a transcript signature precedes fields that do. -/
theorem passes_iff {c : Crypto} {password sig wire : Bytes} {fields : List Tlv} :
    (Accepted [] fields ∧ ∃ out, (metadataOf wire fields).authenticate c password sig
        (signedBytes [] fields) = .ok out) ↔
      Rules c password sig [] fields ∨
        ∃ first others, fields = first :: others ∧ IsSignature first ∧ Sized first ∧
          Rules c password sig first.encode others := by
  by_cases leading : ∃ first others, fields = first :: others ∧ IsSignature first
  · obtain ⟨first, others, rfl, signature⟩ := leading
    have rest := @passes_iff_rules c _ password sig _ _
      (carries_metadataOf_cons wire signature) (flagged_append_encode [] first others)
    simp only [Accepted, signedBytes, ne_eq, not_true_eq_false, and_false, if_false,
      false_implies, implies_true, true_and, and_assoc, List.nil_append] at rest ⊢
    rw [rest]
    constructor
    · rintro ⟨sized, rules⟩
      exact Or.inr ⟨first, others, rfl, signature, sized, rules⟩
    · rintro (rules | ⟨_, _, same, -, sized, rules⟩)
      · exact absurd signature rules.head_not_signature
      · cases same
        exact ⟨sized, rules⟩
  · have flagged : Flagged [] fields := by
      refine Or.inr fun first head signature => leading ?_
      obtain ⟨others, rfl⟩ := List.head?_eq_some_iff.mp head
      exact ⟨first, others, rfl, signature⟩
    rw [passes_iff_rules (carries_metadataOf wire fields) flagged]
    constructor
    · exact Or.inl
    · rintro (rules | ⟨first, others, rfl, signature, -⟩)
      · exact rules
      · exact absurd ⟨first, others, rfl, signature⟩ leading

/-- The decoder accepts the grammar, and hellos with a leading transcript
signature. -/
theorem exists_decode_iff {c : Crypto} {stream password : Bytes} :
    (∃ out, (VersionMetadata.decode c {} stream password).result = .ok out) ↔
      Grammar c password stream ∨ LeadingSignature c password stream := by
  constructor
  · rintro ⟨⟨m, made⟩, decoded⟩
    obtain ⟨fields, sig, bytes, fits, size, accepted, authenticated⟩ :=
      VersionMetadata.decode_eq_ok_iff.mp decoded
    rw [foldl_apply_eq_metadataOf] at authenticated
    rcases passes_iff.mp ⟨accepted, _, authenticated⟩ with
      rules | ⟨first, others, rfl, signature, sized, rules⟩
    · exact Or.inl ⟨fields, sig, _, bytes, fits, size, rules⟩
    · exact Or.inr ⟨first, others, sig, _, bytes, fits, size, signature, sized, rules⟩
  · intro shaped
    obtain ⟨fields, sig, rest, rfl, fits, size, passes⟩ : ∃ fields sig rest,
        stream = frame preamble (encodeAll fields ++ sig) ++ rest ∧
        (encodeAll fields ++ sig).length < 2 ^ 16 ∧ sig.length = signatureSize ∧
        (Rules c password sig [] fields ∨
          ∃ first others, fields = first :: others ∧ IsSignature first ∧ Sized first ∧
            Rules c password sig first.encode others) := by
      rcases shaped with ⟨fields, sig, rest, bytes, fits, size, rules⟩ |
        ⟨first, others, sig, rest, bytes, fits, size, signature, sized, rules⟩
      · exact ⟨fields, sig, rest, bytes, fits, size, Or.inl rules⟩
      · exact ⟨_, sig, rest, bytes, fits, size, Or.inr ⟨_, _, rfl, signature, sized, rules⟩⟩
    have framed : Framed (encodeAll fields ++ sig) := ⟨by simp [size], fits⟩
    obtain ⟨accepted, ⟨m, made⟩, authenticated⟩ := passes_iff.mpr passes
    refine ⟨(m, made), VersionMetadata.decode_eq_ok_iff.mpr
      ⟨fields, sig, ?_, fits, size, accepted, ?_⟩⟩
    · rw [VersionMetadata.decode_frame c {} rest password framed]
    · rw [foldl_apply_eq_metadataOf]
      exact authenticated

/-- A hello of the grammar is decoded to the last values of its fields, and what
follows it is left unread. -/
theorem decode_of_rules {c : Crypto} {password sig : Bytes} {fields : List Tlv}
    (fits : (encodeAll fields ++ sig).length < 2 ^ 16) (size : sig.length = signatureSize)
    (rules : Rules c password sig [] fields) (rest : Bytes) :
    ∃ made, VersionMetadata.decode c {} (frame preamble (encodeAll fields ++ sig) ++ rest)
        password =
      ⟨.ok (metadataOf (frame preamble (encodeAll fields ++ sig)) fields, made), rest⟩ := by
  have framed : Framed (encodeAll fields ++ sig) := ⟨by simp [size], fits⟩
  obtain ⟨accepted, ⟨m, made⟩, authenticated⟩ := passes_iff.mpr (Or.inl rules)
  obtain ⟨-, -, -, rfl, -⟩ := VersionMetadata.authenticate_eq_ok_iff.mp authenticated
  refine ⟨made, ?_⟩
  rw [VersionMetadata.decode_frame c {} rest password framed, Decoding.mk.injEq]
  refine ⟨(VersionMetadata.decodeBody_eq_ok_iff framed.1).mpr
    ⟨fields, sig, rfl, size, accepted, ?_⟩, rfl⟩
  rw [foldl_apply_eq_metadataOf]
  exact authenticated

theorem LeadingSignature.not_grammar {c : Crypto} {password stream : Bytes}
    (leading : LeadingSignature c password stream) : ¬ Grammar c password stream := by
  rintro ⟨fields, sig, rest, bytes, fits, size, rules⟩
  obtain ⟨first, others, otherSig, otherRest, otherBytes, otherFits, otherSize, signature, -, -⟩ :=
    leading
  obtain ⟨rfl, -, -⟩ := hello_append_inj otherFits fits (otherSize.trans size.symm)
    (otherBytes.symm.trans bytes)
  exact rules.head_not_signature signature

/-- A stream starts with a framed body or it does not. -/
theorem framed_or (stream : Bytes) :
    (∃ body rest, Framed body ∧ stream = frame preamble body ++ rest) ∨
      ∀ body rest, Framed body → stream ≠ frame preamble body ++ rest := by
  by_cases framed : ∃ body rest, Framed body ∧ stream = frame preamble body ++ rest
  · exact Or.inl framed
  · exact Or.inr fun body rest isFramed same => framed ⟨body, rest, isFramed, same⟩

/-- No input makes the decoder panic. -/
theorem decode_ne_fault (c : Crypto) (stream password : Bytes) :
    (VersionMetadata.decode c {} stream password).result ≠ .error .fault := by
  rcases framed_or stream with ⟨body, rest, framed, rfl⟩ | unframed
  · rw [VersionMetadata.decode_frame c {} rest password framed]
    exact VersionMetadata.decodeBody_ne_fault c _ password framed.1
  · obtain ⟨⟨err, failed, noFault⟩, -⟩ :=
      VersionMetadata.decode_of_not_framed c {} password unframed
    rw [failed]
    exact fun fault => noFault (Except.error.inj fault)

/-- The decoder reads no more than the header announces. -/
theorem decode_consumes (c : Crypto) (stream password : Bytes) :
    ∃ consumed, stream = consumed ++ (VersionMetadata.decode c {} stream password).unread ∧
      consumed.length ≤ 6 + ofBigEndian ((stream.take 6).drop 4) := by
  rcases framed_or stream with ⟨body, rest, framed, rfl⟩ | unframed
  · rw [VersionMetadata.decode_frame c {} rest password framed]
    refine ⟨frame preamble body, rfl, ?_⟩
    have header : ((frame preamble body ++ rest).take 6).drop 4 = bigEndian 2 body.length := by
      simp [frame, List.take_append]
    rw [header, ofBigEndian_bigEndian_of_lt framed.2, length_frame, length_preamble]
  · exact (VersionMetadata.decode_of_not_framed c {} password unframed).2

/-- The decoder returns the last values of the fields it has consumed. -/
theorem decode_returns {c : Crypto} {stream password : Bytes} {m : VersionMetadata}
    {made : List Verification}
    (decoded : (VersionMetadata.decode c {} stream password).result = .ok (m, made)) :
    stream = m.wire ++ (VersionMetadata.decode c {} stream password).unread ∧
      ∃ fields sig, m.wire = frame preamble (encodeAll fields ++ sig) ∧
        sig.length = signatureSize ∧ m = metadataOf m.wire fields := by
  obtain ⟨fields, sig, bytes, -, size, -, authenticated⟩ :=
    VersionMetadata.decode_eq_ok_iff.mp decoded
  rw [foldl_apply_eq_metadataOf] at authenticated
  obtain ⟨-, -, -, rfl, -⟩ := VersionMetadata.authenticate_eq_ok_iff.mp authenticated
  exact ⟨bytes, fields, sig, rfl, size, rfl⟩

/-- The decoder never panics and reads no more than the header announces.  What it
returns are the last values of the fields it has consumed.  It accepts exactly the
grammar unless a transcript signature stands in front of the fields. -/
theorem decode_accepts_grammar_iff (c : Crypto) (stream password : Bytes) :
    (VersionMetadata.decode c {} stream password).result ≠ .error .fault ∧
      (∃ consumed, stream = consumed ++ (VersionMetadata.decode c {} stream password).unread ∧
        consumed.length ≤ 6 + ofBigEndian ((stream.take 6).drop 4)) ∧
      (∀ m made, (VersionMetadata.decode c {} stream password).result = .ok (m, made) →
        stream = m.wire ++ (VersionMetadata.decode c {} stream password).unread ∧
          ∃ fields sig, m.wire = frame preamble (encodeAll fields ++ sig) ∧
            sig.length = signatureSize ∧ m = metadataOf m.wire fields) ∧
      (((∃ out, (VersionMetadata.decode c {} stream password).result = .ok out) ↔
          Grammar c password stream) ↔
        ¬ LeadingSignature c password stream) := by
  refine ⟨decode_ne_fault c stream password, decode_consumes c stream password,
    fun m made decoded => decode_returns decoded, ?_⟩
  rw [exists_decode_iff]
  constructor
  · intro same leading
    exact leading.not_grammar (same.mp (Or.inr leading))
  · intro noLeading
    exact or_iff_left noLeading

/-! ## A hello with a leading transcript signature -/

/-- A stand-in for the primitives that can be evaluated: a signature repeats a
checksum of the key and the hash. -/
def checksumCrypto : Crypto where
  PrivateKey := UInt8
  publicKey := fun key => List.replicate publicKeySize key
  sign := fun key message => List.replicate signatureSize (key + message.sum)
  verify := fun publicKey message sig =>
    sig == List.replicate signatureSize (publicKey.headD 0 + message.sum)
  blake2b := fun password message => password ++ message
  length_publicKey := fun _ => List.length_replicate
  length_sign := fun _ _ => List.length_replicate

theorem checksumCrypto_verify_sign (privateKey : checksumCrypto.PrivateKey) (hash : Bytes) :
    checksumCrypto.verify (checksumCrypto.publicKey privateKey) hash
      (checksumCrypto.sign privateKey hash) = true :=
  beq_self_eq_true _

/-- A transcript-signature field of zero bytes, which verifies under no key. -/
def zeroSignature : Tlv :=
  ⟨MetaOp.transcriptSignature.code, List.replicate signatureSize 0, by decide⟩

/-- The public-key field of the key 7. -/
def keySeven : Tlv :=
  ⟨MetaOp.publicKey.code, checksumCrypto.publicKey (7 : UInt8), by decide⟩

/-- The transcript signature, the public key, and a valid legacy signature. -/
def leadingHello : Bytes :=
  frame preamble (encodeAll [zeroSignature, keySeven] ++
    checksumCrypto.sign (7 : UInt8) (checksumCrypto.blake2b [] keySeven.value))

theorem leadingHello_accepted_outside_grammar :
    (∃ out, (VersionMetadata.decode checksumCrypto {} leadingHello []).result = .ok out) ∧
      ¬ Grammar checksumCrypto [] leadingHello := by
  have leading : LeadingSignature checksumCrypto [] leadingHello := by
    refine ⟨zeroSignature, [keySeven], _, [], (List.append_nil _).symm, by decide +kernel,
      by decide, rfl, by decide, ⟨by decide, by decide, by decide, by decide, by decide, ?_⟩⟩
    intro capable
    exact absurd capable (by decide)
  exact ⟨exists_decode_iff.mpr (Or.inr leading), leading.not_grammar⟩

end Uqda.Handshake
