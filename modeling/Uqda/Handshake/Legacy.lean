import Uqda.Handshake.Encode

/-!
# Compatibility with the deployed 0.5 parser

`decodeLegacy05ForTest` of `src/core/version_test.go` mirrors the parser of the
nodes in the field: it reads the version and the public key, skips every other
field and checks the legacy signature.

The two parsers cut a message into the same fields.  On the fields that both know
they keep the same variables, so they differ only in the fields that one of them
skips.
-/

namespace Uqda.Handshake

open Uqda.Addressing Uqda.Wire

/-! ## The parser -/

/-- The variables of the field loop in `decodeLegacy05ForTest`. -/
structure LegacyLoop where
  publicKey : Bytes
  major : UInt16
  minor : UInt16
  fields : Bytes

/-- The switch of the loop. -/
def LegacyLoop.switch (loop : LegacyLoop) (op : UInt16) (field : Bytes) :
    Except Failure LegacyLoop :=
  match MetaOp.ofCode op with
  | some .versionMajor => do
      if field.length ≠ 2 then .error (.handshake .invalidLength)
      else return { loop with major := ← uint16 field }
  | some .versionMinor => do
      if field.length ≠ 2 then .error (.handshake .invalidLength)
      else return { loop with minor := ← uint16 field }
  | some .publicKey =>
      if field.length ≠ publicKeySize then .error (.handshake .invalidLength)
      else .ok { loop with publicKey := field }
  | _ => .ok loop

/-- One iteration of the loop. -/
def LegacyLoop.step (loop : LegacyLoop) : Except Failure LegacyLoop := do
  let op ← uint16 (← slice loop.fields 0 2)
  let fieldLen ← uint16 (← slice loop.fields 2 4)
  let fields ← slice loop.fields 4 loop.fields.length
  if fields.length < fieldLen.toNat then
    .error (.handshake .invalidLength)
  else
    let field ← slice fields 0 fieldLen.toNat
    let loop ← loop.switch op field
    let fields ← slice fields fieldLen.toNat fields.length
    return { loop with fields := fields }

/-- An iteration consumes at least the header of a field. -/
theorem LegacyLoop.length_of_step {loop target : LegacyLoop}
    (stepped : loop.step = .ok target) : target.fields.length + 4 ≤ loop.fields.length := by
  unfold LegacyLoop.step at stepped
  simp only [bind_eq_ok_iff] at stepped
  obtain ⟨-, -, op, -, header, sliced, fieldLen, -, fields, rest, stepped⟩ := stepped
  obtain ⟨⟨-, fits⟩, -⟩ := slice_eq_ok_iff.mp sliced
  obtain ⟨-, rfl⟩ := slice_eq_ok_iff.mp rest
  split at stepped
  · cases stepped
  · simp only [bind_eq_ok_iff] at stepped
    obtain ⟨field, -, switched, -, tail, dropped, ended⟩ := stepped
    obtain ⟨-, rfl⟩ := slice_eq_ok_iff.mp dropped
    cases ended
    simp only [List.length_drop, List.length_take]
    omega

/-- The loop, which runs while there is room for a header. -/
def LegacyLoop.run (loop : LegacyLoop) : Except Failure LegacyLoop :=
  if 4 ≤ loop.fields.length then
    match _stepped : loop.step with
    | .error err => .error err
    | .ok target => LegacyLoop.run target
  else
    .ok loop
termination_by loop.fields.length
decreasing_by
  have shorter := LegacyLoop.length_of_step _stepped
  omega

/-- The part of `decodeLegacy05ForTest` after the loop. -/
def LegacyLoop.authenticate (c : Crypto) (loop : LegacyLoop) (password sig : Bytes) :
    Except Failure Unit := do
  if loop.fields.length ≠ 0 ∨ loop.major ≠ protocolVersionMajor ∨
      loop.minor ≠ protocolVersionMinor then
    .error (.handshake .invalidLength)
  else
    let hash ← c.legacyHandshakeHash password loop.publicKey
    if !(← c.ed25519Verify loop.publicKey hash sig) then
      .error (.handshake .invalidSignature)
    else
      .ok ()

/-- `decodeLegacy05ForTest`. -/
def decodeLegacy05ForTest (c : Crypto) (message password : Bytes) : Except Failure Unit := do
  if message.length < 6 + signatureSize then
    .error (.handshake .invalidLength)
  else if (← slice message 0 4) ≠ preamble then
    .error (.handshake .invalidLength)
  else
    let bodyLen ← uint16 (← slice message 4 6)
    if bodyLen.toNat ≠ message.length - 6 then
      .error (.handshake .invalidLength)
    else
      let body ← slice message 6 message.length
      let sig ← slice body (body.length - signatureSize) body.length
      let fields ← slice body 0 (body.length - signatureSize)
      let loop ← LegacyLoop.run ⟨[], 0, 0, fields⟩
      loop.authenticate c password sig

/-! ## One iteration -/

/-- The loop requires the lengths of the three fields it reads. -/
def LegacySized (field : Tlv) : Prop :=
  ∀ op ∈ [MetaOp.versionMajor, .versionMinor, .publicKey],
    field.tag = op.code → field.value.length = op.size

/-- The variables of the loop agree with the metadata of the decoder. -/
structure LegacyLoop.Mirrors (loop : LegacyLoop) (m : VersionMetadata) : Prop where
  publicKey : loop.publicKey = m.publicKey
  major : loop.major = m.majorVer
  minor : loop.minor = m.minorVer

/-- A field of the right length is read as the decoder reads it. -/
theorem LegacyLoop.Mirrors.switch {loop : LegacyLoop} {m : VersionMetadata} {field : Tlv}
    (mirrors : loop.Mirrors m) (sized : LegacySized field) :
    ∃ target, loop.switch field.tag field.value = .ok target ∧ target.Mirrors (m.apply field) := by
  unfold LegacyLoop.switch VersionMetadata.apply
  cases known : MetaOp.ofCode field.tag with
  | none => exact ⟨loop, rfl, mirrors⟩
  | some op =>
      have tag := (MetaOp.ofCode_eq_some_iff.mp known).symm
      cases op with
      | versionMajor =>
          have size : field.value.length = 2 := sized .versionMajor (by simp) tag
          simp only [size, uint16_of_length size]
          exact ⟨_, rfl, mirrors.publicKey, rfl, mirrors.minor⟩
      | versionMinor =>
          have size : field.value.length = 2 := sized .versionMinor (by simp) tag
          simp only [size, uint16_of_length size]
          exact ⟨_, rfl, mirrors.publicKey, mirrors.major, rfl⟩
      | publicKey =>
          have size : field.value.length = publicKeySize := sized .publicKey (by simp) tag
          simp only [size]
          exact ⟨_, rfl, rfl, mirrors.major, mirrors.minor⟩
      | _ =>
          refine ⟨loop, rfl, ?_, ?_, ?_⟩
          · simp only [VersionMetadata.set, mirrors.publicKey]
          · simp only [VersionMetadata.set, mirrors.major]
          · simp only [VersionMetadata.set, mirrors.minor]

theorem LegacyLoop.switch_of_not_sized {loop : LegacyLoop} {field : Tlv}
    (illSized : ¬ LegacySized field) :
    loop.switch field.tag field.value = .error (.handshake .invalidLength) := by
  simp only [LegacySized, not_forall] at illSized
  obtain ⟨op, read, tag, wrong⟩ := illSized
  unfold LegacyLoop.switch
  rw [MetaOp.ofCode_eq_some_iff.mpr tag.symm]
  rcases List.mem_cons.mp read with rfl | read
  · exact if_pos wrong
  rcases List.mem_cons.mp read with rfl | read
  · exact if_pos wrong
  · cases List.mem_singleton.mp read
    exact if_pos wrong

theorem LegacyLoop.step_eq (loop : LegacyLoop) :
    loop.step = readField loop.fields loop.switch fun next _ fields =>
      .ok { next with fields := fields } :=
  rfl

/-- An iteration on a field of the right length. -/
theorem LegacyLoop.Mirrors.step {loop : LegacyLoop} {m : VersionMetadata} {field : Tlv}
    {rest : Bytes} (mirrors : loop.Mirrors m) (bytes : loop.fields = field.encode ++ rest)
    (sized : LegacySized field) :
    ∃ target, loop.step = .ok target ∧ target.fields = rest ∧
      target.Mirrors (m.apply field) := by
  obtain ⟨next, switched, mirrors⟩ := mirrors.switch sized
  refine ⟨{ next with fields := rest }, ?_, rfl, mirrors.publicKey, mirrors.major, mirrors.minor⟩
  rw [LegacyLoop.step_eq, readField_encode bytes, switched]
  rfl

/-! ## The loop -/

theorem LegacyLoop.run_of_short {loop : LegacyLoop} (short : loop.fields.length < 4) :
    loop.run = .ok loop := by
  rw [LegacyLoop.run, if_neg (by omega)]

theorem LegacyLoop.run_of_step_ok {loop target : LegacyLoop} (room : 4 ≤ loop.fields.length)
    (stepped : loop.step = .ok target) : loop.run = target.run := by
  rw [LegacyLoop.run, if_pos room]
  split <;> simp_all

theorem LegacyLoop.run_of_step_error {loop : LegacyLoop} {err : Failure}
    (room : 4 ≤ loop.fields.length) (stepped : loop.step = .error err) :
    loop.run = .error err := by
  rw [LegacyLoop.run, if_pos room]
  split <;> simp_all

/-- On fields of the right lengths the loop consumes everything and keeps the
variables that the decoder keeps. -/
theorem LegacyLoop.Mirrors.run_of_sized {fields : List Tlv} {loop : LegacyLoop}
    {m : VersionMetadata} (mirrors : loop.Mirrors m) (bytes : loop.fields = encodeAll fields)
    (sized : ∀ field ∈ fields, LegacySized field) :
    ∃ final, loop.run = .ok final ∧ final.fields = [] ∧
      final.Mirrors (fields.foldl VersionMetadata.apply m) := by
  induction fields generalizing loop m with
  | nil => exact ⟨loop, LegacyLoop.run_of_short (by simp [bytes]), bytes, mirrors⟩
  | cons field fields ih =>
      obtain ⟨first, rest⟩ := List.forall_mem_cons.mp sized
      rw [encodeAll_cons] at bytes
      obtain ⟨target, stepped, remaining, mirrors⟩ := mirrors.step bytes first
      have room : 4 ≤ loop.fields.length := by simp [bytes]; omega
      rw [LegacyLoop.run_of_step_ok room stepped]
      exact ih mirrors remaining rest

/-- The loop consumes everything only if its input is a sequence of fields of the
right lengths. -/
theorem LegacyLoop.Mirrors.exists_fields {loop final : LegacyLoop} {m : VersionMetadata}
    (mirrors : loop.Mirrors m) (ended : loop.run = .ok final) (consumed : final.fields = []) :
    ∃ fields, loop.fields = encodeAll fields ∧ ∀ field ∈ fields, LegacySized field := by
  induction size : loop.fields.length using Nat.strong_induction_on generalizing loop m with
  | _ size ih =>
      by_cases room : 4 ≤ loop.fields.length
      · by_cases complete : ∃ field rest, loop.fields = Tlv.encode field ++ rest
        · obtain ⟨field, rest, bytes⟩ := complete
          by_cases sized : LegacySized field
          · obtain ⟨target, stepped, rfl, mirrors⟩ := mirrors.step bytes sized
            have shorter := LegacyLoop.length_of_step stepped
            rw [LegacyLoop.run_of_step_ok room stepped] at ended
            obtain ⟨fields, rest, rested⟩ := ih _ (by omega) mirrors ended rfl
            refine ⟨field :: fields, ?_, List.forall_mem_cons.mpr ⟨sized, rested⟩⟩
            rw [bytes, encodeAll_cons, rest]
          · have failed : loop.step = .error (.handshake .invalidLength) := by
              rw [LegacyLoop.step_eq, readField_encode bytes, LegacyLoop.switch_of_not_sized sized]
              rfl
            rw [LegacyLoop.run_of_step_error room failed] at ended
            cases ended
        · have failed : loop.step = .error (.handshake .invalidLength) := by
            refine (LegacyLoop.step_eq loop).trans (readField_incomplete room ?_)
            exact fun field rest bytes => complete ⟨field, rest, bytes⟩
          rw [LegacyLoop.run_of_step_error room failed] at ended
          cases ended
      · rw [LegacyLoop.run_of_short (Nat.lt_of_not_le room)] at ended
        cases ended
        exact ⟨[], consumed, fun _ member => absurd member List.not_mem_nil⟩

/-! ## The message -/

/-- What the 0.5 parser requires of the fields and the signature of a hello. -/
structure LegacyRules (c : Crypto) (password sig : Bytes) (fields : List Tlv) : Prop where
  sized : ∀ field ∈ fields, LegacySized field
  major : (metadataOf [] fields).majorVer = protocolVersionMajor
  minor : (metadataOf [] fields).minorVer = protocolVersionMinor
  passwordFits : password.length ≤ 64
  keySize : (keyOf fields).length = publicKeySize
  legacy : c.verify (keyOf fields) (c.blake2b password (keyOf fields)) sig = true

theorem LegacyLoop.authenticate_eq_ok_iff {c : Crypto} {loop : LegacyLoop}
    {password sig : Bytes} :
    loop.authenticate c password sig = .ok () ↔
      loop.fields = [] ∧ loop.major = protocolVersionMajor ∧ loop.minor = protocolVersionMinor ∧
        password.length ≤ 64 ∧ loop.publicKey.length = publicKeySize ∧
        c.verify loop.publicKey (c.blake2b password loop.publicKey) sig = true := by
  unfold LegacyLoop.authenticate Crypto.legacyHandshakeHash Crypto.sum512 Crypto.ed25519Verify
  by_cases current : loop.fields = [] ∧ loop.major = protocolVersionMajor ∧
      loop.minor = protocolVersionMinor
  · obtain ⟨empty, major, minor⟩ := current
    rw [if_neg (by simp [empty, major, minor])]
    by_cases short : password.length ≤ 64
    · have fits : ¬ password.length > 64 := Nat.not_lt_of_le short
      by_cases size : loop.publicKey.length = publicKeySize
      · simp [empty, major, minor, short, fits, size]
      · simp only [fits, if_false, ok_bind, size, ne_eq, not_false_eq_true, if_true, false_and,
          and_false, iff_false]
        nofun
    · simp only [Nat.lt_of_not_le short, if_true, short, false_and, and_false, iff_false]
      nofun
  · rw [if_pos (by grind)]
    constructor
    · nofun
    · rintro ⟨empty, major, minor, -⟩
      exact absurd ⟨empty, major, minor⟩ current

/-- The header of a message in one piece. -/
theorem exists_frame {message : Bytes} (long : 6 ≤ message.length)
    (magic : message.take 4 = preamble)
    (announced : ofBigEndian ((message.take 6).drop 4) = message.length - 6) :
    message = frame preamble (message.drop 6) := by
  have lengthSize : ((message.take 6).drop 4).length = 2 := by simp; omega
  have taken : (message.take 6).take 4 = preamble := by rw [List.take_take]; exact magic
  calc
    message = message.take 6 ++ message.drop 6 := (List.take_append_drop 6 message).symm
    _ = (message.take 6).take 4 ++ (message.take 6).drop 4 ++ message.drop 6 := by
        rw [List.take_append_drop 4 (message.take 6)]
    _ = frame preamble (message.drop 6) := by
        rw [frame, taken, List.length_drop, ← announced, bigEndian_two_ofBigEndian lengthSize]

/-- A framed message is cut into its fields and its signature. -/
theorem decodeLegacy05_frame (c : Crypto) {fieldBytes sig : Bytes} (password : Bytes)
    (fits : (fieldBytes ++ sig).length < 2 ^ 16) (size : sig.length = signatureSize) :
    decodeLegacy05ForTest c (frame preamble (fieldBytes ++ sig)) password =
      LegacyLoop.run ⟨[], 0, 0, fieldBytes⟩ >>= fun loop => loop.authenticate c password sig := by
  have total : (fieldBytes ++ sig).length = fieldBytes.length + signatureSize := by
    rw [List.length_append, size]
  have length : (frame preamble (fieldBytes ++ sig)).length = 6 + (fieldBytes ++ sig).length := by
    rw [length_frame, length_preamble]
  have magic : slice (frame preamble (fieldBytes ++ sig)) 0 4 = .ok preamble := by
    rw [slice_zero (by omega), frame, List.append_assoc, List.take_left' length_preamble]
  have header : slice (frame preamble (fieldBytes ++ sig)) 4 6 =
      .ok (bigEndian 2 (fieldBytes ++ sig).length) := by
    rw [slice, if_pos ⟨by omega, by omega⟩]
    simp [frame, List.take_append]
  have announced : uint16 (bigEndian 2 (fieldBytes ++ sig).length) =
      .ok (UInt16.ofNat (fieldBytes ++ sig).length) := by
    rw [uint16_of_length (length_bigEndian ..), ofBigEndian_bigEndian_of_lt fits]
  have body : slice (frame preamble (fieldBytes ++ sig)) 6
      (frame preamble (fieldBytes ++ sig)).length = .ok (fieldBytes ++ sig) := by
    rw [slice_length (by omega), frame, List.drop_left' (by simp)]
  unfold decodeLegacy05ForTest
  simp only [magic, header, announced, body, ok_bind, UInt16.toNat_ofNat_of_lt' fits]
  rw [if_neg (by omega), if_neg (by simp), if_neg (by omega), slice_length (by omega),
    slice_zero (by omega), total, Nat.add_sub_cancel, List.take_left, List.drop_left]
  rfl

/-- Only framed messages are accepted. -/
theorem exists_frame_of_decodeLegacy05 {c : Crypto} {message password : Bytes}
    (accepted : decodeLegacy05ForTest c message password = .ok ()) :
    ∃ body, Framed body ∧ message = frame preamble body := by
  unfold decodeLegacy05ForTest at accepted
  split at accepted
  · cases accepted
  rename_i long
  rw [slice_zero (by omega), ok_bind] at accepted
  split at accepted
  · cases accepted
  rename_i magic
  have lengthSize : ((message.take 6).drop 4).length = 2 := by simp; omega
  rw [slice, if_pos ⟨by omega, by omega⟩, ok_bind, uint16_of_length lengthSize, ok_bind] at accepted
  split at accepted
  · cases accepted
  rename_i announced
  have bound : ofBigEndian ((message.take 6).drop 4) < 2 ^ 16 := by
    have small := ofBigEndian_lt ((message.take 6).drop 4)
    rwa [lengthSize] at small
  rw [UInt16.toNat_ofNat_of_lt' bound, ne_eq, not_not] at announced
  refine ⟨message.drop 6, ⟨?_, ?_⟩, exists_frame (by omega) (not_not.mp magic) announced⟩
  · rw [List.length_drop]
    omega
  · rw [List.length_drop, ← announced]
    exact bound

/-- The 0.5 parser accepts exactly the framed messages that obey its rules. -/
theorem decodeLegacy05_eq_ok_iff {c : Crypto} {message password : Bytes} :
    decodeLegacy05ForTest c message password = .ok () ↔
      ∃ fields sig, message = frame preamble (encodeAll fields ++ sig) ∧
        (encodeAll fields ++ sig).length < 2 ^ 16 ∧ sig.length = signatureSize ∧
        LegacyRules c password sig fields := by
  have start (fieldBytes : Bytes) : LegacyLoop.Mirrors ⟨[], 0, 0, fieldBytes⟩ {} :=
    ⟨rfl, rfl, rfl⟩
  constructor
  · intro accepted
    obtain ⟨body, framed, rfl⟩ := exists_frame_of_decodeLegacy05 accepted
    obtain ⟨fieldBytes, sig, size, rfl⟩ := exists_signature framed.1
    rw [decodeLegacy05_frame c password framed.2 size] at accepted
    obtain ⟨final, ended, authenticated⟩ := bind_eq_ok_iff.mp accepted
    obtain ⟨consumed, major, minor, short, keySize, legacy⟩ :=
      LegacyLoop.authenticate_eq_ok_iff.mp authenticated
    obtain ⟨fields, rfl, sized⟩ := (start fieldBytes).exists_fields ended consumed
    obtain ⟨same, ended', -, mirrors⟩ := (start _).run_of_sized rfl sized
    cases ended.symm.trans ended'
    rw [foldl_apply_eq_metadataOf] at mirrors
    rw [mirrors.publicKey] at keySize legacy
    exact ⟨fields, sig, rfl, framed.2, size, sized, mirrors.major ▸ major, mirrors.minor ▸ minor,
      short, keySize, legacy⟩
  · rintro ⟨fields, sig, rfl, fits, size, rules⟩
    rw [decodeLegacy05_frame c password fits size]
    obtain ⟨final, ended, consumed, mirrors⟩ := (start _).run_of_sized rfl rules.sized
    rw [foldl_apply_eq_metadataOf] at mirrors
    refine bind_eq_ok_iff.mpr ⟨final, ended, LegacyLoop.authenticate_eq_ok_iff.mpr
      ⟨consumed, mirrors.major.trans rules.major, mirrors.minor.trans rules.minor,
        rules.passwordFits, ?_, ?_⟩⟩
    · rw [mirrors.publicKey]
      exact rules.keySize
    · rw [mirrors.publicKey]
      exact rules.legacy

/-! ## Compatibility -/

/-- The message is one frame, whatever its first four bytes are. -/
def OneMessage (message : Bytes) : Prop :=
  ∃ magic body, magic.length = 4 ∧ body.length < 2 ^ 16 ∧ message = frame magic body

/-- The message consists of the fields that 0.5 nodes send, with a priority of one
byte. -/
def LegacyOnly (message : Bytes) : Prop :=
  ∃ fields sig, message = frame preamble (encodeAll fields ++ sig) ∧
    (encodeAll fields ++ sig).length < 2 ^ 16 ∧ sig.length = signatureSize ∧
    ∀ field ∈ fields, field.tag ≤ MetaOp.priority.code ∧
      (field.tag = MetaOp.priority.code → field.value.length = 1)

/-- Nothing follows the frame of a single message. -/
theorem OneMessage.rest_eq_nil {body rest : Bytes} (one : OneMessage (frame preamble body ++ rest))
    (fits : body.length < 2 ^ 16) : rest = [] := by
  obtain ⟨magic, other, magicSize, otherFits, same⟩ := one
  have magics : preamble = magic := by
    simp only [frame, List.append_assoc] at same
    exact (List.append_inj same (by rw [magicSize, length_preamble])).1
  subst magics
  rw [← List.append_nil (frame preamble other)] at same
  exact (frame_append_inj fits otherFits same).2

theorem Accepted.sized {before : Bytes} {fields : List Tlv} (accepted : Accepted before fields) :
    ∀ field ∈ fields, Sized field := by
  induction fields generalizing before with
  | nil => exact fun _ member => absurd member List.not_mem_nil
  | cons field fields ih =>
      exact List.forall_mem_cons.mpr ⟨accepted.1, ih accepted.2.2⟩

theorem Sized.legacy {field : Tlv} (sized : Sized field) : LegacySized field :=
  fun op _ tag => sized op (MetaOp.ofCode_eq_some_iff.mpr tag.symm)

/-- What the decoder and `check` accept, the 0.5 parser accepts. -/
theorem decodeLegacy05_of_decode {c : Crypto} {message password : Bytes} {m : VersionMetadata}
    {made : List Verification} (one : OneMessage message)
    (decoded : (VersionMetadata.decode c {} message password).result = .ok (m, made))
    (checked : m.check = true) : decodeLegacy05ForTest c message password = .ok () := by
  obtain ⟨fields, sig, bytes, fits, size, accepted, authenticated⟩ :=
    VersionMetadata.decode_eq_ok_iff.mp decoded
  rw [bytes] at one
  rw [one.rest_eq_nil fits, List.append_nil] at bytes
  rw [foldl_apply_eq_metadataOf] at authenticated
  obtain ⟨keySize, short, legacy, rfl, -⟩ :=
    VersionMetadata.authenticate_eq_ok_iff.mp authenticated
  obtain ⟨major, minor, -⟩ := VersionMetadata.check_eq_true_iff.mp checked
  exact decodeLegacy05_eq_ok_iff.mpr ⟨fields, sig, bytes, fits, size,
    fun field member => (accepted.sized field member).legacy, major, minor, short, keySize, legacy⟩

/-- A field that 0.5 nodes send is read by the decoder as well. -/
theorem LegacySized.sized {field : Tlv} (sized : LegacySized field)
    (known : field.tag ≤ MetaOp.priority.code)
    (priority : field.tag = MetaOp.priority.code → field.value.length = 1) : Sized field := by
  intro op code
  have tag := (MetaOp.ofCode_eq_some_iff.mp code).symm
  rw [tag] at known
  cases op with
  | versionMajor | versionMinor | publicKey => exact sized _ (by simp) tag
  | priority => exact priority tag
  | nonce | capabilities | transcriptSignature => exact absurd known (by decide)

theorem lastValue_eq_none {op : MetaOp} {fields : List Tlv}
    (absent : ∀ field ∈ fields, field.tag ≠ op.code) : lastValue op fields = none := by
  rw [← Option.not_isSome_iff_eq_none, isSome_lastValue_iff]
  rintro ⟨field, member, tag⟩
  exact absent field member tag

/-- What the 0.5 parser accepts, the decoder accepts, if the message has no newer
fields. -/
theorem decode_of_decodeLegacy05 {c : Crypto} {message password : Bytes}
    (accepted : decodeLegacy05ForTest c message password = .ok ()) (old : LegacyOnly message) :
    ∃ m made, (VersionMetadata.decode c {} message password).result = .ok (m, made) ∧
      m.check = true ∧ m.supportsHandshakeConfirmation = false := by
  obtain ⟨fields, sig, rfl, fits, size, rules⟩ := decodeLegacy05_eq_ok_iff.mp accepted
  obtain ⟨others, otherSig, same, otherFits, otherSize, known⟩ := old
  obtain ⟨rfl, rfl, -⟩ := @hello_append_inj fields others sig otherSig [] [] fits otherFits
    (size.trans otherSize.symm) (by rw [same])
  have newer : ∀ op : MetaOp, MetaOp.priority.code < op.code →
      ∀ field ∈ fields, field.tag ≠ op.code := by
    intro op later field member tag
    exact absurd (tag ▸ (known field member).1) (UInt16.not_le.mpr later)
  have incapable : (metadataOf [] fields).supportsHandshakeConfirmation = false := by
    simp [VersionMetadata.supportsHandshakeConfirmation, metadataOf,
      lastValue_eq_none (newer .capabilities (by decide))]
  have sized : ∀ field ∈ fields, Sized field := fun field member =>
    (rules.sized field member).sized (known field member).1 (known field member).2
  have obeyed : Rules c password sig [] fields := by
    refine ⟨sized, fun field member signature => ?_, ?_, rules.passwordFits, rules.legacy, ?_⟩
    · exact newer .transcriptSignature (by decide) field (List.dropLast_subset _ member) signature
    · exact (length_keyOf_iff sized).mp rules.keySize
    · intro capable
      rw [incapable] at capable
      cases capable
  obtain ⟨made, decoded⟩ := decode_of_rules fits size obeyed []
  rw [List.append_nil] at decoded
  refine ⟨_, made, congrArg Decoding.result decoded, ?_, incapable⟩
  refine VersionMetadata.check_eq_true_iff.mpr ⟨rules.major, rules.minor, rules.keySize, ?_⟩
  intro capable
  cases incapable.symm.trans capable

/-- The hello of a node is accepted by the 0.5 parser. -/
theorem decodeLegacy05_of_encode {c : Crypto} {m : VersionMetadata}
    {random : Option (Vector UInt8 32)} {privateKey : c.PrivateKey} {password : Bytes}
    {encoded : Encoded}
    (signs : ∀ hash, c.verify (c.publicKey privateKey) hash (c.sign privateKey hash) = true)
    (major : m.majorVer = protocolVersionMajor) (minor : m.minorVer = protocolVersionMinor)
    (own : m.publicKey = c.publicKey privateKey)
    (sent : m.encode c random privateKey password = .ok encoded) :
    decodeLegacy05ForTest c encoded.bytes password = .ok () := by
  have size : m.publicKey.length = publicKeySize := by rw [own, c.length_publicKey]
  obtain ⟨nonce, -, short, rfl⟩ := (VersionMetadata.encode_eq_ok_iff size).mp sent
  have read := metadataOf_allHelloFields c
    { m with nonce := nonce, capabilities := capabilityHandshakeConfirmation } size privateKey
    password []
  refine decodeLegacy05_eq_ok_iff.mpr ⟨_, _, rfl, (framed_helloBody ..).2, c.length_sign .., ?_⟩
  refine ⟨fun field member => (sized_allHelloFields _ _ _ _ _ field member).legacy,
    (congrArg VersionMetadata.majorVer read).trans major,
    (congrArg VersionMetadata.minorVer read).trans minor, short, ?_, ?_⟩
  · rw [keyOf_allHelloFields]
    exact size
  · rw [keyOf_allHelloFields, own]
    exact signs _

/-- Compatibility with 0.5 in both directions: the 0.5 parser accepts every single
message that the decoder and `check` accept, among them every hello that the
encoder sends, and what it accepts of the fields it knows is accepted by the
decoder, without a confirmation to follow. -/
theorem legacy05_compatible (c : Crypto)
    (signs : ∀ privateKey hash,
      c.verify (c.publicKey privateKey) hash (c.sign privateKey hash) = true)
    (password : Bytes) :
    (∀ message m made, OneMessage message →
      (VersionMetadata.decode c {} message password).result = .ok (m, made) → m.check = true →
        decodeLegacy05ForTest c message password = .ok ()) ∧
    (∀ message, OneMessage message → decodeLegacy05ForTest c message password = .ok () →
      LegacyOnly message →
        ∃ m made, (VersionMetadata.decode c {} message password).result = .ok (m, made) ∧
          m.check = true ∧ m.supportsHandshakeConfirmation = false) ∧
    (∀ (m : VersionMetadata) random privateKey encoded, m.majorVer = protocolVersionMajor →
      m.minorVer = protocolVersionMinor → m.publicKey = c.publicKey privateKey →
      m.encode c random privateKey password = .ok encoded →
        decodeLegacy05ForTest c encoded.bytes password = .ok ()) := by
  refine ⟨?_, ?_, ?_⟩
  · intro message m made one decoded checked
    exact decodeLegacy05_of_decode one decoded checked
  · intro message _ accepted old
    exact decode_of_decodeLegacy05 accepted old
  · intro m random privateKey encoded major minor own sent
    exact decodeLegacy05_of_encode (signs privateKey) major minor own sent

/-- The metadata of a node with the key 7. -/
def nodeSeven : VersionMetadata :=
  { versionGetBaseMetadata with publicKey := checksumCrypto.publicKey (7 : UInt8), priority := 3 }

/-- The hello of a node, as the 0.5 parser sees it. -/
theorem legacy05_accepts_nodeSeven :
    ∃ encoded, nodeSeven.encode checksumCrypto (some (Vector.replicate 32 9)) (7 : UInt8) [] =
        .ok encoded ∧
      decodeLegacy05ForTest checksumCrypto encoded.bytes [] = .ok () := by
  have sent :
      nodeSeven.encode checksumCrypto (some (Vector.replicate 32 9)) (7 : UInt8) [] = .ok _ :=
    (VersionMetadata.encode_eq_ok_iff rfl).mpr ⟨_, rfl, by decide, rfl⟩
  exact ⟨_, sent, (legacy05_compatible checksumCrypto checksumCrypto_verify_sign []).2.2
    nodeSeven _ _ _ rfl rfl rfl sent⟩

end Uqda.Handshake
