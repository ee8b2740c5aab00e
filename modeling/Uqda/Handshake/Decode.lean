import Uqda.Handshake.Core
import Mathlib.Data.List.Induction

/-!
# Which hellos the decoder accepts

The field loop is described on the list of fields that its input encodes.  It
never panics, it assigns the last value of each field, and it enforces the
position of the transcript signature with one exception: a transcript signature
in front of all other fields leaves the loop's flag unset.
-/

namespace Uqda.Handshake

open Uqda.Addressing Uqda.Wire

/-! ## Fields -/

theorem MetaOp.ofCode_eq_some_iff {code : UInt16} {op : MetaOp} :
    MetaOp.ofCode code = some op ↔ op.code = code := by
  constructor
  · intro found
    simpa using List.find?_some found
  · rintro rfl
    cases op <;> rfl

/-- The field has the length its operation requires. -/
def Sized (field : Tlv) : Prop :=
  ∀ op, MetaOp.ofCode field.tag = some op → field.value.length = op.size

instance (field : Tlv) : Decidable (Sized field) :=
  inferInstanceAs (Decidable (∀ op ∈ MetaOp.ofCode field.tag, field.value.length = op.size))

/-- The field is a transcript signature. -/
def IsSignature (field : Tlv) : Prop :=
  field.tag = MetaOp.transcriptSignature.code

instance (field : Tlv) : Decidable (IsSignature field) :=
  inferInstanceAs (Decidable (field.tag = MetaOp.transcriptSignature.code))

/-- The assignment of a field of the right length. -/
def VersionMetadata.set (m : VersionMetadata) (value : Bytes) : MetaOp → VersionMetadata
  | .versionMajor => { m with majorVer := UInt16.ofNat (ofBigEndian value) }
  | .versionMinor => { m with minorVer := UInt16.ofNat (ofBigEndian value) }
  | .publicKey => { m with publicKey := value }
  | .priority => { m with priority := value.headD 0 }
  | .nonce => { m with nonce := copyAt (Vector.replicate 32 0) 0 value }
  | .capabilities => { m with capabilities := UInt32.ofNat (ofBigEndian value) }
  | .transcriptSignature => { m with transcriptSignature := value }

/-- What a field does to the metadata. -/
def VersionMetadata.apply (m : VersionMetadata) (field : Tlv) : VersionMetadata :=
  match MetaOp.ofCode field.tag with
  | none => m
  | some op => m.set field.value op

/-- A full copy leaves nothing of the destination. -/
theorem copyAt_zero_of_length {n : Nat} (first second : Vector UInt8 n) {src : Bytes}
    (size : src.length = n) : copyAt first 0 src = copyAt second 0 src := by
  apply Vector.ext
  intro i bound
  have inside : i < src.length := size ▸ bound
  simp [copyAt, inside]

theorem uint16_of_length {bs : Bytes} (size : bs.length = 2) :
    uint16 bs = .ok (UInt16.ofNat (ofBigEndian bs)) := by
  rw [uint16, if_pos (Nat.le_of_eq size.symm), List.take_of_length_le (Nat.le_of_eq size)]

theorem uint32_of_length {bs : Bytes} (size : bs.length = 4) :
    uint32 bs = .ok (UInt32.ofNat (ofBigEndian bs)) := by
  rw [uint32, if_pos (Nat.le_of_eq size.symm), List.take_of_length_le (Nat.le_of_eq size)]

/-- A field of the right length is assigned without a panic. -/
theorem VersionMetadata.assign_of_length (m : VersionMetadata) {value : Bytes} {op : MetaOp}
    (size : value.length = op.size) : m.assign value op = .ok (m.set value op) := by
  cases op with
  | versionMajor => simp [assign, set, uint16_of_length size]
  | versionMinor => simp [assign, set, uint16_of_length size]
  | publicKey => rfl
  | priority =>
      obtain ⟨byte, rfl⟩ := List.length_eq_one_iff.mp size
      rfl
  | nonce => rw [assign, set, copyAt_zero_of_length m.nonce _ size]; rfl
  | capabilities => simp [assign, set, uint32_of_length size]
  | transcriptSignature => rfl

theorem VersionMetadata.check_eq_true_iff {m : VersionMetadata} :
    m.check = true ↔
      m.majorVer = protocolVersionMajor ∧ m.minorVer = protocolVersionMinor ∧
        m.publicKey.length = publicKeySize ∧
        (m.supportsHandshakeConfirmation → m.nonce ≠ Vector.replicate 32 0) := by
  unfold check
  grind

/-! ## One iteration -/

theorem slice_zero {bs : Bytes} {high : Nat} (bound : high ≤ bs.length) :
    slice bs 0 high = .ok (bs.take high) := by
  simp [slice, bound]

theorem slice_length {bs : Bytes} {low : Nat} (bound : low ≤ bs.length) :
    slice bs low bs.length = .ok (bs.drop low) := by
  simp [slice, bound]

/-- The switch on a field of the right length. -/
theorem Loop.switch_of_sized {loop : Loop} {allFields : Bytes} {field : Tlv}
    (sized : Sized field) (unsigned : loop.signedFields = none)
    (inside : loop.offset ≤ allFields.length) :
    loop.switch allFields field.tag field.value = .ok { loop with
      m := loop.m.apply field
      signedFields :=
        if IsSignature field then appendToNil (allFields.take loop.offset) else none } := by
  unfold Loop.switch VersionMetadata.apply
  cases known : MetaOp.ofCode field.tag with
  | none =>
      have other : ¬ IsSignature field := by
        intro signature
        rw [IsSignature.eq_1, eq_comm, ← MetaOp.ofCode_eq_some_iff, known] at signature
        cases signature
      cases loop
      cases unsigned
      simp [other]
  | some op =>
      have size := sized op known
      have tag := MetaOp.ofCode_eq_some_iff.mp known
      have assigned := loop.m.assign_of_length size
      cases op with
      | transcriptSignature =>
          have signature : IsSignature field := tag.symm
          simp [size, unsigned, signature, assigned, slice_zero inside, MetaOp.size]
      | _ =>
          have other : ¬ IsSignature field := by
            intro signature
            rw [IsSignature, ← tag] at signature
            exact absurd signature (by decide)
          cases loop
          cases unsigned
          simp [size, other, assigned]

/-- The switch on a field of the wrong length. -/
theorem Loop.switch_of_not_sized {loop : Loop} {allFields : Bytes} {field : Tlv}
    (illSized : ¬ Sized field) :
    loop.switch allFields field.tag field.value = .error (.handshake .invalidLength) := by
  simp only [Sized, not_forall] at illSized
  obtain ⟨op, known, wrong⟩ := illSized
  unfold Loop.switch
  rw [known]
  cases op with
  | transcriptSignature =>
      have wrong : field.value.length ≠ signatureSize := wrong
      simp [wrong]
  | _ => simp [wrong]

/-- What the iterations of the field loops do with their bytes: a header, a value
of the announced length for the switch, and the rest. -/
def readField {α β : Type} (bs : Bytes) (switch : UInt16 → Bytes → Except Failure α)
    (onward : α → UInt16 → Bytes → Except Failure β) : Except Failure β := do
  let op ← uint16 (← slice bs 0 2)
  let oplen ← uint16 (← slice bs 2 4)
  let bs ← slice bs 4 bs.length
  if bs.length < oplen.toNat then
    .error (.handshake .invalidLength)
  else
    let field ← slice bs 0 oplen.toNat
    let next ← switch op field
    let bs ← slice bs oplen.toNat bs.length
    onward next oplen bs

section ReadField

variable {α β : Type} {bs : Bytes} {switch : UInt16 → Bytes → Except Failure α}
  {onward : α → UInt16 → Bytes → Except Failure β}

/-- An iteration with its reads carried out. -/
theorem readField_eq {oplen : UInt16} (room : 4 ≤ bs.length)
    (announced : ofBigEndian ((bs.take 4).drop 2) = oplen.toNat) :
    readField bs switch onward =
      if bs.length - 4 < oplen.toNat then
        .error (.handshake .invalidLength)
      else
        switch (UInt16.ofNat (ofBigEndian (bs.take 2))) ((bs.drop 4).take oplen.toNat) >>=
          fun next => onward next oplen ((bs.drop 4).drop oplen.toNat) := by
  have lengthSize : ((bs.take 4).drop 2).length = 2 := by simp; omega
  have header : slice bs 2 4 = .ok ((bs.take 4).drop 2) := by
    rw [slice, if_pos (by omega)]
  unfold readField
  rw [slice_zero (by omega), header, slice_length room]
  simp only [ok_bind, uint16_of_length (show (bs.take 2).length = 2 by simp; omega),
    uint16_of_length lengthSize, announced, UInt16.ofNat_toNat, List.length_drop]
  split
  · rfl
  · rename_i complete
    have fits : oplen.toNat ≤ (bs.drop 4).length := by simp; omega
    rw [slice_zero fits, ← List.length_drop, slice_length fits]
    rfl

/-- An iteration on bytes that begin with a field. -/
theorem readField_encode {field : Tlv} {rest : Bytes} (bytes : bs = field.encode ++ rest) :
    readField bs switch onward =
      switch field.tag field.value >>= fun next =>
        onward next (UInt16.ofNat field.value.length) rest := by
  obtain ⟨tag, announced, body⟩ := field.encode_append rest
  have size : bs.length = 4 + field.value.length + rest.length := by simp [bytes]
  have written : (UInt16.ofNat field.value.length).toNat = field.value.length :=
    UInt16.toNat_ofNat_of_lt' field.fits
  rw [readField_eq (by omega) (bytes ▸ announced.trans written.symm), if_neg (by omega), bytes,
    tag, body, UInt16.ofNat_toNat, written, List.take_left, List.drop_left]

/-- An iteration on bytes that do not begin with a complete field. -/
theorem readField_incomplete (room : 4 ≤ bs.length)
    (incomplete : ∀ field rest, bs ≠ Tlv.encode field ++ rest) :
    readField bs switch onward = .error (.handshake .invalidLength) := by
  have bound : ofBigEndian ((bs.take 4).drop 2) < 2 ^ 16 := by
    have small := ofBigEndian_lt ((bs.take 4).drop 2)
    rwa [show ((bs.take 4).drop 2).length = 2 by simp; omega] at small
  rw [readField_eq room (UInt16.toNat_ofNat_of_lt' bound).symm, if_pos]
  by_contra complete
  rw [UInt16.toNat_ofNat_of_lt' bound] at complete
  obtain ⟨field, rest, bytes⟩ := Tlv.exists_encode_append room (by omega)
  exact incomplete field rest bytes

end ReadField

theorem Loop.step_eq {loop : Loop} {allFields : Bytes} (unsigned : loop.signedFields = none) :
    loop.step allFields = readField loop.bs (loop.switch allFields) fun next oplen bs =>
      .ok { next with offset := next.offset + (4 + oplen.toNat), bs := bs } := by
  unfold Loop.step
  rw [unsigned]
  rfl

theorem Loop.step_encode {loop : Loop} {allFields rest : Bytes} {field : Tlv}
    (unsigned : loop.signedFields = none) (bytes : loop.bs = field.encode ++ rest) :
    loop.step allFields = do
      let next ← loop.switch allFields field.tag field.value
      return { next with offset := next.offset + (4 + field.value.length), bs := rest } := by
  rw [Loop.step_eq unsigned, readField_encode bytes, UInt16.toNat_ofNat_of_lt' field.fits]
  rfl

theorem Loop.step_incomplete {loop : Loop} {allFields : Bytes}
    (unsigned : loop.signedFields = none) (room : 4 ≤ loop.bs.length)
    (incomplete : ∀ field rest, loop.bs ≠ Tlv.encode field ++ rest) :
    loop.step allFields = .error (.handshake .invalidLength) :=
  (Loop.step_eq unsigned).trans (readField_incomplete room incomplete)

/-! ## The loop -/

/-- What the loop requires of the remaining fields when the bytes `before` have
been consumed: their lengths, and that no field follows a transcript signature
unless that signature is the first field of all. -/
def Accepted : Bytes → List Tlv → Prop
  | _, [] => True
  | before, field :: fields =>
      Sized field ∧ (IsSignature field → before ≠ [] → fields = []) ∧
        Accepted (before ++ field.encode) fields

/-- The bytes covered by the transcript signature the loop remembers. -/
def signedBytes : Bytes → List Tlv → Option Bytes
  | _, [] => none
  | before, field :: fields =>
      if IsSignature field ∧ before ≠ [] then some before
      else signedBytes (before ++ field.encode) fields

/-- The loop has consumed `before` and remembers no signature. -/
structure Loop.Reading (loop : Loop) (allFields before : Bytes) : Prop where
  unsigned : loop.signedFields = none
  position : loop.offset = before.length
  bytes : allFields = before ++ loop.bs

theorem Loop.run_of_short {loop : Loop} {allFields : Bytes} (short : loop.bs.length < 4) :
    Loop.run allFields loop = .ok loop := by
  rw [Loop.run, if_neg (by omega)]

theorem Loop.run_of_step_ok {loop target : Loop} {allFields : Bytes}
    (room : 4 ≤ loop.bs.length) (stepped : loop.step allFields = .ok target) :
    Loop.run allFields loop = Loop.run allFields target := by
  rw [Loop.run, if_pos room]
  split <;> simp_all

theorem Loop.run_of_step_error {loop : Loop} {allFields : Bytes} {err : Failure}
    (room : 4 ≤ loop.bs.length) (stepped : loop.step allFields = .error err) :
    Loop.run allFields loop = .error err := by
  rw [Loop.run, if_pos room]
  split <;> simp_all

/-- The state after one field of the right length. -/
def Loop.after (loop : Loop) (before : Bytes) (field : Tlv) (rest : Bytes) : Loop where
  m := loop.m.apply field
  signedFields := if IsSignature field then appendToNil before else none
  offset := loop.offset + (4 + field.value.length)
  bs := rest

theorem Loop.Reading.step {loop : Loop} {allFields before rest : Bytes} {field : Tlv}
    (reading : loop.Reading allFields before) (bytes : loop.bs = field.encode ++ rest)
    (sized : Sized field) :
    loop.step allFields = .ok (loop.after before field rest) := by
  have taken : allFields.take loop.offset = before := by
    rw [reading.bytes, reading.position, List.take_left]
  have inside : loop.offset ≤ allFields.length := by
    rw [reading.bytes, reading.position, List.length_append]
    exact Nat.le_add_right _ _
  rw [Loop.step_encode reading.unsigned bytes, Loop.switch_of_sized sized reading.unsigned inside,
    taken]
  rfl

theorem Loop.Reading.after {loop : Loop} {allFields before rest : Bytes} {field : Tlv}
    (reading : loop.Reading allFields before) (bytes : loop.bs = field.encode ++ rest)
    (unremembered : ¬ (IsSignature field ∧ before ≠ [])) :
    (loop.after before field rest).Reading allFields (before ++ field.encode) where
  unsigned := by
    by_cases signature : IsSignature field
    · have first : before = [] := by
        by_contra later
        exact unremembered ⟨signature, later⟩
      simp [Loop.after, first, appendToNil]
    · simp [Loop.after, signature]
  position := by simp [Loop.after, reading.position]
  bytes := by simp [Loop.after, reading.bytes, bytes]

/-- A remembered signature ends the loop. -/
theorem Loop.run_of_signed {loop : Loop} {allFields signed : Bytes}
    (remembered : loop.signedFields = some signed) (room : 4 ≤ loop.bs.length) :
    Loop.run allFields loop = .error (.handshake .invalidLength) := by
  refine Loop.run_of_step_error room ?_
  simp [Loop.step, remembered]

/-- On accepted fields the loop consumes everything, assigns every field and
remembers the last signature. -/
theorem Loop.Reading.run_of_accepted {fields : List Tlv} {loop : Loop}
    {allFields before : Bytes} (reading : loop.Reading allFields before)
    (bytes : loop.bs = encodeAll fields) (accepted : Accepted before fields) :
    Loop.run allFields loop =
      .ok ⟨fields.foldl VersionMetadata.apply loop.m, signedBytes before fields,
        allFields.length, []⟩ := by
  induction fields generalizing loop before with
  | nil =>
      have empty : loop.bs = [] := bytes
      have total : allFields.length = loop.offset := by
        rw [reading.bytes, reading.position, empty, List.append_nil]
      rw [Loop.run_of_short (by simp [empty]), total]
      cases loop
      cases empty
      cases reading.unsigned
      rfl
  | cons field fields ih =>
      obtain ⟨sized, last, accepted⟩ := accepted
      have split : loop.bs = field.encode ++ encodeAll fields := bytes.trans (encodeAll_cons ..)
      have room : 4 ≤ loop.bs.length := by simp [split]; omega
      rw [Loop.run_of_step_ok room (reading.step split sized)]
      by_cases remembered : IsSignature field ∧ before ≠ []
      · obtain ⟨signature, later⟩ := remembered
        have ended := last signature later
        subst ended
        have total : allFields.length = loop.offset + (4 + field.value.length) := by
          rw [reading.bytes, reading.position, split]
          simp
        rw [Loop.run_of_short (by simp [Loop.after])]
        simp [Loop.after, signedBytes, signature, later, appendToNil, total]
      · rw [ih (reading.after split remembered) rfl accepted]
        simp [Loop.after, signedBytes, remembered]

/-- The loop fails only with an invalid length, and consumes everything only if
its input is a sequence of accepted fields. -/
def Loop.Exact (loop : Loop) (allFields before : Bytes) : Prop :=
  Loop.run allFields loop = .error (.handshake .invalidLength) ∨
    ∃ final, Loop.run allFields loop = .ok final ∧
      (final.bs = [] → ∃ fields, loop.bs = encodeAll fields ∧ Accepted before fields)

/-- After a remembered transcript signature nothing more is accepted. -/
theorem Loop.Reading.exact_of_signature {loop : Loop} {allFields before : Bytes} {field : Tlv}
    {rest : Bytes} (reading : loop.Reading allFields before)
    (split : loop.bs = Tlv.encode field ++ rest) (room : 4 ≤ loop.bs.length)
    (sized : Sized field) (signature : IsSignature field) (later : before ≠ []) :
    loop.Exact allFields before := by
  unfold Loop.Exact
  rw [Loop.run_of_step_ok room (reading.step split sized)]
  by_cases more : 4 ≤ rest.length
  · have flagged : (loop.after before field rest).signedFields = some before := by
      simp [Loop.after, signature, appendToNil, later]
    exact Or.inl (Loop.run_of_signed flagged more)
  · refine Or.inr ⟨_, Loop.run_of_short (Nat.lt_of_not_le more), ?_⟩
    intro empty
    have empty : rest = [] := empty
    exact ⟨[field], by simp [split, empty], sized, fun _ _ => rfl, trivial⟩

/-- Any other field is consumed and the loop goes on. -/
theorem Loop.Reading.exact_of_field {loop : Loop} {allFields before : Bytes} {field : Tlv}
    {rest : Bytes} (reading : loop.Reading allFields before)
    (split : loop.bs = Tlv.encode field ++ rest) (room : 4 ≤ loop.bs.length)
    (sized : Sized field) (remembered : ¬ (IsSignature field ∧ before ≠ []))
    (onward : (loop.after before field rest).Exact allFields (before ++ field.encode)) :
    loop.Exact allFields before := by
  unfold Loop.Exact
  rw [Loop.run_of_step_ok room (reading.step split sized)]
  rcases onward with failed | ⟨final, ended, consumed⟩
  · exact Or.inl failed
  · refine Or.inr ⟨final, ended, fun empty => ?_⟩
    obtain ⟨fields, restBytes, accepted⟩ := consumed empty
    refine ⟨field :: fields, ?_, sized, fun signature later => ?_, accepted⟩
    · rw [split, encodeAll_cons, ← restBytes]
      rfl
    · exact absurd ⟨signature, later⟩ remembered

theorem Loop.Reading.run_cases {loop : Loop} {allFields before : Bytes}
    (reading : loop.Reading allFields before) : loop.Exact allFields before := by
  induction size : loop.bs.length using Nat.strong_induction_on generalizing loop before with
  | _ size ih =>
      by_cases room : 4 ≤ loop.bs.length
      · by_cases complete : ∃ field rest, loop.bs = Tlv.encode field ++ rest
        · obtain ⟨field, rest, split⟩ := complete
          by_cases sized : Sized field
          · by_cases remembered : IsSignature field ∧ before ≠ []
            · exact reading.exact_of_signature split room sized remembered.1 remembered.2
            · have shorter := Loop.length_of_step (reading.step split sized)
              exact reading.exact_of_field split room sized remembered
                (ih _ (by omega) (reading.after split remembered) rfl)
          · refine Or.inl (Loop.run_of_step_error room ?_)
            rw [Loop.step_encode reading.unsigned split, Loop.switch_of_not_sized sized]
            rfl
        · refine Or.inl (Loop.run_of_step_error room ?_)
          refine Loop.step_incomplete reading.unsigned room ?_
          intro field rest split
          exact complete ⟨field, rest, split⟩
      · refine Or.inr ⟨loop, Loop.run_of_short (Nat.lt_of_not_le room), fun empty => ?_⟩
        exact ⟨[], empty, trivial⟩

/-! ## Last occurrences -/

/-- The value of the last field with the given operation. -/
def lastValue (op : MetaOp) (fields : List Tlv) : Option Bytes :=
  ((fields.filter fun field => field.tag = op.code).getLast?).map Tlv.value

/-- The metadata in which each field is its last occurrence, and the zero value if
it does not occur. -/
def metadataOf (wire : Bytes) (fields : List Tlv) : VersionMetadata where
  majorVer := (lastValue .versionMajor fields).elim 0 fun v => UInt16.ofNat (ofBigEndian v)
  minorVer := (lastValue .versionMinor fields).elim 0 fun v => UInt16.ofNat (ofBigEndian v)
  publicKey := (lastValue .publicKey fields).getD []
  priority := (lastValue .priority fields).elim 0 fun v => v.headD 0
  nonce := (lastValue .nonce fields).elim (Vector.replicate 32 0)
    fun v => copyAt (Vector.replicate 32 0) 0 v
  capabilities := (lastValue .capabilities fields).elim 0 fun v => UInt32.ofNat (ofBigEndian v)
  transcriptSignature := (lastValue .transcriptSignature fields).getD []
  wire := wire

theorem lastValue_concat (op : MetaOp) (fields : List Tlv) (field : Tlv) :
    lastValue op (fields ++ [field]) =
      if field.tag = op.code then some field.value else lastValue op fields := by
  by_cases same : field.tag = op.code <;> simp [lastValue, List.filter_append, same]

theorem MetaOp.code_inj {first second : MetaOp} : first.code = second.code ↔ first = second := by
  constructor
  · intro same
    have found := MetaOp.ofCode_eq_some_iff.mpr same
    rw [MetaOp.ofCode_eq_some_iff.mpr rfl] at found
    exact (Option.some.inj found).symm
  · rintro rfl
    rfl

theorem metadataOf_concat (wire : Bytes) (fields : List Tlv) (field : Tlv) :
    metadataOf wire (fields ++ [field]) = (metadataOf wire fields).apply field := by
  unfold VersionMetadata.apply
  cases known : MetaOp.ofCode field.tag with
  | none =>
      have other : ∀ op : MetaOp, field.tag ≠ op.code := by
        intro op same
        rw [MetaOp.ofCode_eq_some_iff.mpr same.symm] at known
        cases known
      simp [metadataOf, lastValue_concat, other]
  | some op =>
      have tag := MetaOp.ofCode_eq_some_iff.mp known
      cases op <;> simp [metadataOf, lastValue_concat, ← tag, MetaOp.code_inj, VersionMetadata.set]

/-- Assigning the fields in order leaves the last occurrence of each. -/
theorem foldl_apply_eq_metadataOf (wire : Bytes) (fields : List Tlv) :
    fields.foldl VersionMetadata.apply { wire := wire } = metadataOf wire fields := by
  induction fields using List.reverseRecOn with
  | nil => rfl
  | append_singleton fields field ih => rw [List.foldl_concat, ih, metadataOf_concat]

/-! ## Authentication -/

/-- The last part of `decode` succeeds exactly if the key has its size, the
password fits, the legacy signature verifies and, for a peer that advertises
confirmations, a remembered transcript signature verifies. -/
theorem VersionMetadata.authenticate_eq_ok_iff {c : Crypto} {m target : VersionMetadata}
    {password sig : Bytes} {signedFields : Option Bytes} {made : List Verification} :
    m.authenticate c password sig signedFields = .ok (target, made) ↔
      m.publicKey.length = publicKeySize ∧ password.length ≤ 64 ∧
        c.verify m.publicKey (c.blake2b password m.publicKey) sig = true ∧
        target = m ∧
        if m.supportsHandshakeConfirmation then
          ∃ signed, signedFields = some signed ∧
            m.transcriptSignature.length = signatureSize ∧
            c.verify m.publicKey (c.blake2b password (handshakeDomain ++ signed))
              m.transcriptSignature = true ∧
            made = [⟨m.publicKey, password, m.publicKey, sig⟩,
              ⟨m.publicKey, password, handshakeDomain ++ signed, m.transcriptSignature⟩]
        else
          made = [⟨m.publicKey, password, m.publicKey, sig⟩] := by
  unfold authenticate Crypto.legacyHandshakeHash Crypto.handshakeHash Crypto.sum512
    Crypto.ed25519Verify
  by_cases size : m.publicKey.length = publicKeySize
  · by_cases short : password.length ≤ 64
    · have fits : ¬ password.length > 64 := Nat.not_lt_of_le short
      simp only [size, fits, ne_eq, not_true_eq_false, if_false, ok_bind]
      cases legacy : c.verify m.publicKey (c.blake2b password m.publicKey) sig with
      | false => simp
      | true =>
        cases capable : m.supportsHandshakeConfirmation with
        | false => simp [short, eq_comm]
        | true =>
          cases signedFields with
          | none => simp
          | some signed =>
            by_cases sigSize : m.transcriptSignature.length = signatureSize
            · simp only [sigSize, not_true_eq_false, if_false]
              cases transcript : c.verify m.publicKey
                (c.blake2b password (handshakeDomain ++ signed)) m.transcriptSignature with
              | false => simp [transcript]
              | true =>
                constructor
                · intro equal
                  cases equal
                  exact ⟨trivial, short, trivial, rfl, signed, rfl, trivial, transcript, rfl⟩
                · rintro ⟨-, -, -, rfl, other, same, -, -, rfl⟩
                  cases same
                  rfl
            · simp [sigSize]
    · have long : password.length > 64 := Nat.lt_of_not_le short
      simp [size, short, long]
  · simp [size]

/-- When the last part of `decode` succeeds, whatever it returns. -/
theorem VersionMetadata.exists_authenticate_iff {c : Crypto} {m : VersionMetadata}
    {password sig : Bytes} {signedFields : Option Bytes} :
    (∃ out, m.authenticate c password sig signedFields = .ok out) ↔
      m.publicKey.length = publicKeySize ∧ password.length ≤ 64 ∧
        c.verify m.publicKey (c.blake2b password m.publicKey) sig = true ∧
        (m.supportsHandshakeConfirmation →
          ∃ signed, signedFields = some signed ∧
            m.transcriptSignature.length = signatureSize ∧
            c.verify m.publicKey (c.blake2b password (handshakeDomain ++ signed))
              m.transcriptSignature = true) := by
  constructor
  · rintro ⟨⟨target, made⟩, authenticated⟩
    obtain ⟨size, short, legacy, -, transcript⟩ := authenticate_eq_ok_iff.mp authenticated
    refine ⟨size, short, legacy, fun capable => ?_⟩
    rw [if_pos capable] at transcript
    obtain ⟨signed, remembered, sigSize, verified, -⟩ := transcript
    exact ⟨signed, remembered, sigSize, verified⟩
  · rintro ⟨size, short, legacy, transcript⟩
    cases capable : m.supportsHandshakeConfirmation with
    | false =>
        exact ⟨(m, [⟨m.publicKey, password, m.publicKey, sig⟩]),
          authenticate_eq_ok_iff.mpr ⟨size, short, legacy, rfl, by simp [capable]⟩⟩
    | true =>
        obtain ⟨signed, remembered, sigSize, verified⟩ := transcript capable
        exact ⟨(m, [⟨m.publicKey, password, m.publicKey, sig⟩,
            ⟨m.publicKey, password, handshakeDomain ++ signed, m.transcriptSignature⟩]),
          authenticate_eq_ok_iff.mpr ⟨size, short, legacy, rfl, by
            rw [if_pos capable]
            exact ⟨signed, remembered, sigSize, verified, rfl⟩⟩⟩

/-- `ed25519.Verify` is reached with a key of the right size only. -/
theorem VersionMetadata.authenticate_ne_fault (c : Crypto) (m : VersionMetadata)
    (password sig : Bytes) (signedFields : Option Bytes) :
    m.authenticate c password sig signedFields ≠ .error .fault := by
  unfold authenticate Crypto.ed25519Verify
  by_cases size : m.publicKey.length = publicKeySize
  · simp only [size, ne_eq, not_true_eq_false, if_false, ok_bind]
    repeat' split
    all_goals simp
  · simp [size]

/-! ## The body -/

/-- The loop as `decode` starts it. -/
theorem Loop.reading_start (m : VersionMetadata) (allFields : Bytes) :
    (Loop.mk m none 0 allFields).Reading allFields [] where
  unsigned := rfl
  position := rfl
  bytes := rfl

theorem VersionMetadata.decodeBody_append (c : Crypto) (m : VersionMetadata)
    (fieldBytes sig password : Bytes) (size : sig.length = signatureSize) :
    m.decodeBody c (fieldBytes ++ sig) password =
      Loop.run fieldBytes ⟨m, none, 0, fieldBytes⟩ >>= fun loop =>
        if loop.bs.length ≠ 0 then .error (.handshake .invalidLength)
        else loop.m.authenticate c password sig loop.signedFields := by
  have total : (fieldBytes ++ sig).length = fieldBytes.length + signatureSize := by
    rw [List.length_append, size]
  unfold decodeBody
  rw [if_neg (by omega), slice_length (by omega), slice_zero (by omega), total,
    Nat.add_sub_cancel, List.take_left, List.drop_left]
  rfl

theorem exists_signature {bs : Bytes} (long : signatureSize ≤ bs.length) :
    ∃ fieldBytes sig, sig.length = signatureSize ∧ bs = fieldBytes ++ sig :=
  ⟨bs.take (bs.length - signatureSize), bs.drop (bs.length - signatureSize),
    by rw [List.length_drop]; omega, (List.take_append_drop _ _).symm⟩

/-- A body is decoded exactly if it is a sequence of accepted fields and a legacy
signature that pass the authentication. -/
theorem VersionMetadata.decodeBody_eq_ok_iff {c : Crypto} {m target : VersionMetadata}
    {bs password : Bytes} {made : List Verification} (long : signatureSize ≤ bs.length) :
    m.decodeBody c bs password = .ok (target, made) ↔
      ∃ fields sig, bs = encodeAll fields ++ sig ∧ sig.length = signatureSize ∧
        Accepted [] fields ∧
        (fields.foldl VersionMetadata.apply m).authenticate c password sig
          (signedBytes [] fields) = .ok (target, made) := by
  constructor
  · intro decoded
    obtain ⟨fieldBytes, sig, size, rfl⟩ := exists_signature long
    rw [decodeBody_append c m fieldBytes sig password size] at decoded
    have reading := Loop.reading_start m fieldBytes
    rcases reading.run_cases with failed | ⟨final, ended, consumed⟩
    · rw [failed] at decoded
      cases decoded
    · rw [ended, ok_bind] at decoded
      by_cases empty : final.bs = []
      · obtain ⟨fields, bytes, accepted⟩ := consumed empty
        rw [reading.run_of_accepted bytes accepted] at ended
        cases ended
        exact ⟨fields, sig, by rw [← bytes], size, accepted, by simpa using decoded⟩
      · simp [empty] at decoded
  · rintro ⟨fields, sig, rfl, size, accepted, authenticated⟩
    rw [decodeBody_append c m _ sig password size,
      (Loop.reading_start m (encodeAll fields)).run_of_accepted rfl accepted]
    simpa using authenticated

theorem VersionMetadata.decodeBody_ne_fault (c : Crypto) (m : VersionMetadata)
    {bs : Bytes} (password : Bytes) (long : signatureSize ≤ bs.length) :
    m.decodeBody c bs password ≠ .error .fault := by
  obtain ⟨fieldBytes, sig, size, rfl⟩ := exists_signature long
  rw [decodeBody_append c m fieldBytes sig password size]
  rcases (Loop.reading_start m fieldBytes).run_cases with failed | ⟨final, ended, -⟩
  · rw [failed]
    exact fun fault => nomatch fault
  · rw [ended, ok_bind]
    split
    · simp
    · exact final.m.authenticate_ne_fault c password sig final.signedFields

/-! ## The message -/

/-- A frame whose body has room for the legacy signature and whose length can be
written. -/
def Framed (body : Bytes) : Prop :=
  signatureSize ≤ body.length ∧ body.length < 2 ^ 16

@[simp]
theorem length_preamble : preamble.length = 4 :=
  rfl

theorem readFull_append {front rest : Bytes} {n : Nat} (size : front.length = n) :
    readFull (front ++ rest) n = .ok (front, rest) := by
  subst size
  simp [readFull]

theorem readFull_eq_ok_iff {r front rest : Bytes} {n : Nat} :
    readFull r n = .ok (front, rest) ↔ front.length = n ∧ r = front ++ rest := by
  constructor
  · intro read
    unfold readFull at read
    split at read
    · rename_i long
      cases read
      exact ⟨List.length_take_of_le long, (List.take_append_drop n r).symm⟩
    · cases read
  · rintro ⟨size, rfl⟩
    exact readFull_append size

/-- `io.ReadFull` fails only for want of bytes. -/
theorem readFull_of_short {r : Bytes} {n : Nat} (short : r.length < n) :
    ∃ err, readFull r n = .error err ∧ err ≠ .fault := by
  rw [readFull, if_neg (Nat.not_le_of_lt short)]
  exact ⟨_, rfl, by split <;> simp⟩

theorem exists_append_of_le {r : Bytes} {n : Nat} (long : n ≤ r.length) :
    ∃ front rest, front.length = n ∧ r = front ++ rest :=
  ⟨r.take n, r.drop n, by simp [long], (List.take_append_drop n r).symm⟩

/-- After a valid header the announced number of bytes is read. -/
theorem VersionMetadata.decode_header (c : Crypto) (m : VersionMetadata) {hl : Nat}
    (r password : Bytes) (room : signatureSize ≤ hl) (fits : hl < 2 ^ 16) :
    m.decode c (preamble ++ bigEndian 2 hl ++ r) password =
      match readFull r hl with
      | .error err => ⟨.error err, []⟩
      | .ok (bs, rest) =>
          ⟨{ m with wire := preamble ++ bigEndian 2 hl ++ bs }.decodeBody c bs password, rest⟩ := by
  have header : readFull (preamble ++ bigEndian 2 hl ++ r) 6 =
      .ok (preamble ++ bigEndian 2 hl, r) :=
    readFull_append (by simp)
  have announced : ofBigEndian (bigEndian 2 hl) = hl := ofBigEndian_bigEndian_of_lt fits
  have front : (preamble ++ bigEndian 2 hl).take 4 = preamble := List.take_left' rfl
  have back : (preamble ++ bigEndian 2 hl).drop 4 = bigEndian 2 hl := List.drop_left' rfl
  cases read : readFull r hl with
  | error err =>
      simp only [decode, header, front, back, announced, ne_eq, not_true_eq_false, if_false,
        if_neg (Nat.not_lt_of_le room), read]
  | ok out =>
      simp only [decode, header, front, back, announced, ne_eq, not_true_eq_false, if_false,
        if_neg (Nat.not_lt_of_le room), read]

/-- A framed message is consumed and its body decoded. -/
theorem VersionMetadata.decode_frame (c : Crypto) (m : VersionMetadata) {body : Bytes}
    (rest password : Bytes) (framed : Framed body) :
    m.decode c (frame preamble body ++ rest) password =
      ⟨{ m with wire := frame preamble body }.decodeBody c body password, rest⟩ := by
  rw [frame, List.append_assoc, decode_header c m _ password framed.1 framed.2,
    readFull_append rfl]

/-- What is not a framed message is rejected without a panic, and no more is read
than the header announces. -/
theorem VersionMetadata.decode_of_not_framed (c : Crypto) (m : VersionMetadata)
    {r : Bytes} (password : Bytes)
    (unframed : ∀ body rest, Framed body → r ≠ frame preamble body ++ rest) :
    (∃ err, (m.decode c r password).result = .error err ∧ err ≠ .fault) ∧
      ∃ consumed, r = consumed ++ (m.decode c r password).unread ∧
        consumed.length ≤ 6 + ofBigEndian ((r.take 6).drop 4) := by
  rcases Nat.lt_or_ge r.length 6 with short | long
  · obtain ⟨err, failed, noFault⟩ := readFull_of_short short
    simp only [decode, failed]
    exact ⟨⟨err, rfl, noFault⟩, r, by simp, by omega⟩
  · obtain ⟨bh, r, size, rfl⟩ := exists_append_of_le long
    have taken : (bh ++ r).take 6 = bh := List.take_left' size
    simp only [decode, readFull_append size, taken]
    split
    · exact ⟨⟨_, rfl, by simp⟩, bh, rfl, by omega⟩
    · rename_i matched
      split
      · exact ⟨⟨_, rfl, by simp⟩, bh, rfl, by omega⟩
      · rename_i room
        rcases Nat.lt_or_ge r.length (ofBigEndian (bh.drop 4)) with short | long
        · obtain ⟨err, failed, noFault⟩ := readFull_of_short short
          simp only [failed]
          exact ⟨⟨err, rfl, noFault⟩, bh ++ r, by simp, by rw [List.length_append]; omega⟩
        · obtain ⟨bs, rest, announced, rfl⟩ := exists_append_of_le long
          have lengthSize : (bh.drop 4).length = 2 := by rw [List.length_drop, size]
          have bound := ofBigEndian_lt (bh.drop 4)
          rw [lengthSize] at bound
          refine absurd ?_ (unframed bs rest ⟨by omega, by omega⟩)
          rw [frame, ← not_not.mp matched, announced, bigEndian_two_ofBigEndian lengthSize,
            List.take_append_drop, List.append_assoc]

/-- A stream begins with the fields and the legacy signature of a hello in at most
one way. -/
theorem hello_append_inj {fields others : List Tlv} {sig otherSig rest otherRest : Bytes}
    (fits : (encodeAll fields ++ sig).length < 2 ^ 16)
    (otherFits : (encodeAll others ++ otherSig).length < 2 ^ 16)
    (sameSize : sig.length = otherSig.length)
    (same : frame preamble (encodeAll fields ++ sig) ++ rest =
      frame preamble (encodeAll others ++ otherSig) ++ otherRest) :
    fields = others ∧ sig = otherSig ∧ rest = otherRest := by
  obtain ⟨body, rests⟩ := frame_append_inj fits otherFits same
  obtain ⟨bytes, sigs⟩ := List.append_inj' body sameSize
  exact ⟨encodeAll_injective bytes, sigs, rests⟩

/-- A hello is accepted exactly if it is a framed sequence of accepted fields and a
legacy signature that pass the authentication; the rest is left unread. -/
theorem VersionMetadata.decode_eq_ok_iff {c : Crypto} {m target : VersionMetadata}
    {r password : Bytes} {made : List Verification} :
    (m.decode c r password).result = .ok (target, made) ↔
      ∃ fields sig, r = frame preamble (encodeAll fields ++ sig) ++ (m.decode c r password).unread ∧
        (encodeAll fields ++ sig).length < 2 ^ 16 ∧ sig.length = signatureSize ∧
        Accepted [] fields ∧
        (fields.foldl VersionMetadata.apply
          { m with wire := frame preamble (encodeAll fields ++ sig) }).authenticate c password sig
            (signedBytes [] fields) = .ok (target, made) := by
  by_cases framed : ∃ body rest, Framed body ∧ r = frame preamble body ++ rest
  · obtain ⟨body, rest, framed, rfl⟩ := framed
    rw [decode_frame c m rest password framed, decodeBody_eq_ok_iff framed.1]
    constructor
    · rintro ⟨fields, sig, rfl, size, accepted, authenticated⟩
      exact ⟨fields, sig, rfl, framed.2, size, accepted, authenticated⟩
    · rintro ⟨fields, sig, same, fits, size, accepted, authenticated⟩
      obtain ⟨rfl, -⟩ := frame_append_inj framed.2 fits same
      exact ⟨fields, sig, rfl, size, accepted, authenticated⟩
  · have unframed : ∀ body rest, Framed body → r ≠ frame preamble body ++ rest :=
      fun body rest isFramed same => framed ⟨body, rest, isFramed, same⟩
    obtain ⟨⟨err, failed, -⟩, -⟩ := decode_of_not_framed c m password unframed
    constructor
    · intro accepted
      rw [failed] at accepted
      cases accepted
    · rintro ⟨fields, sig, same, fits, size, -⟩
      exact absurd same (unframed _ _ ⟨by simp [size], fits⟩)

end Uqda.Handshake
