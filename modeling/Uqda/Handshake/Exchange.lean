import Uqda.Handshake.Handler
import Uqda.Store.Table

/-!
# Two honest handlers

Two nodes run `links.handler` at the ends of one connection that delivers what
each side writes, unchanged and in order, in pieces of any size and with any
delay.  A handler is cut at its reads, as in `Uqda.Handshake.Session`, and a read
returns once the bytes it needs are there.

Every run of the two handlers ends, none of them gets stuck or fails before both
have finished the handshake, and both then call `HandleConn` with the same
priority.
-/

namespace Uqda.Handshake

open Uqda.Addressing Uqda.Transition Uqda.Wire

/-! ## The connection -/

/-- The ends of the connection. -/
inductive Side where
  | left
  | right
  deriving DecidableEq, Repr

/-- The end at which a side's bytes arrive. -/
def Side.other : Side → Side
  | .left => .right
  | .right => .left

@[simp]
theorem Side.other_other (side : Side) : side.other.other = side := by
  cases side <;> rfl

theorem Side.other_ne (side : Side) : side.other ≠ side := by
  cases side <;> decide

theorem Side.eq_or_eq_other (first second : Side) : first = second ∨ first = second.other := by
  cases first <;> cases second <;> decide

/-- What a handler is run with. -/
structure Endpoint (c : Crypto) where
  owner : c.PrivateKey
  options : PeerOptions
  admission : Admission
  nonce : Vector UInt8 32

/-- One side of the connection: its handler once it has been started, how many of
the bytes that the other side has written were delivered, and how the handler
ended. -/
structure Party (c : Crypto) where
  session : Option (Session c)
  delivered : Nat
  handled : Option Handled

/-- The reader ran out of bytes: on an open connection the read blocks. -/
def Failure.starved : Failure → Bool
  | .eof | .unexpectedEOF => true
  | _ => false

/-- The reader returns with what is there. -/
def Decoding.ready {α : Type} (decoding : Decoding α) : Bool :=
  match decoding.result with
  | .error failure => !failure.starved
  | .ok _ => true

/-- What happens at one side. -/
inductive PartyAction where
  | start
  | deliver (count : Nat)
  | readHello
  | readConfirmation
  | finish
  deriving DecidableEq, Repr

variable {c : Crypto}

/-- The bytes that a side has written. -/
def Party.sent (party : Party c) : Bytes :=
  match party.session with
  | none => []
  | some session => session.outbox

/-- A step of one side, when the other has written `sent`. -/
def Party.act (endpoint : Endpoint c) (sent : Bytes) (party : Party c) :
    PartyAction → Option (Party c)
  | .start =>
      match party.session, Session.start c endpoint.owner endpoint.options.toLinkOptions
          (some endpoint.nonce) with
      | none, .ok progress => some { party with session := some progress.session }
      | none, .error (.handshake failure) =>
          some { party with handled := some (.rejected (.generate failure)) }
      | _, _ => none
  | .deliver count =>
      match party.session with
      | none => none
      | some session =>
          if 0 < count ∧ party.delivered + count ≤ sent.length then
            some { party with
              session := some { session with
                inbox := session.inbox ++ (sent.drop party.delivered).take count }
              delivered := party.delivered + count }
          else
            none
  | .readHello =>
      match party.session with
      | none => none
      | some session =>
          if session.phase = .awaitingHello ∧
              (VersionMetadata.decode c {} session.inbox session.options.password).ready then
            some { party with session := some session.readHello.session }
          else
            none
  | .readConfirmation =>
      match party.session with
      | none => none
      | some session =>
          match session.remoteMeta with
          | none => none
          | some remoteMeta =>
              if session.phase = .awaitingConfirmation ∧
                  (decodeConfirmation c session.inbox remoteMeta.publicKey
                    session.options.password session.localMeta remoteMeta).ready then
                some { party with
                  session := some (session.readConfirmation remoteMeta).session }
              else
                none
  | .finish =>
      match party.session with
      | none => none
      | some session =>
          match session.remoteMeta with
          | none => none
          | some remoteMeta =>
              if (session.phase = .confirmed ∨ session.phase = .unconfirmed) ∧
                  party.handled = none then
                some { party with
                  handled := some (endpoint.admission.finish endpoint.options true remoteMeta) }
              else
                none

/-- Both sides. -/
abbrev Exchange (c : Crypto) := Side → Party c

/-- No handler has been started. -/
def Exchange.init (c : Crypto) : Exchange c :=
  fun _ => ⟨none, 0, none⟩

/-- The transition function: one side takes a step. -/
def Exchange.next (ends : Side → Endpoint c) : Step (Exchange c) (Side × PartyAction) :=
  fun state event =>
    ((state event.1).act (ends event.1) (state event.1.other).sent event.2).map
      (Function.update state event.1)

/-! ## Honest ends -/

section Ends

variable (ends : Side → Endpoint c)

/-- Two different nodes with one password that fits and nonces that are not zero,
whose signatures verify. -/
structure HonestEnds : Prop where
  signs : ∀ side hash, c.verify (c.publicKey (ends side).owner) hash
    (c.sign (ends side).owner hash) = true
  distinct : ∀ side, c.publicKey (ends side).owner ≠ c.publicKey (ends side.other).owner
  samePassword : ∀ side, (ends side).options.password = (ends side.other).options.password
  short : ∀ side, (ends side).options.password.length ≤ 64
  nonces : ∀ side, (ends side).nonce ≠ Vector.replicate 32 0

/-- The hello of a side. -/
def helloAt (side : Side) : Encoded :=
  handlerHello c (ends side).owner (ends side).options (ends side).nonce

/-- The confirmation of a side. -/
def confirmationAt (side : Side) : Bytes :=
  confirmationPreamble ++ c.sign (ends side).owner (c.blake2b (ends side).options.password
    (confirmationMessage (helloAt ends side).m (helloAt ends side.other).m))

theorem length_helloAt (side : Side) : (helloAt ends side).bytes.length = 235 := by
  have body := length_helloBody c
    { handlerMeta c (ends side).owner (ends side).options with
      nonce := (ends side).nonce
      capabilities := capabilityHandshakeConfirmation }
    (c.length_publicKey (ends side).owner) (ends side).owner (ends side).options.password
  change (frame preamble _).length = 235
  rw [length_frame, body]
  rfl

theorem length_confirmationAt (side : Side) :
    (confirmationAt ends side).length = confirmationSize := by
  rw [confirmationAt, List.length_append, c.length_sign]
  rfl

variable {ends}

theorem isHello_helloAt (side : Side) : IsHello (helloAt ends side).m :=
  handlerHello_isHello

/-- Two parties hash the same message for their confirmations. -/
theorem confirmationMessage_comm {first second : VersionMetadata}
    (different : first.publicKey ≠ second.publicKey) :
    confirmationMessage first second = confirmationMessage second first := by
  have swapped : List.compareLex compare second.publicKey first.publicKey =
      (List.compareLex compare first.publicKey second.publicKey).swap :=
    Std.OrientedCmp.eq_swap
  unfold confirmationMessage
  rw [swapped]
  cases order : List.compareLex compare first.publicKey second.publicKey with
  | eq => exact absurd (Std.LawfulEqCmp.eq_of_compare order) different
  | lt => rfl
  | gt => rfl

theorem HonestEnds.encode_eq (honest : HonestEnds ends) (side : Side) :
    (handlerMeta c (ends side).owner (ends side).options).encode c (some (ends side).nonce)
      (ends side).owner (ends side).options.password = .ok (helloAt ends side) :=
  encode_handlerMeta_iff.mpr ⟨honest.short side, rfl⟩

theorem HonestEnds.decode_hello (honest : HonestEnds ends) (side : Side) (rest : Bytes) :
    ∃ made, VersionMetadata.decode c {} ((helloAt ends side.other).bytes ++ rest)
        (ends side).options.password =
      ⟨.ok ((helloAt ends side.other).m, made), rest⟩ := by
  rw [honest.samePassword side]
  exact decode_helloWire rfl (honest.signs side.other) (honest.short side.other) rest

theorem HonestEnds.check_hello (honest : HonestEnds ends) (side : Side) :
    (helloAt ends side).m.check = true :=
  VersionMetadata.check_eq_true_iff.mpr
    ⟨rfl, rfl, c.length_publicKey (ends side).owner, fun _ => honest.nonces side⟩

theorem supports_helloAt (side : Side) :
    (helloAt ends side).m.supportsHandshakeConfirmation = true := by
  change (capabilityHandshakeConfirmation &&& capabilityHandshakeConfirmation != 0) = true
  decide

theorem HonestEnds.encodeConfirmation_eq (honest : HonestEnds ends) (side : Side) :
    ∃ signing, encodeConfirmation c (ends side).owner (ends side).options.password
        (helloAt ends side).m (helloAt ends side.other).m =
      .ok (confirmationAt ends side, signing) :=
  ⟨_, encodeConfirmation_eq_ok_iff.mpr ⟨(isHello_helloAt side).wire_ne_nil,
    (isHello_helloAt side.other).wire_ne_nil, honest.short side, rfl⟩⟩

theorem HonestEnds.decode_confirmation (honest : HonestEnds ends) (side : Side) (rest : Bytes) :
    ∃ check, decodeConfirmation c (confirmationAt ends side.other ++ rest)
        (helloAt ends side.other).m.publicKey (ends side).options.password
        (helloAt ends side).m (helloAt ends side.other).m = ⟨.ok check, rest⟩ := by
  have message := confirmationMessage_comm
    (show (helloAt ends side).m.publicKey ≠ (helloAt ends side.other).m.publicKey from
      honest.distinct side)
  have verified : c.verify (helloAt ends side.other).m.publicKey
      (c.blake2b (ends side).options.password
        (confirmationMessage (helloAt ends side).m (helloAt ends side.other).m))
      (c.sign (ends side.other).owner (c.blake2b (ends side.other).options.password
        (confirmationMessage (helloAt ends side.other).m (helloAt ends side.other.other).m))) =
        true := by
    rw [message, honest.samePassword side, Side.other_other]
    exact honest.signs side.other _
  exact ⟨_, decodeConfirmation_of_verified (c.length_publicKey (ends side.other).owner)
    (c.length_sign ..) (isHello_helloAt side).wire_ne_nil (isHello_helloAt side.other).wire_ne_nil
    (honest.short side) verified⟩

end Ends

/-! ## Blocked reads -/

theorem readFull_starved {r : Bytes} {n : Nat} (short : r.length < n) :
    ∃ failure, readFull r n = .error failure ∧ failure.starved = true := by
  rw [readFull, if_neg (Nat.not_le_of_lt short)]
  refine ⟨_, rfl, ?_⟩
  split <;> rfl

/-- A hello that is arriving is decoded only when it is complete. -/
theorem VersionMetadata.complete_of_ready {m : VersionMetadata} {body r rest password : Bytes}
    (framed : Framed body) (arriving : r <+: frame preamble body ++ rest)
    (ready : (m.decode c r password).ready = true) : ∃ tail, r = frame preamble body ++ tail := by
  have whole : frame preamble body <+: frame preamble body ++ rest := List.prefix_append _ _
  rcases Nat.le_total (frame preamble body).length r.length with long | short
  · obtain ⟨tail, same⟩ := List.prefix_of_prefix_length_le whole arriving long
    exact ⟨tail, same.symm⟩
  · obtain ⟨missing, same⟩ := List.prefix_of_prefix_length_le arriving whole short
    by_cases complete : missing = []
    · exact ⟨[], by rw [← same, complete, List.append_nil, List.append_nil]⟩
    exfalso
    have lack : r.length < (frame preamble body).length := by
      rw [← same, List.length_append]
      have := List.length_pos_iff.mpr complete
      omega
    rw [length_frame, length_preamble] at lack
    rcases Nat.lt_or_ge r.length 6 with early | late
    · obtain ⟨failure, failed, starved⟩ := readFull_starved early
      simp [decode, Decoding.ready, failed, starved] at ready
    · obtain ⟨header, r, size, rfl⟩ := exists_append_of_le late
      have split : header = preamble ++ bigEndian 2 body.length ∧ r ++ missing = body := by
        rw [frame, List.append_assoc] at same
        exact List.append_inj same (by simp [size])
      rw [List.length_append, size] at lack
      obtain ⟨failure, failed, starved⟩ := readFull_starved (show r.length < body.length by omega)
      rw [split.1, decode_header c m r password framed.1 framed.2, failed] at ready
      simp [Decoding.ready, starved] at ready

/-- So is a confirmation. -/
theorem confirmationSize_le_of_ready {r publicKey password : Bytes}
    {localMeta remoteMeta : VersionMetadata} (size : publicKey.length = publicKeySize)
    (ready : (decodeConfirmation c r publicKey password localMeta remoteMeta).ready = true) :
    confirmationSize ≤ r.length := by
  by_contra lack
  obtain ⟨failure, failed, starved⟩ := readFull_starved (Nat.lt_of_not_le lack)
  simp [decodeConfirmation, Decoding.ready, size, failed, starved] at ready

end Uqda.Handshake
