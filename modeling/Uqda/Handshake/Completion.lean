import Uqda.Handshake.Exchange

/-!
# Honest handshakes complete and agree

Each side of an exchange is in one of four stages, and its stage says what it has
written and what it has consumed: the bytes consumed and the bytes in its inbox
are a prefix of what the other side has written.  A read that returns therefore
finds the whole hello or confirmation of the other side, takes just that, and
moves its side to the next stage.  Each step raises a rank that is bounded, and a
step is possible until both sides have finished.
-/

namespace Uqda.Handshake

open Uqda.Addressing Uqda.Transition Uqda.Wire

variable {c : Crypto}

/-! ## Stages -/

/-- How far a handler has come. -/
inductive Stage where
  | idle
  | greeting
  | confirming
  | settled
  deriving DecidableEq, Repr

/-- What a side has written. -/
def Stage.wrote (hello confirmation : Bytes) : Stage → Bytes
  | .idle => []
  | .greeting => hello
  | .confirming | .settled => hello ++ confirmation

/-- What a side has consumed of the other's bytes. -/
def Stage.consumed (hello confirmation : Bytes) : Stage → Bytes
  | .idle | .greeting => []
  | .confirming => hello
  | .settled => hello ++ confirmation

/-- How far a side has come. -/
def Stage.rank : Stage → Nat
  | .idle => 0
  | .greeting => 1
  | .confirming => 2
  | .settled => 3

/-- The stage after an action. -/
def Stage.after : Stage → PartyAction → Stage
  | .idle, .start => .greeting
  | .greeting, .readHello => .confirming
  | .confirming, .readConfirmation => .settled
  | stage, _ => stage

@[simp]
theorem Stage.after_deliver (stage : Stage) (count : Nat) :
    stage.after (.deliver count) = stage := by
  cases stage <;> rfl

theorem Stage.wrote_isPrefix (hello confirmation : Bytes) (stage : Stage) :
    stage.wrote hello confirmation <+: hello ++ confirmation := by
  cases stage with
  | idle => exact List.nil_prefix
  | greeting => exact List.prefix_append hello confirmation
  | confirming | settled => exact List.prefix_refl _

theorem Stage.wrote_after (hello confirmation : Bytes) (stage : Stage) (action : PartyAction) :
    stage.wrote hello confirmation <+: (stage.after action).wrote hello confirmation := by
  cases stage with
  | idle => exact List.nil_prefix
  | greeting =>
      cases action with
      | readHello => exact List.prefix_append hello confirmation
      | start | deliver | readConfirmation | finish => exact List.prefix_refl _
  | confirming => cases action <;> exact List.prefix_refl _
  | settled => exact List.prefix_refl _

section Stages

variable (ends : Side → Endpoint c) (side : Side)

/-- What the side has written at a stage. -/
abbrev wroteAt (stage : Stage) : Bytes :=
  stage.wrote (helloAt ends side).bytes (confirmationAt ends side)

/-- The handler at a stage, with what it has not read yet. -/
def sessionAt (inbox : Bytes) : Stage → Option (Session c)
  | .idle => none
  | .greeting => some
      { owner := (ends side).owner
        options := (ends side).options.toLinkOptions
        localMeta := (helloAt ends side).m
        remoteMeta := none
        phase := .awaitingHello
        inbox := inbox
        outbox := (helloAt ends side).bytes }
  | .confirming => some
      { owner := (ends side).owner
        options := (ends side).options.toLinkOptions
        localMeta := (helloAt ends side).m
        remoteMeta := some (helloAt ends side.other).m
        phase := .awaitingConfirmation
        inbox := inbox
        outbox := (helloAt ends side).bytes ++ confirmationAt ends side }
  | .settled => some
      { owner := (ends side).owner
        options := (ends side).options.toLinkOptions
        localMeta := (helloAt ends side).m
        remoteMeta := some (helloAt ends side.other).m
        phase := .confirmed
        inbox := inbox
        outbox := (helloAt ends side).bytes ++ confirmationAt ends side }

/-- How a handler ends after the handshake. -/
def finishAt : Handled :=
  (ends side).admission.finish (ends side).options true (helloAt ends side.other).m

/-- The side is at the stage when the other has written `sent`: what it has
consumed and its inbox are what was delivered. -/
structure Party.At (stage : Stage) (sent : Bytes) (party : Party c) : Prop where
  session : ∃ inbox, party.session = sessionAt ends side inbox stage ∧
    stage.consumed (helloAt ends side.other).bytes (confirmationAt ends side.other) ++ inbox =
      sent.take party.delivered
  waits : stage = .idle → party.delivered = 0
  bound : party.delivered ≤ sent.length
  handled : ∀ handled, party.handled = some handled →
    stage = .settled ∧ handled = finishAt ends side

end Stages

/-- The sections that a handler has behind it. -/
def Phase.rank : Phase → Nat
  | .awaitingHello => 1
  | .awaitingConfirmation => 2
  | _ => 3

/-- How far a side has come. -/
def Party.rank (party : Party c) : Nat :=
  party.delivered + (party.session.elim 0 fun session => session.phase.rank) +
    party.handled.elim 0 fun _ => 1

section Placed

variable {ends : Side → Endpoint c} {side : Side} {stage : Stage} {sent : Bytes}
  {party target : Party c}

theorem Party.At.sent_eq (placed : party.At ends side stage sent) :
    party.sent = wroteAt ends side stage := by
  obtain ⟨inbox, session, -⟩ := placed.session
  unfold Party.sent
  rw [session]
  cases stage <;> rfl

theorem Party.At.rank_eq (placed : party.At ends side stage sent) :
    party.rank = party.delivered + stage.rank + party.handled.elim 0 fun _ => 1 := by
  obtain ⟨inbox, session, -⟩ := placed.session
  unfold Party.rank
  rw [session]
  cases stage <;> rfl

/-- More bytes from the other side change nothing here. -/
theorem Party.At.mono {more : Bytes} (placed : party.At ends side stage sent)
    (grown : sent <+: more) : party.At ends side stage more where
  session := by
    obtain ⟨inbox, session, received⟩ := placed.session
    refine ⟨inbox, session, received.trans ?_⟩
    obtain ⟨rest, rfl⟩ := grown
    exact (List.take_append_of_le_length placed.bound).symm
  waits := placed.waits
  bound := placed.bound.trans grown.length_le
  handled := placed.handled

/-- A handler that has not finished the handshake has not ended. -/
theorem Party.At.handled_eq_none (placed : party.At ends side stage sent)
    (early : stage ≠ .settled) : party.handled = none := by
  cases ended : party.handled with
  | none => rfl
  | some handled => exact absurd (placed.handled handled ended).1 early

/-! ## The sections of a handler -/

theorem HonestEnds.start_eq (honest : HonestEnds ends) (side : Side) :
    ∃ progress, Session.start c (ends side).owner (ends side).options.toLinkOptions
        (some (ends side).nonce) = .ok progress ∧
      some progress.session = sessionAt ends side [] .greeting := by
  have encoded := honest.encode_eq side
  simp only [handlerMeta] at encoded
  simp only [Session.start, encoded]
  exact ⟨_, rfl, rfl⟩

theorem HonestEnds.readHello_eq (honest : HonestEnds ends) (side : Side) (rest : Bytes) :
    ∃ session, sessionAt ends side ((helloAt ends side.other).bytes ++ rest) .greeting =
        some session ∧
      some session.readHello.session = sessionAt ends side rest .confirming := by
  refine ⟨_, rfl, ?_⟩
  obtain ⟨made, decoded⟩ := honest.decode_hello side rest
  obtain ⟨signing, confirmation⟩ := honest.encodeConfirmation_eq side
  have foreign : (helloAt ends side.other).m.publicKey ≠ c.publicKey (ends side).owner :=
    (honest.distinct side).symm
  simp only [Session.readHello, decoded, Session.answer, honest.check_hello side.other,
    if_neg foreign, supports_helloAt, confirmation, sessionAt, Bool.not_true, Bool.false_eq_true,
    if_false, if_true]

theorem HonestEnds.readConfirmation_eq (honest : HonestEnds ends) (side : Side) (rest : Bytes) :
    ∃ session, sessionAt ends side (confirmationAt ends side.other ++ rest) .confirming =
        some session ∧
      some (session.readConfirmation (helloAt ends side.other).m).session =
        sessionAt ends side rest .settled := by
  refine ⟨_, rfl, ?_⟩
  obtain ⟨check, decoded⟩ := honest.decode_confirmation side rest
  simp only [Session.readConfirmation, decoded, sessionAt]

/-! ## One step -/

theorem helloAt_framed (ends : Side → Endpoint c) (side : Side) :
    ∃ body, Framed body ∧ (helloAt ends side).bytes = frame preamble body := by
  refine ⟨_, ?_, rfl⟩
  have size := length_helloAt ends side
  change (frame preamble _).length = 235 at size
  rw [length_frame, length_preamble] at size
  unfold Framed signatureSize
  omega

/-- A read takes just the hello or the confirmation that the other side sent. -/
def Party.Exact (ends : Side → Endpoint c) (side : Side) (party : Party c) : PartyAction → Prop
  | .readHello => ∃ session rest made, party.session = some session ∧
      session.inbox = (helloAt ends side.other).bytes ++ rest ∧
      VersionMetadata.decode c {} session.inbox session.options.password =
        ⟨.ok ((helloAt ends side.other).m, made), rest⟩ ∧
      (helloAt ends side.other).m.check = true
  | .readConfirmation => ∃ session rest check, party.session = some session ∧
      session.remoteMeta = some (helloAt ends side.other).m ∧
      session.inbox = confirmationAt ends side.other ++ rest ∧
      decodeConfirmation c session.inbox (helloAt ends side.other).m.publicKey
        session.options.password session.localMeta (helloAt ends side.other).m = ⟨.ok check, rest⟩
  | _ => True

theorem Party.At.start (honest : HonestEnds ends) (placed : party.At ends side stage sent)
    (step : party.act (ends side) sent .start = some target) :
    stage = .idle ∧ target = { party with session := sessionAt ends side [] .greeting } := by
  obtain ⟨inbox, session, -⟩ := placed.session
  obtain ⟨progress, started, shape⟩ := honest.start_eq side
  unfold Party.act at step
  rw [session, started] at step
  cases stage with
  | idle =>
      rw [← shape]
      exact ⟨rfl, (Option.some.inj step).symm⟩
  | greeting | confirming | settled => nomatch step

theorem Party.At.readHello (honest : HonestEnds ends) (placed : party.At ends side stage sent)
    (arriving : sent <+: (helloAt ends side.other).bytes ++ confirmationAt ends side.other)
    (step : party.act (ends side) sent .readHello = some target) :
    stage = .greeting ∧ ∃ rest,
      party.session = sessionAt ends side ((helloAt ends side.other).bytes ++ rest) .greeting ∧
      (helloAt ends side.other).bytes ++ rest = sent.take party.delivered ∧
      target = { party with session := sessionAt ends side rest .confirming } := by
  obtain ⟨inbox, session, received⟩ := placed.session
  unfold Party.act at step
  rw [session] at step
  cases stage with
  | idle => nomatch step
  | greeting =>
      obtain ⟨⟨-, ready⟩, moved⟩ := Option.ite_none_right_eq_some.mp step
      obtain ⟨body, framed, bytes⟩ := helloAt_framed ends side.other
      have front : inbox <+: (helloAt ends side.other).bytes ++ confirmationAt ends side.other :=
        (show inbox = _ from received) ▸ (List.take_prefix ..).trans arriving
      rw [bytes] at front
      obtain ⟨rest, rfl⟩ := VersionMetadata.complete_of_ready framed front ready
      rw [← bytes] at session received moved
      obtain ⟨before, shape, after⟩ := honest.readHello_eq side rest
      cases shape
      refine ⟨rfl, rest, session, received, ?_⟩
      rw [← after]
      exact (Option.some.inj moved).symm
  | confirming | settled => exact absurd (Option.ite_none_right_eq_some.mp step).1.1 nofun

theorem Party.At.readConfirmation (honest : HonestEnds ends)
    (placed : party.At ends side stage sent)
    (arriving : sent <+: (helloAt ends side.other).bytes ++ confirmationAt ends side.other)
    (step : party.act (ends side) sent .readConfirmation = some target) :
    stage = .confirming ∧ ∃ rest,
      party.session = sessionAt ends side (confirmationAt ends side.other ++ rest) .confirming ∧
      (helloAt ends side.other).bytes ++ (confirmationAt ends side.other ++ rest) =
        sent.take party.delivered ∧
      target = { party with session := sessionAt ends side rest .settled } := by
  obtain ⟨inbox, session, received⟩ := placed.session
  unfold Party.act at step
  rw [session] at step
  cases stage with
  | idle | greeting => nomatch step
  | confirming =>
      obtain ⟨⟨-, ready⟩, moved⟩ := Option.ite_none_right_eq_some.mp step
      have long := confirmationSize_le_of_ready (c.length_publicKey (ends side.other).owner) ready
      have front : inbox <+: confirmationAt ends side.other := by
        rw [← List.prefix_append_right_inj (helloAt ends side.other).bytes]
        exact (show _ ++ inbox = _ from received) ▸ (List.take_prefix ..).trans arriving
      have whole : inbox = confirmationAt ends side.other ++ [] := by
        rw [List.append_nil]
        exact front.eq_of_length_le ((length_confirmationAt ends side.other).trans_le long)
      subst whole
      obtain ⟨before, shape, after⟩ := honest.readConfirmation_eq side []
      cases shape
      refine ⟨rfl, [], session, received, ?_⟩
      rw [← after]
      exact (Option.some.inj moved).symm
  | settled => exact absurd (Option.ite_none_right_eq_some.mp step).1.1 nofun

theorem Party.At.finish (placed : party.At ends side stage sent)
    (step : party.act (ends side) sent .finish = some target) :
    stage = .settled ∧ party.handled = none ∧
      target = { party with handled := some (finishAt ends side) } := by
  obtain ⟨inbox, session, -⟩ := placed.session
  unfold Party.act at step
  rw [session] at step
  cases stage with
  | idle | greeting => nomatch step
  | confirming => exact absurd (Option.ite_none_right_eq_some.mp step).1.1 nofun
  | settled =>
      obtain ⟨⟨-, running⟩, moved⟩ := Option.ite_none_right_eq_some.mp step
      rw [← session] at moved
      exact ⟨rfl, running, (Option.some.inj moved).symm⟩

theorem Party.At.deliver {count : Nat} (placed : party.At ends side stage sent)
    (step : party.act (ends side) sent (.deliver count) = some target) :
    stage ≠ .idle ∧ 0 < count ∧ party.delivered + count ≤ sent.length ∧ ∃ inbox,
      stage.consumed (helloAt ends side.other).bytes (confirmationAt ends side.other) ++ inbox =
        sent.take party.delivered ∧
      target = { party with
        session := sessionAt ends side (inbox ++ (sent.drop party.delivered).take count) stage
        delivered := party.delivered + count } := by
  obtain ⟨inbox, session, received⟩ := placed.session
  unfold Party.act at step
  rw [session] at step
  cases stage with
  | idle => nomatch step
  | greeting | confirming | settled =>
      obtain ⟨⟨positive, bound⟩, moved⟩ := Option.ite_none_right_eq_some.mp step
      exact ⟨nofun, positive, bound, inbox, received, (Option.some.inj moved).symm⟩

/-- A step moves a side to the next stage, or gets it bytes or its end there. -/
theorem Party.At.act {action : PartyAction} (honest : HonestEnds ends)
    (placed : party.At ends side stage sent)
    (arriving : sent <+: (helloAt ends side.other).bytes ++ confirmationAt ends side.other)
    (step : party.act (ends side) sent action = some target) :
    target.At ends side (stage.after action) sent := by
  cases action with
  | start =>
      obtain ⟨rfl, rfl⟩ := placed.start honest step
      refine ⟨⟨[], rfl, ?_⟩, nofun, placed.bound, fun handled ended => ?_⟩
      · rw [placed.waits rfl]
        rfl
      · exact absurd (placed.handled handled ended).1 nofun
  | deliver count =>
      obtain ⟨started, -, bound, inbox, received, rfl⟩ := placed.deliver step
      rw [Stage.after_deliver]
      refine ⟨⟨_, rfl, ?_⟩, fun idle => absurd idle started, bound, placed.handled⟩
      rw [← List.append_assoc, received, List.take_add]
  | readHello =>
      obtain ⟨rfl, rest, session, received, rfl⟩ := placed.readHello honest arriving step
      refine ⟨⟨rest, rfl, received⟩, nofun, placed.bound, fun handled ended => ?_⟩
      exact absurd (placed.handled handled ended).1 nofun
  | readConfirmation =>
      obtain ⟨rfl, rest, session, received, rfl⟩ := placed.readConfirmation honest arriving step
      refine ⟨⟨rest, rfl, ?_⟩, nofun, placed.bound, fun handled ended => ?_⟩
      · exact (List.append_assoc ..).trans received
      · exact absurd (placed.handled handled ended).1 nofun
  | finish =>
      obtain ⟨rfl, -, rfl⟩ := placed.finish step
      refine ⟨placed.session, nofun, placed.bound, fun handled ended => ⟨rfl, ?_⟩⟩
      exact (Option.some.inj ended).symm

theorem Party.At.rank_lt {action : PartyAction} (honest : HonestEnds ends)
    (placed : party.At ends side stage sent)
    (arriving : sent <+: (helloAt ends side.other).bytes ++ confirmationAt ends side.other)
    (step : party.act (ends side) sent action = some target) : party.rank < target.rank := by
  rw [placed.rank_eq, (placed.act honest arriving step).rank_eq]
  cases action with
  | start =>
      obtain ⟨rfl, rfl⟩ := placed.start honest step
      simp [Stage.after, Stage.rank]
  | deliver count =>
      obtain ⟨-, positive, -, inbox, -, rfl⟩ := placed.deliver step
      rw [Stage.after_deliver]
      simp only
      omega
  | readHello =>
      obtain ⟨rfl, rest, -, -, rfl⟩ := placed.readHello honest arriving step
      simp [Stage.after, Stage.rank]
  | readConfirmation =>
      obtain ⟨rfl, rest, -, -, rfl⟩ := placed.readConfirmation honest arriving step
      simp [Stage.after, Stage.rank]
  | finish =>
      obtain ⟨rfl, running, rfl⟩ := placed.finish step
      simp [Stage.after, running]

theorem Party.At.exact {action : PartyAction} (honest : HonestEnds ends)
    (placed : party.At ends side stage sent)
    (arriving : sent <+: (helloAt ends side.other).bytes ++ confirmationAt ends side.other)
    (step : party.act (ends side) sent action = some target) : party.Exact ends side action := by
  cases action with
  | start | deliver | finish => trivial
  | readHello =>
      obtain ⟨rfl, rest, session, -, -⟩ := placed.readHello honest arriving step
      obtain ⟨made, decoded⟩ := honest.decode_hello side rest
      exact ⟨_, rest, made, session, rfl, decoded, honest.check_hello side.other⟩
  | readConfirmation =>
      obtain ⟨rfl, rest, session, -, -⟩ := placed.readConfirmation honest arriving step
      obtain ⟨check, decoded⟩ := honest.decode_confirmation side rest
      exact ⟨_, rest, check, session, rfl, rfl, decoded⟩

/-! ## Progress -/

theorem Party.At.start_isSome (honest : HonestEnds ends) (placed : party.At ends side .idle sent) :
    (party.act (ends side) sent .start).isSome := by
  obtain ⟨inbox, session, -⟩ := placed.session
  obtain ⟨progress, started, -⟩ := honest.start_eq side
  unfold Party.act
  rw [session, started]
  rfl

theorem Party.At.deliver_isSome (placed : party.At ends side stage sent) (started : stage ≠ .idle)
    (more : party.delivered < sent.length) :
    (party.act (ends side) sent (.deliver 1)).isSome := by
  obtain ⟨inbox, session, -⟩ := placed.session
  have enough : 0 < 1 ∧ party.delivered + 1 ≤ sent.length := ⟨Nat.one_pos, more⟩
  unfold Party.act
  rw [session]
  cases stage with
  | idle => exact absurd rfl started
  | greeting | confirming | settled => simp only [sessionAt, if_pos enough, Option.isSome_some]

theorem Party.At.readHello_isSome {rest : Bytes} (honest : HonestEnds ends)
    (placed : party.At ends side .greeting ((helloAt ends side.other).bytes ++ rest))
    (all : party.delivered = ((helloAt ends side.other).bytes ++ rest).length) :
    (party.act (ends side) ((helloAt ends side.other).bytes ++ rest) .readHello).isSome := by
  obtain ⟨inbox, session, received⟩ := placed.session
  rw [all, List.take_length, Stage.consumed, List.nil_append] at received
  subst received
  obtain ⟨made, decoded⟩ := honest.decode_hello side rest
  unfold Party.act
  rw [session]
  simp only [sessionAt, decoded, Decoding.ready, and_self, if_true, Option.isSome_some]

theorem Party.At.readConfirmation_isSome (honest : HonestEnds ends)
    (placed : party.At ends side .confirming
      ((helloAt ends side.other).bytes ++ confirmationAt ends side.other))
    (all : party.delivered =
      ((helloAt ends side.other).bytes ++ confirmationAt ends side.other).length) :
    (party.act (ends side) ((helloAt ends side.other).bytes ++ confirmationAt ends side.other)
      .readConfirmation).isSome := by
  obtain ⟨inbox, session, received⟩ := placed.session
  rw [all, List.take_length, Stage.consumed, List.append_cancel_left_eq] at received
  subst received
  obtain ⟨check, decoded⟩ := honest.decode_confirmation side []
  rw [List.append_nil] at decoded
  unfold Party.act
  rw [session]
  simp only [sessionAt, decoded, Decoding.ready, and_self, if_true, Option.isSome_some]

theorem Party.At.finish_isSome (placed : party.At ends side .settled sent)
    (running : party.handled = none) : (party.act (ends side) sent .finish).isSome := by
  obtain ⟨inbox, session, -⟩ := placed.session
  unfold Party.act
  rw [session]
  simp only [sessionAt, running, true_or, and_self, if_true, Option.isSome_some]

/-- A side that has not ended can take a step unless the other has not sent its
hello, or not its confirmation. -/
theorem Party.At.progress {written : Stage} (honest : HonestEnds ends)
    (placed : party.At ends side stage (wroteAt ends side.other written))
    (running : party.handled = none) (started : written ≠ .idle) :
    (∃ action, (party.act (ends side) (wroteAt ends side.other written) action).isSome) ∨
      stage = .confirming ∧ written = .greeting := by
  rcases placed.bound.lt_or_eq with more | all
  · by_cases idle : stage = .idle
    · subst idle
      exact .inl ⟨.start, placed.start_isSome honest⟩
    · exact .inl ⟨.deliver 1, placed.deliver_isSome idle more⟩
  cases stage with
  | idle => exact .inl ⟨.start, placed.start_isSome honest⟩
  | greeting =>
      obtain ⟨rest, sent⟩ :
          (helloAt ends side.other).bytes <+: wroteAt ends side.other written := by
        cases written with
        | idle => exact absurd rfl started
        | greeting => exact List.prefix_refl _
        | confirming | settled => exact List.prefix_append ..
      rw [← sent] at placed all ⊢
      exact .inl ⟨.readHello, placed.readHello_isSome honest all⟩
  | confirming =>
      cases written with
      | idle => exact absurd rfl started
      | greeting => exact .inr ⟨rfl, rfl⟩
      | confirming | settled =>
          exact .inl ⟨.readConfirmation, placed.readConfirmation_isSome honest all⟩
  | settled => exact .inl ⟨.finish, placed.finish_isSome running⟩

end Placed

/-! ## Whole exchanges -/

section Whole

variable {ends : Side → Endpoint c} {state target : Exchange c} {event : Side × PartyAction}

/-- Both sides are at a stage, each with a part of what the other has written. -/
def Exchange.Sound (ends : Side → Endpoint c) (state : Exchange c) : Prop :=
  ∃ stages : Side → Stage, ∀ side,
    (state side).At ends side (stages side) (wroteAt ends side.other (stages side.other))

theorem Exchange.init_sound (ends : Side → Endpoint c) : Sound ends (init c) :=
  ⟨fun _ => .idle, fun _ => ⟨⟨[], rfl, rfl⟩, fun _ => rfl, Nat.le_refl 0, nofun⟩⟩

theorem Exchange.act_of_next {side : Side} {action : PartyAction}
    (step : next ends state (side, action) = some target) :
    ∃ moved, (state side).act (ends side) (state side.other).sent action = some moved ∧
      target = Function.update state side moved := by
  obtain ⟨moved, acted, same⟩ := Option.map_eq_some_iff.mp step
  exact ⟨moved, acted, same.symm⟩

theorem Exchange.Sound.next (honest : HonestEnds ends) (sound : Sound ends state)
    (step : Exchange.next ends state event = some target) : Sound ends target := by
  obtain ⟨stages, placed⟩ := sound
  obtain ⟨side, action⟩ := event
  obtain ⟨moved, acted, rfl⟩ := act_of_next step
  rw [(placed side.other).sent_eq] at acted
  have here := (placed side).act honest (Stage.wrote_isPrefix ..) acted
  have there : (state side.other).At ends side.other (stages side.other)
      (wroteAt ends side.other.other ((stages side).after action)) :=
    (placed side.other).mono (by rw [Side.other_other]; exact Stage.wrote_after ..)
  refine ⟨Function.update stages side ((stages side).after action), fun which => ?_⟩
  rcases which.eq_or_eq_other side with rfl | rfl
  · rw [Function.update_self, Function.update_self, Function.update_of_ne which.other_ne]
    exact here
  · rw [Function.update_of_ne side.other_ne, Function.update_of_ne side.other_ne]
    rw [Side.other_other] at there ⊢
    rw [Function.update_self]
    exact there

/-- How far both sides have come. -/
def Exchange.rank (state : Exchange c) : Nat :=
  (state .left).rank + (state .right).rank

theorem Exchange.Sound.rank_lt (honest : HonestEnds ends) (sound : Sound ends state)
    (step : Exchange.next ends state event = some target) : state.rank < target.rank := by
  obtain ⟨stages, placed⟩ := sound
  obtain ⟨side, action⟩ := event
  obtain ⟨moved, acted, rfl⟩ := act_of_next step
  rw [(placed side.other).sent_eq] at acted
  have more := (placed side).rank_lt honest (Stage.wrote_isPrefix ..) acted
  unfold Exchange.rank
  cases side with
  | left =>
      rw [Function.update_self, Function.update_of_ne (by decide)]
      exact Nat.add_lt_add_right more _
  | right =>
      rw [Function.update_self, Function.update_of_ne (by decide)]
      exact Nat.add_lt_add_left more _

/-- The read of a step is exact. -/
def Exchange.Exact (ends : Side → Endpoint c) (state : Exchange c) (event : Side × PartyAction) :
    Prop :=
  (state event.1).Exact ends event.1 event.2

theorem Exchange.Sound.exact (honest : HonestEnds ends) (sound : Sound ends state)
    (step : Exchange.next ends state event = some target) : Exact ends state event := by
  obtain ⟨stages, placed⟩ := sound
  obtain ⟨side, action⟩ := event
  obtain ⟨moved, acted, -⟩ := act_of_next step
  rw [(placed side.other).sent_eq] at acted
  exact (placed side).exact honest (Stage.wrote_isPrefix ..) acted

theorem Exchange.Sound.progress {side : Side} (honest : HonestEnds ends) (sound : Sound ends state)
    (running : (state side).handled = none) :
    ∃ event, (Exchange.next ends state event).isSome := by
  obtain ⟨stages, placed⟩ := sound
  have enabled : ∀ side action, ((state side).act (ends side)
      (wroteAt ends side.other (stages side.other)) action).isSome →
        ∃ event, (Exchange.next ends state event).isSome := by
    intro side action acts
    refine ⟨(side, action), ?_⟩
    rw [Exchange.next, Option.isSome_map, (placed side.other).sent_eq]
    exact acts
  by_cases idle : stages side.other = .idle
  · have waiting := placed side.other
    rw [idle] at waiting
    exact enabled side.other .start (waiting.start_isSome honest)
  rcases (placed side).progress honest running idle with ⟨action, acts⟩ | ⟨confirming, greeting⟩
  · exact enabled side action acts
  -- The other side still has to read the hello that this side has sent.
  have unended := (placed side.other).handled_eq_none (by rw [greeting]; decide)
  have sent : stages side.other.other ≠ .idle := by
    rw [Side.other_other, confirming]
    decide
  rcases (placed side.other).progress honest unended sent with ⟨action, acts⟩ | ⟨later, -⟩
  · exact enabled side.other action acts
  · exact absurd (greeting.symm.trans later) nofun

theorem Party.At.rank_le {side : Side} {stage written : Stage} {party : Party c}
    (placed : party.At ends side stage (wroteAt ends side.other written)) : party.rank ≤ 307 := by
  have sent := (Stage.wrote_isPrefix (helloAt ends side.other).bytes
    (confirmationAt ends side.other) written).length_le
  rw [List.length_append, length_helloAt, length_confirmationAt] at sent
  have received : party.delivered ≤ 235 + confirmationSize := placed.bound.trans sent
  have late : stage.rank ≤ 3 := by cases stage <;> decide
  have ended : (party.handled.elim 0 fun _ => 1) ≤ 1 := by
    cases party.handled with
    | none => exact Nat.zero_le 1
    | some handled => exact Nat.le_refl 1
  rw [placed.rank_eq]
  calc party.delivered + stage.rank + (party.handled.elim 0 fun _ => 1)
      ≤ 235 + confirmationSize + 3 + 1 := by gcongr
    _ = 307 := rfl

theorem Party.At.not_failed {side : Side} {stage : Stage} {sent : Bytes} {party : Party c}
    {session : Session c} (placed : party.At ends side stage sent)
    (held : party.session = some session) (err : HandlerError) : session.phase ≠ .failed err := by
  obtain ⟨inbox, shape, -⟩ := placed.session
  rw [held] at shape
  cases stage with
  | idle => nomatch shape
  | greeting | confirming | settled =>
      cases shape
      nofun

theorem max_priority_comm (first second : UInt8) : max first second = max second first := by
  change (if first ≤ second then second else first) = if second ≤ first then first else second
  split
  next le =>
    split
    next ge => exact UInt8.le_antisymm ge le
    next => rfl
  next gt => exact (if_pos (UInt8.le_of_lt (UInt8.not_le.mp gt))).symm

theorem finishAt_of_permits {side : Side}
    (permits : (ends side).admission.Permits (ends side).options
      (c.publicKey (ends side.other).owner)) :
    finishAt ends side = ⟨[⟨c.publicKey (ends side.other).owner,
      max (ends .left).options.priority (ends .right).options.priority⟩], none⟩ := by
  have finished : finishAt ends side = ⟨[⟨(helloAt ends side.other).m.publicKey,
      max (ends side).options.priority (helloAt ends side.other).m.priority⟩], none⟩ :=
    Admission.finish_of_permits (c.length_publicKey (ends side.other).owner) permits
  rw [finished]
  cases side with
  | left => rfl
  | right =>
      rw [max_priority_comm (ends .left).options.priority]
      rfl

/-- Run as one function on what the other side sends, the handler ends as it does
when it is cut at its reads. -/
theorem HonestEnds.handler_eq (honest : HonestEnds ends) (side : Side) (rest : Bytes) :
    handler c (ends side).owner (ends side).options (ends side).admission
        ⟨true, some (helloAt ends side).bytes.length, some confirmationSize, true⟩
        (ends side).nonce
        ((helloAt ends side.other).bytes ++ (confirmationAt ends side.other ++ rest)) =
      finishAt ends side := by
  obtain ⟨made, decoded⟩ := honest.decode_hello side (confirmationAt ends side.other ++ rest)
  obtain ⟨signing, confirmation⟩ := honest.encodeConfirmation_eq side
  obtain ⟨check, confirmed⟩ := honest.decode_confirmation side rest
  have foreign : (helloAt ends side.other).m.publicKey ≠ c.publicKey (ends side).owner :=
    (honest.distinct side).symm
  simp only [handler, honest.encode_eq side, decoded, honest.check_hello side.other, if_neg foreign,
    supports_helloAt, confirmation, length_confirmationAt, confirmed, Bool.not_true,
    Bool.false_eq_true, ne_eq, not_true_eq_false, if_false, if_true]
  rfl

/-- Two honest handlers complete their handshake and agree.  In every run each read
takes just the hello or the confirmation of the other side, which decodes, checks
and verifies, and no handler fails.  A run takes at most 614 steps and can go on
until both handlers have ended; one whose peer passes the identity, pin and allowed
key checks ends by calling `HandleConn` with the key of the other node and the
higher of the two priorities. -/
theorem honest_handshake_completes (honest : HonestEnds ends) {events : List (Side × PartyAction)}
    (reached : run (Exchange.next ends) (Exchange.init c) events = some state) :
    EveryStep (Exchange.next ends) (Exchange.Exact ends) (Exchange.init c) events ∧
    (∀ side, (state side).sent <+: (helloAt ends side).bytes ++ confirmationAt ends side) ∧
    (∀ side session err, (state side).session = some session → session.phase ≠ .failed err) ∧
    events.length ≤ 614 ∧
    ((∀ side, (state side).handled ≠ none) ∨ ∃ event, (Exchange.next ends state event).isSome) ∧
    ∀ side handled, (state side).handled = some handled →
      (ends side).admission.Permits (ends side).options (c.publicKey (ends side.other).owner) →
        handled = ⟨[⟨c.publicKey (ends side.other).owner,
          max (ends .left).options.priority (ends .right).options.priority⟩], none⟩ := by
  have kept : ∀ {state event target}, Exchange.Sound ends state →
      Exchange.next ends state event = some target → Exchange.Sound ends target :=
    fun sound step => sound.next honest step
  have initially := Exchange.init_sound ends
  have sound := invariant_of_run reached initially kept
  have length := length_add_rank_le reached initially kept fun sound step =>
    sound.rank_lt honest step
  refine ⟨everyStep_of_step events initially kept fun sound step => sound.exact honest step,
    ?_, ?_, ?_, ?_, ?_⟩
  · obtain ⟨stages, placed⟩ := sound
    intro side
    rw [(placed side).sent_eq]
    exact Stage.wrote_isPrefix ..
  · obtain ⟨stages, placed⟩ := sound
    exact fun side session err held => (placed side).not_failed held err
  · obtain ⟨stages, placed⟩ := sound
    calc
      events.length ≤ (state .left).rank + (state .right).rank :=
        (Nat.le_add_right ..).trans length
      _ ≤ 307 + 307 := Nat.add_le_add (placed .left).rank_le (placed .right).rank_le
  · by_cases ended : ∀ side, (state side).handled ≠ none
    · exact .inl ended
    · obtain ⟨side, running⟩ := not_forall.mp ended
      exact .inr (sound.progress honest (not_ne_iff.mp running))
  · obtain ⟨stages, placed⟩ := sound
    intro side handled ended permits
    rw [((placed side).handled handled ended).2]
    exact finishAt_of_permits permits

end Whole

/-- Two nodes without a password, one of them with a pin for the other. -/
def pinnedEnds : Side → Endpoint checksumCrypto
  | .left =>
      { owner := (7 : UInt8)
        options := ⟨⟨[], 3, true⟩, [Vector.replicate publicKeySize 9]⟩
        admission := ⟨.persistent, false, .other, []⟩
        nonce := Vector.replicate 32 1 }
  | .right =>
      { owner := (9 : UInt8)
        options := ⟨⟨[], 5, false⟩, []⟩
        admission := ⟨.incoming, false, .other, []⟩
        nonce := Vector.replicate 32 2 }

/-- The hello of the left side arrives in two pieces. -/
def pinnedExchange : List (Side × PartyAction) :=
  [(.left, .start), (.right, .start), (.right, .deliver 100), (.left, .deliver 235),
    (.left, .readHello), (.right, .deliver 203), (.right, .readHello), (.left, .deliver 68),
    (.right, .readConfirmation), (.right, .finish), (.left, .readConfirmation), (.left, .finish)]

theorem pinnedExchange_completes :
    ∃ state, run (Exchange.next pinnedEnds) (Exchange.init checksumCrypto) pinnedExchange =
        some state ∧
      (state .left).handled = some ⟨[⟨List.replicate publicKeySize 9, 5⟩], none⟩ ∧
      (state .right).handled = some ⟨[⟨List.replicate publicKeySize 7, 5⟩], none⟩ := by
  have honest : HonestEnds pinnedEnds :=
    { signs := fun side => checksumCrypto_verify_sign (pinnedEnds side).owner
      distinct := fun side => by cases side <;> decide
      samePassword := fun side => by cases side <;> rfl
      short := fun side => by cases side <;> decide
      nonces := fun side => by cases side <;> decide }
  have computed : ((run (Exchange.next pinnedEnds) (Exchange.init checksumCrypto)
      pinnedExchange).map fun state =>
        ((state .left).handled.isSome, (state .right).handled.isSome)) = some (true, true) := by
    decide +kernel
  obtain ⟨state, reached, ended⟩ := Option.map_eq_some_iff.mp computed
  obtain ⟨-, -, -, -, -, calls⟩ := honest_handshake_completes honest reached
  rw [Prod.mk.injEq] at ended
  obtain ⟨left, endedLeft⟩ := Option.isSome_iff_exists.mp ended.1
  obtain ⟨right, endedRight⟩ := Option.isSome_iff_exists.mp ended.2
  refine ⟨state, reached, ?_, ?_⟩
  · rw [endedLeft, calls .left left endedLeft
      ⟨nofun, .inr ⟨_, List.mem_singleton_self _, by decide⟩, nofun⟩]
    rfl
  · rw [endedRight, calls .right right endedRight ⟨nofun, .inl rfl, fun _ _ => .inl rfl⟩]
    rfl

end Uqda.Handshake
