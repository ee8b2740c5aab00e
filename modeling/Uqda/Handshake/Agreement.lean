import Uqda.Handshake.Authentic
import Uqda.Handshake.Session
import Uqda.Store.Table

/-!
# Agreement of handshake sessions

A handler that has verified a confirmation agrees with a handler of the peer on
both hellos.  The confirmation covers both wires behind a domain of its own, and
no other signed message has that form.  Hellos are framed, so the two wires can be
told apart; and as the peers' keys differ, each handler's own hello is the one the
other received.

Cryptographic strength enters as a condition on the steps of a run: a verification
that succeeds under the key of an honest node is of a hash which that node has
signed, and the hash has no second preimage among the messages signed.
-/

namespace Uqda.Handshake

open Uqda.Addressing Uqda.Store Uqda.Transition Uqda.Wire

/-! ## The invariant -/

variable {c : Crypto}

/-- If a signature verifies under the key of an honest node, the node has signed the
hash, and no other message signed has the hash. -/
def Verification.Sound (nodes : List c.PrivateKey) (signed : List Signing)
    (check : Verification) : Prop :=
  (∀ node ∈ nodes, check.key = c.publicKey node →
    c.verify check.key (c.blake2b check.password check.message) check.signature = true →
    ∃ signing ∈ signed, signing.key = check.key ∧
      c.blake2b signing.password signing.message = c.blake2b check.password check.message) ∧
  ∀ signing ∈ signed, check.NoCollision c signing

instance (nodes : List c.PrivateKey) (signed : List Signing) (check : Verification) :
    Decidable (check.Sound nodes signed) :=
  instDecidableAnd

/-- Every verification that the event makes is sound. -/
def System.SoundlyVerified (nodes : List c.PrivateKey) (system : System c)
    (event : SystemEvent c) : Prop :=
  ∀ out ∈ system.progress event, ∀ check ∈ out.2.2.verified, check.Sound nodes system.signed

instance (nodes : List c.PrivateKey) (system : System c) (event : SystemEvent c) :
    Decidable (system.SoundlyVerified nodes event) :=
  Option.decidableForallMem _

/-- Handlers are started by honest nodes, and every verification is sound. -/
def System.Admissible (nodes : List c.PrivateKey) (system : System c) :
    SystemEvent c → Prop
  | .start owner _ _ => owner ∈ nodes
  | event => system.SoundlyVerified nodes event

instance [DecidableEq c.PrivateKey] (nodes : List c.PrivateKey) (system : System c)
    (event : SystemEvent c) : Decidable (system.Admissible nodes event) :=
  match event with
  | .start owner _ _ => inferInstanceAs (Decidable (owner ∈ nodes))
  | .inject number bytes =>
      inferInstanceAs (Decidable (system.SoundlyVerified nodes (.inject number bytes)))
  | .readHello number =>
      inferInstanceAs (Decidable (system.SoundlyVerified nodes (.readHello number)))
  | .readConfirmation number =>
      inferInstanceAs (Decidable (system.SoundlyVerified nodes (.readConfirmation number)))
  | .abort number =>
      inferInstanceAs (Decidable (system.SoundlyVerified nodes (.abort number)))

/-- What holds of a handler's own variables. -/
structure Session.Genuine (session : Session c) : Prop where
  localHello : IsHello session.localMeta
  localKey : session.localMeta.publicKey = c.publicKey session.owner
  unread : session.phase = .awaitingHello → session.remoteMeta = none
  remoteHello : ∀ {remoteMeta}, session.remoteMeta = some remoteMeta →
    IsHello remoteMeta ∧ remoteMeta.publicKey ≠ c.publicKey session.owner

/-- The signature was made by this handler, in one of the three roles. -/
structure Session.Signed (session : Session c) (signing : Signing) : Prop where
  key : signing.key = c.publicKey session.owner
  password : signing.password = session.options.password
  role : (∃ payload, signing.message = handshakeDomain ++ payload) ∨
    signing.message.length = publicKeySize ∨
    ∃ remoteMeta, session.remoteMeta = some remoteMeta ∧
      signing.message = confirmationMessage session.localMeta remoteMeta

/-- The second handler has signed a confirmation under the password of the first,
its own hello is the hello that the first received, and the hello it received is
the hello that the first sent. -/
structure Session.Agrees (session peer : Session c) (signed : List Signing) : Prop where
  password : peer.options.password = session.options.password
  sent : session.remoteMeta = some peer.localMeta
  received : peer.remoteMeta = some session.localMeta
  confirmed : ⟨c.publicKey peer.owner, session.options.password,
    confirmationMessage peer.localMeta session.localMeta⟩ ∈ signed

/-- The invariant of the system. -/
structure System.Sound (nodes : List c.PrivateKey) (system : System c) : Prop where
  owner : ∀ session ∈ system.sessions, session.owner ∈ nodes
  genuine : ∀ session ∈ system.sessions, session.Genuine
  accounted : ∀ signing ∈ system.signed, ∃ session ∈ system.sessions, session.Signed signing
  agreed : ∀ session ∈ system.sessions, session.phase = .confirmed →
    ∀ remoteMeta node, session.remoteMeta = some remoteMeta → node ∈ nodes →
      remoteMeta.publicKey = c.publicKey node →
        ∃ peer ∈ system.sessions, peer.owner = node ∧ session.Agrees peer system.signed

/-- A handler keeps its identity, and the remote metadata once it has them. -/
structure Session.Extends (before after : Session c) : Prop where
  owner : after.owner = before.owner
  options : after.options = before.options
  localMeta : after.localMeta = before.localMeta
  remoteMeta : ∀ {remoteMeta}, before.remoteMeta = some remoteMeta →
    after.remoteMeta = some remoteMeta

theorem Session.Signed.extend {before after : Session c} {signing : Signing}
    (made : before.Signed signing) (extend : before.Extends after) : after.Signed signing where
  key := by rw [made.key, extend.owner]
  password := by rw [made.password, extend.options]
  role := by
    rw [extend.localMeta]
    refine made.role.imp_right (Or.imp_right ?_)
    rintro ⟨remoteMeta, received, message⟩
    exact ⟨remoteMeta, extend.remoteMeta received, message⟩

/-- Agreement survives further steps of the peer and further signatures. -/
theorem Session.Agrees.extend {session before after : Session c} {signed more : List Signing}
    (agrees : session.Agrees before signed) (extend : before.Extends after)
    (subset : signed ⊆ more) : session.Agrees after more where
  password := by rw [extend.options, agrees.password]
  sent := by rw [extend.localMeta, agrees.sent]
  received := extend.remoteMeta agrees.received
  confirmed := by
    rw [extend.localMeta, extend.owner]
    exact subset agrees.confirmed

/-! ## Agreement -/

/-- The verification of a confirmation under an honest node's key is of a message
that a handler of the node signed as a confirmation, for the same two hellos. -/
theorem System.Sound.agree {nodes : List c.PrivateKey}
    (distinct : ∀ first ∈ nodes, ∀ second ∈ nodes,
      c.publicKey first = c.publicKey second → first = second)
    {system : System c} (inv : system.Sound nodes) {session : Session c}
    (genuine : session.Genuine) {remoteMeta : VersionMetadata}
    (received : session.remoteMeta = some remoteMeta) {sig : Bytes}
    (sound : Verification.Sound nodes system.signed
      ⟨remoteMeta.publicKey, session.options.password,
        confirmationMessage session.localMeta remoteMeta, sig⟩)
    (verified : c.verify remoteMeta.publicKey (c.blake2b session.options.password
      (confirmationMessage session.localMeta remoteMeta)) sig = true)
    {node : c.PrivateKey} (isHonest : node ∈ nodes)
    (key : remoteMeta.publicKey = c.publicKey node) :
    ∃ peer ∈ system.sessions, peer.owner = node ∧ session.Agrees peer system.signed := by
  obtain ⟨signing, logged, sameKey, sameHash⟩ := sound.1 node isHonest key verified
  obtain ⟨samePassword, sameMessage⟩ := sound.2 signing logged sameHash
  obtain ⟨peer, member, made⟩ := inv.accounted signing logged
  obtain ⟨isRemote, notSelf⟩ := genuine.remoteHello received
  have owner : peer.owner = node := by
    refine distinct _ (inv.owner peer member) _ isHonest ?_
    rw [← made.key, sameKey, ← key]
  refine ⟨peer, member, owner, ?_⟩
  rcases made.role with ⟨payload, transcript⟩ | legacy | ⟨otherRemote, otherReceived, message⟩
  · obtain ⟨wires, domain⟩ := confirmationMessage_eq_append session.localMeta remoteMeta
    exact absurd ((transcript.symm.trans sameMessage).trans domain)
      (handshakeDomain_append_ne _ _)
  · have long := @publicKeySize_lt_length_confirmationMessage _ remoteMeta genuine.localHello
    rw [sameMessage] at legacy
    exact absurd legacy (Nat.ne_of_gt long)
  · have peerGenuine := inv.genuine peer member
    rcases confirmationMessage_inj genuine.localHello isRemote peerGenuine.localHello
        (peerGenuine.remoteHello otherReceived).1 (sameMessage.symm.trans message) with
      ⟨locals, -⟩ | ⟨sent, rfl⟩
    · refine absurd ?_ notSelf
      rw [← genuine.localKey, locals, peerGenuine.localKey, owner, key]
    · subst sent
      refine ⟨?_, received, otherReceived, ?_⟩
      · rw [← made.password, samePassword]
      · have entry : signing = ⟨c.publicKey peer.owner, session.options.password,
            confirmationMessage peer.localMeta session.localMeta⟩ := by
          cases signing
          simp only [Signing.mk.injEq]
          exact ⟨made.key, samePassword, message⟩
        exact entry ▸ logged

/-! ## Steps -/

/-- When one handler moves on, every handler lives on in the new list. -/
theorem Session.Extends.exists_mem_set {sessions : List (Session c)} {number : Nat}
    {before after session : Session c} (extend : before.Extends after)
    (found : sessions[number]? = some before) (member : session ∈ sessions) :
    ∃ later ∈ sessions.set number after, session.Extends later := by
  obtain ⟨other, present⟩ := List.mem_iff_getElem?.mp member
  by_cases same : other = number
  · subst same
    cases found.symm.trans present
    exact ⟨after, List.mem_of_getElem? ((getElem?_set_eq_some_iff found).mpr (.inl ⟨rfl, rfl⟩)),
      extend⟩
  · exact ⟨session,
      List.mem_of_getElem? ((getElem?_set_eq_some_iff found).mpr (.inr ⟨same, present⟩)),
      rfl, rfl, rfl, id⟩

/-- A section of one handler keeps the invariant if it extends the handler's
variables, accounts for the signatures it makes, and agrees with a peer if it ends
confirmed. -/
theorem System.Sound.replace {nodes : List c.PrivateKey} {system : System c}
    (inv : system.Sound nodes) {number : Nat} {before after : Session c}
    {signed : List Signing} (found : system.sessions[number]? = some before)
    (extend : before.Extends after) (genuine : after.Genuine)
    (made : ∀ signing ∈ signed, after.Signed signing)
    (agreed : after.phase = .confirmed → ∀ remoteMeta node,
      after.remoteMeta = some remoteMeta → node ∈ nodes →
        remoteMeta.publicKey = c.publicKey node →
          ∃ peer ∈ system.sessions, peer.owner = node ∧ after.Agrees peer system.signed) :
    System.Sound nodes
      ⟨system.sessions.set number after, system.signed ++ signed⟩ := by
  have bound := (List.getElem?_eq_some_iff.mp found).1
  have isBefore : before ∈ system.sessions := List.mem_of_getElem? found
  have isAfter : after ∈ system.sessions.set number after := List.mem_set bound after
  have extended {session : Session c} (member : session ∈ system.sessions) :=
    extend.exists_mem_set found member
  have peers : ∀ {session : Session c} {node : c.PrivateKey},
      (∃ peer ∈ system.sessions, peer.owner = node ∧ session.Agrees peer system.signed) →
        ∃ peer ∈ system.sessions.set number after,
          peer.owner = node ∧ session.Agrees peer (system.signed ++ signed) := by
    rintro session node ⟨peer, member, owner, agrees⟩
    obtain ⟨later, laterMember, extend⟩ := extended member
    exact ⟨later, laterMember, extend.owner.trans owner,
      agrees.extend extend (List.subset_append_left ..)⟩
  refine ⟨?_, ?_, ?_, ?_⟩
  · intro session member
    rcases List.mem_or_eq_of_mem_set member with old | rfl
    · exact inv.owner session old
    · exact extend.owner ▸ inv.owner before isBefore
  · intro session member
    rcases List.mem_or_eq_of_mem_set member with old | rfl
    · exact inv.genuine session old
    · exact genuine
  · intro signing logged
    rcases List.mem_append.mp logged with old | new
    · obtain ⟨session, member, made⟩ := inv.accounted signing old
      obtain ⟨later, laterMember, extend⟩ := extended member
      exact ⟨later, laterMember, made.extend extend⟩
    · exact ⟨after, isAfter, made signing new⟩
  · intro session member confirmed remoteMeta node received isHonest key
    rcases List.mem_or_eq_of_mem_set member with old | rfl
    · exact peers (inv.agreed session old confirmed remoteMeta node received isHonest key)
    · exact peers (agreed confirmed remoteMeta node received isHonest key)

/-- A started handler has sent its own hello and made the two signatures in it. -/
theorem Session.start_eq_ok {owner : c.PrivateKey} {options : LinkOptions}
    {random : Option (Vector UInt8 32)} {progress : Progress c}
    (started : Session.start c owner options random = .ok progress) :
    progress.session.owner = owner ∧ progress.session.phase = .awaitingHello ∧
      progress.session.Genuine ∧ ∀ signing ∈ progress.signed, progress.session.Signed signing := by
  unfold Session.start at started
  dsimp only at started
  split at started
  · cases started
  · rename_i encoded encodes
    cases started
    have size : (c.publicKey owner).length = publicKeySize := c.length_publicKey owner
    obtain ⟨nonce, -, -, rfl⟩ := (VersionMetadata.encode_eq_ok_iff size).mp encodes
    refine ⟨rfl, rfl, ⟨isHello_helloOf .., rfl, fun _ => rfl, fun received => nomatch received⟩, ?_⟩
    intro signing made
    simp only [helloOf, List.mem_cons, List.not_mem_nil, or_false] at made
    rcases made with rfl | rfl
    · exact ⟨rfl, rfl, Or.inl ⟨_, rfl⟩⟩
    · exact ⟨rfl, rfl, Or.inr (Or.inl size)⟩

/-- What a handler does with a remote hello. -/
theorem Session.answer_cases (session : Session c) (remoteMeta : VersionMetadata) :
    (∃ err, session.answer remoteMeta = (session.fail err, [])) ∨
      (remoteMeta.publicKey ≠ c.publicKey session.owner ∧
        ((∃ outbox, session.answer remoteMeta =
            ({ session with
                remoteMeta := some remoteMeta
                phase := .awaitingConfirmation
                outbox := outbox },
              [⟨c.publicKey session.owner, session.options.password,
                confirmationMessage session.localMeta remoteMeta⟩])) ∨
          session.answer remoteMeta =
            ({ session with remoteMeta := some remoteMeta, phase := .unconfirmed }, []))) := by
  unfold Session.answer
  split
  · exact Or.inl ⟨_, rfl⟩
  · split
    · exact Or.inl ⟨_, rfl⟩
    · rename_i notSelf
      split
      · split
        · exact Or.inl ⟨_, rfl⟩
        · rename_i confirmation signing encodes
          obtain ⟨hash, -, made⟩ := bind_eq_ok_iff.mp encodes
          cases made
          exact Or.inr ⟨notSelf, Or.inl ⟨_, rfl⟩⟩
      · split
        · exact Or.inl ⟨_, rfl⟩
        · exact Or.inr ⟨notSelf, Or.inr rfl⟩

theorem System.Sound.readHello {nodes : List c.PrivateKey} {system : System c}
    (inv : system.Sound nodes) {number : Nat} {session : Session c}
    (found : system.sessions[number]? = some session) (waiting : session.phase = .awaitingHello) :
    System.Sound nodes ⟨system.sessions.set number session.readHello.session,
      system.signed ++ session.readHello.signed⟩ := by
  have genuine := inv.genuine session (List.mem_of_getElem? found)
  have unread := genuine.unread waiting
  unfold Session.readHello
  generalize decoding : VersionMetadata.decode c {} session.inbox session.options.password = d
  dsimp only
  cases result : d.result with
  | error failure =>
      exact inv.replace found ⟨rfl, rfl, rfl, id⟩
        ⟨genuine.localHello, genuine.localKey, (nomatch ·), genuine.remoteHello⟩
        (by simp) (nomatch ·)
  | ok out =>
      obtain ⟨remoteMeta, verified⟩ := out
      have isRemote : IsHello remoteMeta := isHello_of_decode (decoding ▸ result)
      have extend : ∀ {after : Session c}, after.owner = session.owner →
          after.options = session.options → after.localMeta = session.localMeta →
            session.Extends after := by
        intro after owner options localMeta
        exact ⟨owner, options, localMeta, fun kept => by rw [unread] at kept; cases kept⟩
      rcases Session.answer_cases { session with inbox := d.unread } remoteMeta with
        ⟨err, equal⟩ | ⟨notSelf, ⟨outbox, equal⟩ | equal⟩ <;> simp only [equal]
      · exact inv.replace found ⟨rfl, rfl, rfl, id⟩
          ⟨genuine.localHello, genuine.localKey, (nomatch ·), genuine.remoteHello⟩
          (by simp) (nomatch ·)
      · refine inv.replace found (extend rfl rfl rfl)
          ⟨genuine.localHello, genuine.localKey, (nomatch ·), ?_⟩ ?_ (nomatch ·)
        · intro other received
          cases received
          exact ⟨isRemote, notSelf⟩
        · intro signing made
          cases List.mem_singleton.mp made
          exact ⟨rfl, rfl, Or.inr (Or.inr ⟨remoteMeta, rfl, rfl⟩)⟩
      · refine inv.replace found (extend rfl rfl rfl)
          ⟨genuine.localHello, genuine.localKey, (nomatch ·), ?_⟩ (by simp) (nomatch ·)
        intro other received
        cases received
        exact ⟨isRemote, notSelf⟩

theorem System.Sound.readConfirmation {nodes : List c.PrivateKey}
    (distinct : ∀ first ∈ nodes, ∀ second ∈ nodes,
      c.publicKey first = c.publicKey second → first = second)
    {system : System c} (inv : system.Sound nodes) {number : Nat} {session : Session c}
    (found : system.sessions[number]? = some session) {remoteMeta : VersionMetadata}
    (received : session.remoteMeta = some remoteMeta)
    (sound : ∀ check ∈ (session.readConfirmation remoteMeta).verified,
      check.Sound nodes system.signed) :
    System.Sound nodes
      ⟨system.sessions.set number (session.readConfirmation remoteMeta).session,
        system.signed ++ (session.readConfirmation remoteMeta).signed⟩ := by
  have genuine := inv.genuine session (List.mem_of_getElem? found)
  unfold Session.readConfirmation at sound ⊢
  generalize decoding : decodeConfirmation c session.inbox remoteMeta.publicKey
    session.options.password session.localMeta remoteMeta = d at sound ⊢
  dsimp only at sound ⊢
  cases result : d.result with
  | error failure =>
      exact inv.replace found ⟨rfl, rfl, rfl, id⟩
        ⟨genuine.localHello, genuine.localKey, (nomatch ·), genuine.remoteHello⟩
        (by simp) (nomatch ·)
  | ok check =>
      rw [result] at sound
      obtain ⟨-, -, -, -, sig, -, -, -, verified, rfl⟩ :=
        decodeConfirmation_eq_ok_iff.mp (decoding ▸ result)
      have checked := sound _ List.mem_cons_self
      refine inv.replace found ⟨rfl, rfl, rfl, id⟩
        ⟨genuine.localHello, genuine.localKey, (nomatch ·), genuine.remoteHello⟩ (by simp) ?_
      intro _ other node otherReceived isHonest key
      cases received.symm.trans otherReceived
      obtain ⟨peer, member, owner, agrees⟩ :=
        inv.agree distinct genuine received checked verified isHonest key
      exact ⟨peer, member, owner, agrees.password, agrees.sent, agrees.received, agrees.confirmed⟩

theorem System.Sound.start {nodes : List c.PrivateKey} {system : System c}
    (inv : system.Sound nodes) {owner : c.PrivateKey} (isHonest : owner ∈ nodes)
    {options : LinkOptions} {random : Option (Vector UInt8 32)} {progress : Progress c}
    (started : Session.start c owner options random = .ok progress) :
    System.Sound nodes
      ⟨system.sessions ++ [progress.session], system.signed ++ progress.signed⟩ := by
  obtain ⟨sameOwner, waiting, genuine, made⟩ := Session.start_eq_ok started
  have members : ∀ {session : Session c}, session ∈ system.sessions ++ [progress.session] ↔
      session ∈ system.sessions ∨ session = progress.session := by
    simp
  refine ⟨?_, ?_, ?_, ?_⟩
  · intro session member
    rcases members.mp member with old | rfl
    · exact inv.owner session old
    · exact sameOwner ▸ isHonest
  · intro session member
    rcases members.mp member with old | rfl
    · exact inv.genuine session old
    · exact genuine
  · intro signing logged
    rcases List.mem_append.mp logged with old | new
    · obtain ⟨session, member, made⟩ := inv.accounted signing old
      exact ⟨session, members.mpr (Or.inl member), made⟩
    · exact ⟨progress.session, members.mpr (Or.inr rfl), made signing new⟩
  · intro session member confirmed remoteMeta node received isHonest key
    rcases members.mp member with old | rfl
    · obtain ⟨peer, peerMember, owner, agrees⟩ :=
        inv.agreed session old confirmed remoteMeta node received isHonest key
      exact ⟨peer, members.mpr (Or.inl peerMember), owner,
        agrees.extend ⟨rfl, rfl, rfl, id⟩ (List.subset_append_left ..)⟩
    · rw [waiting] at confirmed
      cases confirmed

/-- Bytes from the network change no variable of a handler. -/
theorem System.Sound.inject {nodes : List c.PrivateKey} {system : System c}
    (inv : system.Sound nodes) {number : Nat} {session : Session c}
    (found : system.sessions[number]? = some session) (bytes : Bytes) :
    System.Sound nodes ⟨system.sessions.set number
      { session with inbox := session.inbox ++ bytes }, system.signed ++ []⟩ := by
  have member := List.mem_of_getElem? found
  have genuine := inv.genuine session member
  refine inv.replace found ⟨rfl, rfl, rfl, id⟩
    ⟨genuine.localHello, genuine.localKey, genuine.unread, genuine.remoteHello⟩ (by simp) ?_
  intro confirmed remoteMeta node received isHonest key
  obtain ⟨peer, peerMember, owner, agrees⟩ :=
    inv.agreed session member confirmed remoteMeta node received isHonest key
  exact ⟨peer, peerMember, owner, agrees.password, agrees.sent, agrees.received, agrees.confirmed⟩

theorem System.Sound.abort {nodes : List c.PrivateKey} {system : System c}
    (inv : system.Sound nodes) {number : Nat} {session : Session c}
    (found : system.sessions[number]? = some session) (err : HandlerError) :
    System.Sound nodes
      ⟨system.sessions.set number (session.fail err), system.signed ++ []⟩ := by
  have genuine := inv.genuine session (List.mem_of_getElem? found)
  exact inv.replace found ⟨rfl, rfl, rfl, id⟩
    ⟨genuine.localHello, genuine.localKey, (nomatch ·), genuine.remoteHello⟩ (by simp) (nomatch ·)

theorem System.progress_eq_some_iff {system : System c} {event : SystemEvent c} {number : Nat}
    {session : Session c} {progress : Progress c} :
    system.progress event = some (number, session, progress) ↔
      event.session = some number ∧ system.sessions[number]? = some session ∧
        session.section event = some progress := by
  simp only [System.progress, Option.bind_eq_bind, Option.bind_eq_some_iff, Option.pure_def,
    Option.some.injEq, Prod.mk.injEq]
  constructor
  · rintro ⟨_, event, _, found, _, stepped, rfl, rfl, rfl⟩
    exact ⟨event, found, stepped⟩
  · rintro ⟨event, found, stepped⟩
    exact ⟨number, event, session, found, progress, stepped, rfl, rfl, rfl⟩

/-- Every admissible step keeps the invariant. -/
theorem System.Sound.next {nodes : List c.PrivateKey}
    (distinct : ∀ first ∈ nodes, ∀ second ∈ nodes,
      c.publicKey first = c.publicKey second → first = second)
    {system target : System c} {event : SystemEvent c} (inv : system.Sound nodes)
    (admissible : system.Admissible nodes event) (step : system.next event = some target) :
    target.Sound nodes := by
  cases event with
  | start owner options random =>
      simp only [System.next] at step
      split at step
      · cases step
        exact inv
      · rename_i progress started
        cases step
        exact inv.start admissible started
  | inject number bytes =>
      obtain ⟨⟨number, session, progress⟩, stepped, rfl⟩ := Option.map_eq_some_iff.mp step
      obtain ⟨-, found, ran⟩ := System.progress_eq_some_iff.mp stepped
      cases ran
      exact inv.inject found bytes
  | readHello number =>
      obtain ⟨⟨number, session, progress⟩, stepped, rfl⟩ := Option.map_eq_some_iff.mp step
      obtain ⟨-, found, ran⟩ := System.progress_eq_some_iff.mp stepped
      simp only [Session.section] at ran
      split at ran <;> cases ran
      rename_i waiting
      exact inv.readHello found waiting
  | readConfirmation number =>
      obtain ⟨⟨number, session, progress⟩, stepped, rfl⟩ := Option.map_eq_some_iff.mp step
      obtain ⟨-, found, ran⟩ := System.progress_eq_some_iff.mp stepped
      have sound := admissible (number, session, progress) stepped
      simp only [Session.section] at ran
      split at ran <;> cases ran
      rename_i received
      exact inv.readConfirmation distinct found received sound
  | abort number =>
      obtain ⟨⟨number, session, progress⟩, stepped, rfl⟩ := Option.map_eq_some_iff.mp step
      obtain ⟨-, found, ran⟩ := System.progress_eq_some_iff.mp stepped
      simp only [Session.section] at ran
      split at ran <;> cases ran <;> exact inv.abort found .transport

/-- Handshake agreement.  In every admissible run, a handler that has verified a
confirmation under the key of an honest node agrees with a handler of that node:
the latter has signed a confirmation under the same password, its own hello is the
one received, and the hello it received is the one sent, with all metadata.  If the
nonces of the handler's owner never repeat, different handlers of this owner agree
with different handlers. -/
theorem handshake_agreement {nodes : List c.PrivateKey}
    (distinct : ∀ first ∈ nodes, ∀ second ∈ nodes,
      c.publicKey first = c.publicKey second → first = second)
    {events : List (SystemEvent c)} {system : System c}
    (ended : run System.next (System.init c) events = some system)
    (admissible : EveryStep System.next (System.Admissible nodes) (System.init c) events) :
    (∀ (number : Nat) session remoteMeta node, system.sessions[number]? = some session →
      session.phase = .confirmed → session.remoteMeta = some remoteMeta → node ∈ nodes →
        remoteMeta.publicKey = c.publicKey node →
          ∃ (other : Nat) (peer : Session c), system.sessions[other]? = some peer ∧
            peer.owner = node ∧ session.Agrees peer system.signed) ∧
      ∀ owner, (∀ (first second : Nat) one two, system.sessions[first]? = some one →
          system.sessions[second]? = some two → one.owner = owner → two.owner = owner →
            one.localMeta.nonce = two.localMeta.nonce → first = second) →
        ∀ (first second : Nat) one two peer, system.sessions[first]? = some one →
          system.sessions[second]? = some two → one.owner = owner → two.owner = owner →
            one.Agrees peer system.signed → two.Agrees peer system.signed → first = second := by
  have initially : (System.init c).Sound nodes :=
    ⟨by simp [System.init], by simp [System.init], by simp [System.init], by simp [System.init]⟩
  have inv : system.Sound nodes :=
    (admissible.throughout initially fun inv met step => inv.next distinct met step).last ended
  constructor
  · intro number session remoteMeta node found confirmed received isHonest key
    obtain ⟨peer, member, owner, agrees⟩ := inv.agreed session (List.mem_of_getElem? found)
      confirmed remoteMeta node received isHonest key
    obtain ⟨other, peerFound⟩ := List.mem_iff_getElem?.mp member
    exact ⟨other, peer, peerFound, owner, agrees⟩
  · intro owner fresh first second one two peer foundOne foundTwo ownerOne ownerTwo agreesOne
      agreesTwo
    have same : one.localMeta = two.localMeta :=
      Option.some.inj (agreesOne.received.symm.trans agreesTwo.received)
    exact fresh first second one two foundOne foundTwo ownerOne ownerTwo (by rw [same])

/-! ## An exchange between two nodes -/

instance : DecidableEq checksumCrypto.PrivateKey :=
  inferInstanceAs (DecidableEq UInt8)

/-- The node that opens the connection. -/
def firstNode : checksumCrypto.PrivateKey :=
  (7 : UInt8)

/-- The node that is called. -/
def secondNode : checksumCrypto.PrivateKey :=
  (9 : UInt8)

/-- The hello of a node with the given nonce. -/
def helloFrom (node : checksumCrypto.PrivateKey) (nonce : Vector UInt8 32) : Encoded :=
  helloOf checksumCrypto
    { versionGetBaseMetadata with
      publicKey := checksumCrypto.publicKey node
      priority := 3
      nonce := nonce
      capabilities := capabilityHandshakeConfirmation }
    (checksumCrypto.length_publicKey node) node []

/-- The hello of the first node. -/
def firstHello : Encoded :=
  helloFrom firstNode (Vector.replicate 32 1)

/-- The hello of the second node. -/
def secondHello : Encoded :=
  helloFrom secondNode (Vector.replicate 32 2)

/-- The confirmation that the second node sends. -/
def secondConfirmation : Bytes :=
  confirmationPreamble ++ checksumCrypto.sign secondNode
    (checksumCrypto.blake2b [] (confirmationMessage secondHello.m firstHello.m))

/-- Both nodes start a handler, the network delivers both hellos and the second
node's confirmation. -/
def exchange : List (SystemEvent checksumCrypto) :=
  [.start firstNode ⟨[], 3, true⟩ (some (Vector.replicate 32 1)),
    .start secondNode ⟨[], 3, true⟩ (some (Vector.replicate 32 2)),
    .inject 0 secondHello.bytes, .inject 1 firstHello.bytes, .readHello 0, .readHello 1,
    .inject 0 secondConfirmation, .readConfirmation 0]

/-- The first node's handler ends confirmed, and agrees with the second node's. -/
theorem exchange_agrees :
    ∃ system session, run System.next (System.init checksumCrypto) exchange = some system ∧
      system.sessions[0]? = some session ∧ session.phase = .confirmed ∧
      ∃ (other : Nat) (peer : Session checksumCrypto), system.sessions[other]? = some peer ∧
        peer.owner = secondNode ∧ session.Agrees peer system.signed := by
  have computed : ((run System.next (System.init checksumCrypto) exchange).bind fun system =>
      system.sessions[0]?.map fun session =>
        (session.phase, session.remoteMeta.map VersionMetadata.publicKey)) =
      some (.confirmed, some (checksumCrypto.publicKey secondNode)) := by
    decide +kernel
  obtain ⟨system, ended, observed⟩ := Option.bind_eq_some_iff.mp computed
  obtain ⟨session, found, equal⟩ := Option.map_eq_some_iff.mp observed
  rw [Prod.mk.injEq] at equal
  obtain ⟨confirmed, keys⟩ := equal
  obtain ⟨remoteMeta, received, key⟩ := Option.map_eq_some_iff.mp keys
  have admissible : EveryStep System.next (System.Admissible [firstNode, secondNode])
      (System.init checksumCrypto) exchange := by
    decide +kernel
  have agreement := (handshake_agreement (by decide) ended admissible).1 0 session remoteMeta
    secondNode found confirmed received (by decide) key
  exact ⟨system, session, ended, found, confirmed, agreement⟩

end Uqda.Handshake
