import Uqda.Network.Parent
import Uqda.Network.RouterRuns

/-!
# What a router keeps and sends is signed

A peer drops the link when an announcement or a response fails its check, so a router must not
send one that does.  In every run its responses pass, and so do its announcements with one
exception: `_handleSigRes` and `_useResponse` take a response with port 0, but the announcement
that is made of it is refused by `routerAnnounce.check`.  The paths that a router keeps were signed
by the nodes they lead to.
-/

namespace Uqda.Network

open Uqda.Store Uqda.Graph Uqda.Transition

/-- The announcement passes its check, or it is the node's own and its parent gave it port 0. -/
def Vouched (core : Core) (ann : RouterAnnounce) : Prop :=
  ann.check core.crypto = some true ∨
    ann.key = core.publicKey ∧ ann.parent ≠ core.publicKey ∧ ann.port = 0

/-- The node signed the path with this number. -/
def SignedPath (core : Core) (key : PublicKey) (seq : UInt64) (path : List PeerPort) : Prop :=
  ∃ sig, core.crypto.verify key (PathNotifyInfo.bytesForSig ⟨seq, path, sig⟩) sig = true

/-- The receiver's checks of what the router sends to a peer. -/
def Sound (core : Core) : Effect → Prop
  | .send _ (.announce ann) => Vouched core ann
  | .send p (.sigRes res) => res.check core.crypto p.key core.publicKey = some true
  | _ => True

namespace Router

/-- All that the router keeps of other nodes has passed its check, and all that it has sent will. -/
structure Authentic (core : Core) (r : Router) : Prop where
  infos : ∀ {key info}, r.infos.lookup key = some info → Vouched core (info.getAnnounce key)
  responses : ∀ {key res}, r.responses.lookup key = some res →
    res.check core.crypto core.publicKey key = some true
  paths : ∀ {key info}, r.paths.lookup key = some info → SignedPath core key info.seq info.path
  effects : ∀ effect ∈ r.effects, Sound core effect

variable {core : Core} {r r' : Router} {p : PeerId} {now : Now}

namespace Authentic

/-- Only what is kept and sent matters. -/
theorem of_eq (authentic : Authentic core r) (infos : r'.infos = r.infos)
    (responses : r'.responses = r.responses) (paths : r'.paths = r.paths)
    (effects : r'.effects = r.effects) : Authentic core r' := by
  refine ⟨?_, ?_, ?_, ?_⟩
  · rw [infos]
    exact authentic.infos
  · rw [responses]
    exact authentic.responses
  · rw [paths]
    exact authentic.paths
  · rw [effects]
    exact authentic.effects

theorem append (authentic : Authentic core r) {new : List Effect}
    (sound : ∀ effect ∈ new, Sound core effect) :
    Authentic core { r with effects := r.effects ++ new } := by
  refine ⟨authentic.infos, authentic.responses, authentic.paths, fun effect present => ?_⟩
  rcases List.mem_append.mp present with before | later
  · exact authentic.effects effect before
  · exact sound effect later

theorem send (authentic : Authentic core r) {message : Message}
    (sound : Sound core (.send p message)) : Authentic core (r.send p message) := by
  refine authentic.append fun effect present => ?_
  rw [List.mem_singleton.mp present]
  exact sound

theorem sendEach (authentic : Authentic core r) {ps : List PeerId} {messages : List Message}
    (sound : ∀ p, ∀ message ∈ messages, Sound core (.send p message)) :
    Authentic core (r.sendEach ps messages) := by
  rw [sendEach_eq]
  refine authentic.append fun effect present => ?_
  obtain ⟨p, -, present⟩ := List.mem_flatMap.mp present
  obtain ⟨message, listed, rfl⟩ := List.mem_map.mp present
  exact sound p message listed

/-! ## Announcements -/

theorem store (authentic : Authentic core r) {ann : RouterAnnounce} (vouched : Vouched core ann) :
    Authentic core (r.store ann) := by
  refine ⟨?_, authentic.responses, authentic.paths, authentic.effects⟩
  intro key info found
  rw [Router.store, Map.lookup_insert_eq] at found
  split at found
  · rename_i same
    cases found
    rw [same]
    exact vouched
  · exact authentic.infos found

theorem update (authentic : Authentic core r) {ann : RouterAnnounce} (vouched : Vouched core ann)
    (updated : r.update ann = some r') : Authentic core r' := by
  rw [eq_store_of_update updated]
  exact authentic.store vouched

theorem markSent (authentic : Authentic core r) {peerKey key : PublicKey}
    (marked : r.markSent peerKey key = some r') : Authentic core r' := by
  rw [Router.markSent] at marked
  split at marked
  · cases marked
    exact authentic.of_eq rfl rfl rfl rfl
  · cases marked

theorem handleAnnounce (authentic : Authentic core r) {ann : RouterAnnounce}
    (good : ann.check core.crypto = some true) (handled : r.handleAnnounce core p ann = some r') :
    Authentic core r' := by
  rw [Router.handleAnnounce] at handled
  split at handled
  · rename_i r₁ updated
    have stored := authentic.update (.inl good) updated
    refine markSent ?_ handled
    split
    · exact stored.of_eq rfl rfl rfl rfl
    · exact stored
  · rw [Option.bind_eq_bind, Option.bind_eq_some_iff] at handled
    obtain ⟨oldInfo, found, handled⟩ := handled
    rw [Option.bind_eq_bind, Option.bind_eq_some_iff] at handled
    obtain ⟨r₁, marked, handled⟩ := handled
    have kept := authentic.markSent marked
    split at handled
    · cases handled
      exact kept.send (authentic.infos found)
    · cases handled
      exact kept

theorem sendAnnounces (authentic : Authentic core r) (sent : r.sendAnnounces core = some r') :
    Authentic core r' := by
  have start : Authentic core r ∧ r.infos = r.infos := ⟨authentic, rfl⟩
  refine (@invariant_of_foldlM Router (PublicKey × List PublicKey) _
    (fun s => Authentic core s ∧ s.infos = r.infos) r r' r.sent.toList sent start ?_).1
  rintro s ⟨peer, marked⟩ s' - ⟨kept, sameInfos⟩ stepped
  have known : ∀ key ∈ r.getAncestry core.publicKey, key ∈ s.infos := by
    intro key higher
    rw [sameInfos]
    exact mem_getAncestry_known higher
  obtain ⟨anns, sent', result, -, right, -⟩ := @sendAnnouncesTo_spec s _ marked peer known
  rw [result] at stepped
  cases stepped
  have inserted : Authentic core { s with sent := s.sent.insert peer sent' } :=
    kept.of_eq rfl rfl rfl rfl
  refine ⟨inserted.sendEach fun q message listed => ?_, ?_⟩
  · obtain ⟨ann, made, rfl⟩ := List.mem_map.mp listed
    exact kept.infos (right ann made)
  · rw [sendEach_eq]
    exact sameInfos

/-! ## The parent -/

theorem settle (authentic : Authentic core r) : Authentic core (r.settle core) := by
  obtain ⟨requests, responded, drawn, new, result, kinds⟩ :=
    sendReqs_spec core { r with refresh := false, doRoot1 := false, doRoot2 := false }
  rw [Router.settle, result]
  refine ⟨authentic.infos, ?_, authentic.paths, fun effect present => ?_⟩
  · intro key res found
    rw [Map.lookup_empty] at found
    cases found
  · rcases List.mem_append.mp present with before | later
    · exact authentic.effects effect before
    · obtain ⟨q, req, rfl⟩ := kinds effect later
      trivial

/-- The announcement that is made of a response fails its check only because of its port. -/
theorem useResponse (authentic : Authentic core r) (signs : core.Signs) {peerKey : PublicKey}
    {res : RouterSigRes} (found : r.responses.lookup peerKey = some res)
    (used : r.useResponse core peerKey res = some r') : Authentic core r' := by
  rw [Router.useResponse, RouterSigRes.bytesForSig_eq, Option.bind_eq_bind,
    Option.bind_some] at used
  refine authentic.update ?_ used
  have psig := authentic.responses found
  rw [RouterSigRes.check_eq, Option.some.injEq] at psig
  by_cases good : res.port = 0 → core.publicKey = peerKey
  · left
    rw [RouterAnnounce.check_eq_some_true_iff]
    exact ⟨good, signs _, psig⟩
  · rw [Classical.not_imp] at good
    exact .inr ⟨rfl, Ne.symm good.2, good.1⟩

theorem becomeRoot (authentic : Authentic core r) (rooted : r.becomeRoot core = some r') :
    Authentic core r' := by
  rw [Router.becomeRoot] at rooted
  simp only [Option.bind_eq_bind, Option.bind_eq_some_iff] at rooted
  obtain ⟨ann, -, good, checked, rooted⟩ := rooted
  split at rooted
  · cases rooted
  · rename_i passed
    rw [Bool.not_eq_true', Bool.not_eq_false] at passed
    rw [passed] at checked
    have drawn : Authentic core (r.newReq core).2 := authentic.of_eq rfl rfl rfl rfl
    exact drawn.update (.inl checked) rooted

theorem fix (authentic : Authentic core r) (signs : core.Signs) (fixed : r.fix core = some r') :
    Authentic core r' := by
  rw [Router.fix] at fixed
  split at fixed
  · split at fixed
    · rename_i r₁ adopted
      cases fixed
      rw [adopt] at adopted
      split at adopted
      · split at adopted
        · rename_i res found
          exact (authentic.useResponse signs found adopted).settle
        · cases adopted
      · cases adopted
    · split at fixed
      · split at fixed
        · rename_i r₁ rooted
          cases fixed
          exact (authentic.becomeRoot rooted).settle
        · cases fixed
      · split at fixed
        · cases fixed
          exact authentic.of_eq rfl rfl rfl rfl
        · cases fixed
          exact authentic
  · cases fixed
    exact authentic

/-! ## Bloom filters -/

theorem fixOnTree (authentic : Authentic core r) (fixed : r.fixOnTree core = some r') :
    Authentic core r' := by
  rw [Router.fixOnTree] at fixed
  split at fixed
  · rename_i selfInfo found
    cases fixed
    clear found
    generalize r.blooms.toList = entries
    induction entries generalizing r with
    | nil => exact authentic
    | cons entry entries ih =>
        rw [List.foldl_cons]
        apply ih
        rw [fixOnTreeOne]
        dsimp only
        split
        · have sent : Authentic core (r.sendEach (r.links entry.1) [.bloom .new]) := by
            refine authentic.sendEach fun q message listed => ?_
            rw [List.mem_singleton.mp listed]
            trivial
          exact sent.of_eq rfl rfl rfl rfl
        · exact authentic.of_eq rfl rfl rfl rfl
  · cases fixed

theorem getBloomFor (authentic : Authentic core r) {key : PublicKey} {keepOnes isNew : Bool}
    {b : Bloom} (got : r.getBloomFor core key keepOnes = some (b, isNew, r')) :
    Authentic core r' := by
  rw [Router.getBloomFor, Option.bind_eq_bind, Option.bind_eq_some_iff] at got
  obtain ⟨pbi, -, got⟩ := got
  dsimp only at got
  split at got
  · cases got
    exact authentic
  · cases got
    exact authentic.of_eq rfl rfl rfl rfl

theorem sendAllBlooms (authentic : Authentic core r) (sent : r.sendAllBlooms core = some r') :
    Authentic core r' := by
  refine invariant_of_foldlM sent authentic ?_
  rintro s ⟨k, pbi⟩ s' - kept stepped
  rw [sendBloomTo] at stepped
  dsimp only at stepped
  split at stepped
  · cases stepped
    exact kept
  · simp only [Option.bind_eq_bind, Option.bind_eq_some_iff] at stepped
    obtain ⟨⟨b, isNew, s₁⟩, got, pbi₁, -, stepped⟩ := stepped
    have kept₁ := kept.getBloomFor got
    split at stepped
    · rw [Option.bind_eq_some_iff] at stepped
      obtain ⟨ps, -, stepped⟩ := stepped
      cases stepped
      have sent : Authentic core (s₁.sendEach ps [.bloom b]) := by
        refine kept₁.sendEach fun q message listed => ?_
        rw [List.mem_singleton.mp listed]
        trivial
      exact sent.of_eq rfl rfl rfl rfl
    · cases stepped
      exact kept₁.of_eq rfl rfl rfl rfl

theorem doMaintenance (authentic : Authentic core r) (signs : core.Signs)
    (done : r.doMaintenance core = some r') : Authentic core r' := by
  rw [Router.doMaintenance] at done
  simp only [Option.bind_eq_bind, Option.bind_eq_some_iff] at done
  obtain ⟨r₁, fixed, r₂, announced, r₃, onTree, sent⟩ := done
  have reset : Authentic core (resetCache { r with doRoot2 := r.doRoot2 || r.doRoot1 }) :=
    authentic.of_eq rfl rfl rfl rfl
  exact (((reset.fix signs fixed).sendAnnounces announced).fixOnTree onTree).sendAllBlooms sent

/-! ## Peers -/

theorem addPeer (authentic : Authentic core r) (tidy : Tidy r)
    (added : r.addPeer core p = some r') : Authentic core r' := by
  obtain ⟨r₁, new, added', rest, -, greetings, -⟩ := addPeer_spec core tidy p
  obtain rfl : r₁ = r' := Option.some.inj (added'.symm.trans added)
  have sound : ∀ effect ∈ new, Sound core effect := by
    intro effect present
    rcases greetings effect present with ⟨ann, rfl, found⟩ | ⟨req, rfl⟩ | ⟨b, rfl⟩
    · exact authentic.infos found
    · trivial
    · trivial
  rw [rest]
  exact (authentic.append sound).of_eq rfl rfl rfl rfl

theorem removePeer (authentic : Authentic core r) (removed : r.removePeer p = some r') :
    Authentic core r' := by
  rw [Router.removePeer] at removed
  dsimp only at removed
  split at removed
  · cases removed
    refine ⟨authentic.infos, ?_, authentic.paths, authentic.effects⟩
    intro key res found
    rw [removeInfo, Map.lookup_erase_eq] at found
    split at found
    · cases found
    · exact authentic.responses found
  · refine invariant_of_foldlM removed (authentic.of_eq rfl rfl rfl rfl) ?_
    intro s q s' _ kept stepped
    rw [sendBloom, Option.bind_eq_bind, Option.bind_eq_some_iff] at stepped
    obtain ⟨pbi, -, stepped⟩ := stepped
    cases stepped
    exact kept.send trivial

/-! ## Requests and responses -/

theorem handleRequest (authentic : Authentic core r) (signs : core.Signs) {req : RouterSigReq}
    (handled : r.handleRequest core p req = some r') : Authentic core r' := by
  rw [Router.handleRequest, RouterSigRes.bytesForSig_eq] at handled
  cases handled
  refine authentic.send ?_
  rw [Sound, RouterSigRes.check_eq, Option.some.injEq]
  exact signs _

theorem handleResponse (authentic : Authentic core r) {res : RouterSigRes}
    (good : res.check core.crypto core.publicKey p.key = some true) (rtt : Int64) :
    Authentic core (r.handleResponse p res rtt) := by
  have inserted : Authentic core { r with responses := r.responses.insert p.key res } := by
    refine ⟨authentic.infos, ?_, authentic.paths, authentic.effects⟩
    intro key res' found
    rw [Map.lookup_insert_eq] at found
    split at found
    · rename_i same
      cases found
      exact same ▸ good
    · exact authentic.responses found
  rw [Router.handleResponse]
  split
  · split
    · exact inserted.of_eq rfl rfl rfl rfl
    · exact inserted
  · split
    · exact authentic.of_eq rfl rfl rfl rfl
    · exact authentic

theorem handleBloom (authentic : Authentic core r) (b : Bloom) :
    Authentic core (r.handleBloom p b) := by
  rw [Router.handleBloom]
  split
  · exact authentic.of_eq rfl rfl rfl rfl
  · exact authentic

theorem timerFired (authentic : Authentic core r) (key : PublicKey) (timer : Nat) :
    Authentic core (r.timerFired core key timer) := by
  rw [Router.timerFired]
  split
  · split
    · exact authentic.of_eq rfl rfl rfl rfl
    · refine ⟨?_, authentic.responses, authentic.paths, authentic.effects⟩
      intro other info found
      rw [Map.lookup_erase_eq] at found
      split at found
      · cases found
      · exact authentic.infos found
  · exact authentic

/-! ## Paths -/

theorem recached (authentic : Authentic core r) (recached : Recached r r') : Authentic core r' := by
  rw [recached.rest]
  exact authentic.of_eq rfl rfl rfl rfl

theorem sendMulticast (authentic : Authentic core r) {lookup : PathLookup}
    {fromKey toKey : PublicKey}
    (sent : r.sendMulticast core (.pathLookup lookup) fromKey toKey = some r') :
    Authentic core r' := by
  refine invariant_of_foldlM sent authentic ?_
  rintro s ⟨k, pbi⟩ s' - kept stepped
  rw [sendMulticastTo] at stepped
  split at stepped
  · cases stepped
    exact kept
  · split at stepped
    · cases stepped
      exact kept
    · split at stepped
      · cases stepped
        exact kept
      · rw [Option.bind_eq_bind, Option.bind_eq_some_iff] at stepped
        obtain ⟨bestPeer, -, stepped⟩ := stepped
        cases stepped
        exact kept.send trivial

/-- A new path may be kept if it is signed. -/
theorem insertPath (authentic : Authentic core r) {key : PublicKey} {info : PathInfo}
    (signed : SignedPath core key info.seq info.path) :
    Authentic core { r with paths := r.paths.insert key info } := by
  refine ⟨authentic.infos, authentic.responses, ?_, authentic.effects⟩
  intro other info' found
  rw [Map.lookup_insert_eq] at found
  split at found
  · rename_i same
    cases found
    exact same ▸ signed
  · exact authentic.paths found

theorem forward (authentic : Authentic core r) {tr : Traffic} {info : PathInfo}
    (known : r.paths.lookup tr.dest = some info) : Authentic core (r.forward core tr info) := by
  have signed : SignedPath core tr.dest info.seq info.path := authentic.paths known
  have kept : Authentic core { r with paths := r.paths.insert tr.dest { info with
      traffic := some { tr with
        path := info.path, «from» := (r.getRootAndPath core.publicKey).2 } } } :=
    authentic.insertPath signed
  refine kept.append fun effect present => ?_
  rw [List.mem_singleton.mp present]
  trivial

end Authentic

/-- An accepted notification has passed its check, and only a rumor and a timer are different. -/
theorem acceptNotify_checked {notify : PathNotify} {info : PathInfo}
    (accepted : r.acceptNotify core now notify = some (info, r')) :
    notify.check core.crypto = true ∧
      r' = { r with rumors := r'.rumors, newTimer := r'.newTimer } := by
  rw [acceptNotify] at accepted
  split at accepted
  · split at accepted
    · cases accepted
    · split at accepted
      · cases accepted
      · split at accepted
        · cases accepted
        · rename_i passed
          cases accepted
          exact ⟨by simpa using passed, rfl⟩
  · split at accepted
    · split at accepted
      · cases accepted
      · rename_i passed
        dsimp only [startTimer] at accepted
        split at accepted
        · split at accepted
          · cases accepted
            exact ⟨by simpa using passed, rfl⟩
          · cases accepted
            exact ⟨by simpa using passed, rfl⟩
        · cases accepted
          exact ⟨by simpa using passed, rfl⟩
    · cases accepted

namespace Authentic

theorem receiveNotify (authentic : Authentic core r) {notify : PathNotify}
    (received : r.receiveNotify core now notify = some r') : Authentic core r' := by
  rw [Router.receiveNotify] at received
  split at received
  · cases received
    exact authentic
  · split at received
    · cases received
      exact authentic
    · rename_i info r₁ accepted
      obtain ⟨passed, rest⟩ := acceptNotify_checked accepted
      have kept : Authentic core r₁ := by
        rw [rest]
        exact authentic.of_eq rfl rfl rfl rfl
      have inserted : Authentic core { r₁ with
          paths := r₁.paths.insert notify.source
            { info with
              path := notify.info.path, seq := notify.info.seq, broken := false
              traffic := none } } :=
        kept.insertPath ⟨notify.info.sig, passed⟩
      have stored : Authentic core { r₁ with
          paths := r₁.paths.insert notify.source { info with
            path := notify.info.path, seq := notify.info.seq, broken := false, traffic := none }
          effects := r₁.effects ++ [.pathNotify notify.source] } := by
        refine inserted.append fun effect present => ?_
        rw [List.mem_singleton.mp present]
        trivial
      dsimp only at received
      split at received
      · cases received
        exact stored
      · split at received
        · rename_i known found
          cases received
          exact stored.forward found
        · cases received

theorem handleNotify (authentic : Authentic core r) {notify : PathNotify}
    (handled : r.handleNotify core now notify = some r') : Authentic core r' := by
  have kept := authentic.recached (r.lookup_recached core notify.path notify.watermark)
  rw [Router.handleNotify] at handled
  split at handled
  · rename_i found
    rw [found] at kept
    cases handled
    exact kept.send trivial
  · rename_i found
    rw [found] at kept
    exact kept.receiveNotify handled

theorem handleLookup (authentic : Authentic core r) {fromKey : PublicKey} {lookup : PathLookup}
    (handled : r.handleLookup core now fromKey lookup = some r') : Authentic core r' := by
  rw [Router.handleLookup, Option.bind_eq_bind, Option.bind_eq_some_iff] at handled
  obtain ⟨r₁, sent, handled⟩ := handled
  have kept := authentic.sendMulticast sent
  split at handled
  · have answered : Authentic core { r₁ with info := r₁.answer core now } :=
      kept.of_eq rfl rfl rfl rfl
    exact answered.handleNotify handled
  · cases handled
    exact kept

theorem sendLookup (authentic : Authentic core r) {dest : PublicKey}
    (sent : r.sendLookup core now dest = some r') : Authentic core r' := by
  rw [Router.sendLookup] at sent
  split at sent
  · split at sent
    · cases sent
      exact authentic
    · exact authentic.handleLookup sent
  · exact authentic.handleLookup sent

theorem rumorSendLookup (authentic : Authentic core r) {dest : PublicKey}
    (sent : r.rumorSendLookup core now dest = some r') : Authentic core r' := by
  rw [Router.rumorSendLookup] at sent
  dsimp only [startTimer] at sent
  split at sent
  · split at sent
    · cases sent
      exact authentic
    · refine sendLookup ?_ sent
      exact authentic.of_eq rfl rfl rfl rfl
  · refine sendLookup ?_ sent
    exact authentic.of_eq rfl rfl rfl rfl

theorem sendTraffic (authentic : Authentic core r) {tr : Traffic}
    (sent : r.sendTraffic core now tr = some r') : Authentic core r' := by
  rw [Router.sendTraffic] at sent
  split at sent
  · rename_i info found
    cases sent
    exact authentic.forward found
  · simp only [Option.bind_eq_bind, Option.bind_eq_some_iff] at sent
    obtain ⟨r₁, looked, rumor, -, sent⟩ := sent
    cases sent
    exact (authentic.rumorSendLookup looked).of_eq rfl rfl rfl rfl

theorem receiveBroken (authentic : Authentic core r) {broken : PathBroken}
    (received : r.receiveBroken core now broken = some r') : Authentic core r' := by
  rw [Router.receiveBroken] at received
  split at received
  · cases received
    exact authentic
  · split at received
    · rename_i info found
      have signed : SignedPath core broken.dest info.seq info.path := authentic.paths found
      have marked : Authentic core { r with
          paths := r.paths.insert broken.dest { info with broken := true } } :=
        authentic.insertPath signed
      exact marked.sendLookup received
    · cases received
      exact authentic

theorem handleBroken (authentic : Authentic core r) {broken : PathBroken}
    (handled : r.handleBroken core now broken = some r') : Authentic core r' := by
  have kept := authentic.recached (r.lookup_recached core broken.path broken.watermark)
  rw [Router.handleBroken] at handled
  split at handled
  · rename_i found
    rw [found] at kept
    cases handled
    exact kept.send trivial
  · rename_i found
    rw [found] at kept
    exact kept.receiveBroken handled

theorem handleTraffic (authentic : Authentic core r) {tr : Traffic}
    (handled : r.handleTraffic core now tr = some r') : Authentic core r' := by
  have kept := authentic.recached (r.lookup_recached core tr.path tr.watermark)
  rw [Router.handleTraffic] at handled
  split at handled
  · rename_i found
    rw [found] at kept
    cases handled
    exact kept.send trivial
  · rename_i found
    rw [found] at kept
    rw [receiveTraffic] at handled
    split at handled
    · cases handled
      refine kept.append fun effect present => ?_
      rw [List.mem_singleton.mp present]
      trivial
    · exact kept.handleBroken handled

theorem pathTimedOut (authentic : Authentic core r) (key : PublicKey) (timer : Nat) :
    Authentic core (r.pathTimedOut key timer) := by
  rw [Router.pathTimedOut]
  split
  · split
    · refine ⟨authentic.infos, authentic.responses, ?_, authentic.effects⟩
      intro other info found
      rw [Map.lookup_erase_eq] at found
      split at found
      · cases found
      · exact authentic.paths found
    · exact authentic
  · exact authentic

theorem rumorTimedOut (authentic : Authentic core r) (xform : PublicKey) (timer : Nat) :
    Authentic core (r.rumorTimedOut xform timer) := by
  rw [Router.rumorTimedOut]
  split
  · split
    · exact authentic.of_eq rfl rfl rfl rfl
    · exact authentic
  · exact authentic

/-! ## Runs -/

theorem receive (authentic : Authentic core r) (signs : core.Signs) {message : Message}
    {rtt : Int64} (received : r.receive core p now rtt message = some r') : Authentic core r' := by
  cases message with
  | dummy =>
      cases received
      exact authentic
  | keepAlive =>
      cases received
      exact authentic
  | sigReq req => exact authentic.handleRequest signs received
  | sigRes res =>
      rw [Router.receive] at received
      split at received
      · rename_i good
        cases received
        exact authentic.handleResponse good rtt
      · cases received
        exact authentic
  | announce ann =>
      rw [Router.receive] at received
      split at received
      · rename_i good
        exact authentic.handleAnnounce good received
      · cases received
        exact authentic
  | bloom b =>
      cases received
      exact authentic.handleBloom b
  | pathLookup lookup =>
      rw [Router.receive, handlePeerLookup] at received
      split at received
      · cases received
        exact authentic
      · exact authentic.handleLookup received
  | pathNotify notify => exact authentic.handleNotify received
  | pathBroken broken => exact authentic.handleBroken received
  | traffic tr => exact authentic.handleTraffic received

/-- Whatever the router does, everything stays authentic. -/
theorem step (authentic : Authentic core r) (tidy : Tidy r) (signs : core.Signs)
    {event : RouterEvent} (stepped : step core r event = some r') : Authentic core r' := by
  cases event with
  | doMaintenance => exact authentic.doMaintenance signs stepped
  | addPeer p => exact authentic.addPeer tidy stepped
  | removePeer p => exact authentic.removePeer stepped
  | receive p message now rtt => exact authentic.receive signs stepped
  | handleTraffic tr now => exact authentic.handleTraffic stepped
  | sendTraffic tr now => exact authentic.sendTraffic stepped
  | sendLookup dest now => exact authentic.rumorSendLookup stepped
  | timerFired key timer =>
      cases stepped
      exact authentic.timerFired key timer
  | pathTimedOut key timer =>
      cases stepped
      exact authentic.pathTimedOut key timer
  | rumorTimedOut xform timer =>
      cases stepped
      exact authentic.rumorTimedOut xform timer
  | reorder keys links =>
      cases stepped
      refine ⟨authentic.infos, fun found => ?_, authentic.paths, authentic.effects⟩
      rw [Router.reorder, Map.lookup_reorder] at found
      exact authentic.responses found

end Authentic

theorem init_authentic (core : Core) : Authentic core (init core) := by
  refine ⟨?_, ?_, ?_, ?_⟩
  · intro key info found
    simp [init] at found
  · intro key res found
    simp [init] at found
  · intro key info found
    simp [init] at found
  · intro effect present
    simp [init] at present

/-- Whatever messages come in, in any order: all responses that the router has sent pass the check
of their receivers, all announcements do as well unless they are its own and its parent gave it
port 0, and every path that it keeps was signed by the node to which the path leads. -/
theorem run_authentic (signs : core.Signs) {events : List RouterEvent}
    (started : (init core).doMaintenance core = some r)
    (allowed : Permits (Router.step core) (Permitted core) r events)
    (ended : run (Router.step core) r events = some r') :
    (∀ p res, .send p (.sigRes res) ∈ r'.effects →
        res.check core.crypto p.key core.publicKey = some true) ∧
      (∀ p ann, .send p (.announce ann) ∈ r'.effects → ann.check core.crypto = some true ∨
        ann.key = core.publicKey ∧ ann.parent ≠ core.publicKey ∧ ann.port = 0) ∧
      ∀ key info, r'.paths.lookup key = some info →
        ∃ sig, core.crypto.verify key
          (PathNotifyInfo.bytesForSig ⟨info.seq, info.path, sig⟩) sig = true := by
  obtain ⟨r₀, started₀, sane⟩ := init_sane signs
  obtain rfl : r₀ = r := Option.some.inj (started₀.symm.trans started)
  have initially : Sane core r₀ ∧ Authentic core r₀ :=
    ⟨sane, (init_authentic core).doMaintenance signs started⟩
  obtain ⟨r₁, ended₁, -, authentic⟩ := @Permits.exists_run Router RouterEvent (Router.step core)
    (Permitted core) (fun state => Sane core state ∧ Authentic core state) r₀ events allowed
    initially (by
      rintro state event ⟨saneNow, authentic⟩ permitted
      obtain ⟨target, stepped, sane'⟩ := saneNow.step signs permitted
      exact ⟨target, stepped, sane', authentic.step saneNow.toTidy signs stepped⟩)
  obtain rfl : r₁ = r' := Option.some.inj (ended₁.symm.trans ended)
  exact ⟨fun p res sent => authentic.effects _ sent, fun p ann sent => authentic.effects _ sent,
    fun key info found => authentic.paths found⟩

/-! ### Signatures that can fail -/

/-- A signature is the sum of the key's byte and the message. -/
def sumCrypto : Crypto where
  PrivateKey := UInt8
  sign byte message := Vector.replicate 64 (message.foldl (· + ·) byte)
  verify key message sig :=
    decide (sig = Vector.replicate 64 (message.foldl (· + ·) (key.toList.headD 0)))

/-- A node whose key repeats a byte. -/
def sumCore (byte : UInt8) : Core :=
  { plainCore (plainKey byte) with crypto := sumCrypto, privateKey := byte }

theorem sumCore_signs (byte : UInt8) : (sumCore byte).Signs := by
  intro message
  have head : (plainKey byte).toList.headD 0 = byte := rfl
  simp only [sumCore, sumCrypto, plainCore, head, decide_true]

/-- What a parent answers to a request of a node. -/
def sumResponse (seq : UInt64) (node parent : UInt8) (port : PeerPort) : RouterSigRes :=
  let res : RouterSigRes := ⟨⟨seq, 0⟩, port, Vector.replicate 64 0⟩
  { res with psig := sumCrypto.sign parent (res.signedBytes (plainKey node) (plainKey parent)) }

/-- The announcement of a node at this place. -/
def sumAnnounce (node parent : UInt8) (port : PeerPort) : RouterAnnounce :=
  let res := sumResponse 1 node parent port
  { toRouterSigRes := res, key := plainKey node, parent := plainKey parent
    sig := sumCrypto.sign node (res.signedBytes (plainKey node) (plainKey parent)) }

/-- A path to a node, signed by it. -/
def sumPath (node : UInt8) (path : List PeerPort) : PathNotifyInfo :=
  let info : PathNotifyInfo := ⟨1, path, Vector.replicate 64 0⟩
  { info with sig := sumCrypto.sign node info.bytesForSig }

/-- A link sends a request, a forged announcement of its own and a good one.  The router announces
itself, looks the node up, and is told its path twice, the first time by somebody else. -/
def signedTraffic : List RouterEvent :=
  [.addPeer ⟨plainKey 2, 1, 0, 0⟩,
    .receive ⟨plainKey 2, 1, 0, 0⟩ (.sigReq ⟨1, 0⟩) ⟨0, 0⟩ 0,
    .receive ⟨plainKey 2, 1, 0, 0⟩
      (.announce { sumAnnounce 2 2 0 with sig := Vector.replicate 64 0 }) ⟨0, 0⟩ 0,
    .receive ⟨plainKey 2, 1, 0, 0⟩ (.announce (sumAnnounce 2 2 0)) ⟨0, 0⟩ 0,
    .doMaintenance,
    .sendLookup (plainKey 2) ⟨0, 0⟩,
    .receive ⟨plainKey 2, 1, 0, 0⟩
      (.pathNotify ⟨[], allOnes, plainKey 2, plainKey 1, sumPath 3 [8]⟩) ⟨0, 0⟩ 0,
    .receive ⟨plainKey 2, 1, 0, 0⟩
      (.pathNotify ⟨[], allOnes, plainKey 2, plainKey 1, sumPath 2 [9]⟩) ⟨0, 0⟩ 0]

/-- What the router answers and announces, and the path that it keeps. -/
theorem run_authentic_signed :
    ∃ r r' : Router, (init (sumCore 1)).doMaintenance (sumCore 1) = some r ∧
      run (Router.step (sumCore 1)) r signedTraffic = some r' ∧
      .send ⟨plainKey 2, 1, 0, 0⟩ (.sigRes (sumResponse 1 2 1 1)) ∈ r'.effects ∧
      .send ⟨plainKey 2, 1, 0, 0⟩ (.announce (sumAnnounce 1 1 0)) ∈ r'.effects ∧
      (r'.infos.lookup (plainKey 2)).map (fun info => info.sig) = some (sumAnnounce 2 2 0).sig ∧
      (r'.paths.lookup (plainKey 2)).map (fun info => info.path) = some [9] ∧
      (∀ p res, .send p (.sigRes res) ∈ r'.effects →
        res.check (sumCore 1).crypto p.key (plainKey 1) = some true) ∧
      (∀ p ann, .send p (.announce ann) ∈ r'.effects →
        ann.check (sumCore 1).crypto = some true ∨
          ann.key = plainKey 1 ∧ ann.parent ≠ plainKey 1 ∧ ann.port = 0) ∧
      ∀ key info, r'.paths.lookup key = some info →
        ∃ sig, (sumCore 1).crypto.verify key
          (PathNotifyInfo.bytesForSig ⟨info.seq, info.path, sig⟩) sig = true := by
  have checked : ((init (sumCore 1)).doMaintenance (sumCore 1)).any (fun r =>
      decide (Permits (Router.step (sumCore 1)) (Permitted (sumCore 1)) r signedTraffic) &&
        (run (Router.step (sumCore 1)) r signedTraffic).any fun r' =>
          r'.effects.contains (.send ⟨plainKey 2, 1, 0, 0⟩ (.sigRes (sumResponse 1 2 1 1))) &&
          r'.effects.contains (.send ⟨plainKey 2, 1, 0, 0⟩ (.announce (sumAnnounce 1 1 0))) &&
          decide ((r'.infos.lookup (plainKey 2)).map (fun info => info.sig) =
            some (sumAnnounce 2 2 0).sig) &&
          decide ((r'.paths.lookup (plainKey 2)).map (fun info => info.path) =
            some [9])) = true := by
    decide +kernel
  obtain ⟨r, started, checked⟩ := (Option.any_eq_true _ _).mp checked
  rw [Bool.and_eq_true, decide_eq_true_eq] at checked
  obtain ⟨allowed, checked⟩ := checked
  obtain ⟨r', ended, checked⟩ := (Option.any_eq_true _ _).mp checked
  simp only [Bool.and_eq_true, List.contains_iff_mem, decide_eq_true_eq] at checked
  obtain ⟨⟨⟨response, announcement⟩, info⟩, path⟩ := checked
  exact ⟨r, r', started, ended, response, announcement, info, path,
    run_authentic (sumCore_signs 1) started allowed ended⟩

/-! ## Port 0 -/

/-- `_fix` uses the response of the chosen parent if it is newer than the router's own info. -/
theorem fix_adopts {res : RouterSigRes}
    (found : r.responses.lookup (r.choose core).parent = some res)
    (notRoot : (r.choose core).root ≠ core.publicKey)
    (moves : r.refresh ∨ r.doRoot1 ∨ r.doRoot2 ∨ r.selfParent core ≠ (r.choose core).parent)
    (newer : ∀ info, r.infos.lookup core.publicKey = some info → info.seq < res.seq) :
    ∃ ann : RouterAnnounce, r.fix core = some ((r.store ann).settle core) ∧
      ann.key = core.publicKey ∧ ann.parent = (r.choose core).parent ∧ ann.port = res.port := by
  refine ⟨{ toRouterSigRes := res, key := core.publicKey, parent := (r.choose core).parent
            sig := core.crypto.sign core.privateKey
              (res.signedBytes core.publicKey (r.choose core).parent) }, ?_, rfl, rfl, rfl⟩
  have adopted : r.adopt core (r.choose core) = some (r.store
      { toRouterSigRes := res, key := core.publicKey, parent := (r.choose core).parent
        sig := core.crypto.sign core.privateKey
          (res.signedBytes core.publicKey (r.choose core).parent) }) := by
    rw [adopt, if_pos notRoot, found]
    dsimp only
    rw [useResponse, RouterSigRes.bytesForSig_eq, Option.bind_eq_bind, Option.bind_some,
      Router.update]
    cases own : r.infos.lookup core.publicKey with
    | none =>
        rw [RouterInfo.getAnnounce, own]
    | some info =>
        have less := newer info own
        rw [RouterInfo.getAnnounce, own]
        dsimp only
        rw [replaces, if_neg (UInt64.lt_asymm less), if_pos less, if_pos rfl]
  rw [Router.fix, if_pos moves, adopted]

/-- One iteration of `_sendAnnounces` sends the unmarked infos of the ancestry over all links of the
peer. -/
theorem sendAnnouncesTo_sends {selfAnc marked : List PublicKey} {peer : PublicKey}
    (known : ∀ key ∈ selfAnc, key ∈ r.infos)
    (sent : r.sendAnnouncesTo selfAnc (peer, marked) = some r') :
    r'.infos = r.infos ∧ r'.peers = r.peers ∧ ∃ new, r'.effects = r.effects ++ new ∧
      ∀ key ∈ selfAnc, key ∉ marked → ∀ p ∈ r.links peer, ∀ info,
        r.infos.lookup key = some info → .send p (.announce (info.getAnnounce key)) ∈ new := by
  obtain ⟨anns, sent', result, all, right, new⟩ := @sendAnnouncesTo_spec r _ marked peer known
  rw [result] at sent
  cases sent
  rw [sendEach_eq]
  refine ⟨rfl, rfl, _, rfl, ?_⟩
  intro key higher unmarked p link info found
  rcases new key ((all key).mpr (.inr (.inl higher))) with before | ⟨ann, made, rfl⟩
  · exact absurd before unmarked
  · have same : ann.info = info := Option.some.inj ((right ann made).symm.trans found)
    refine List.mem_flatMap.mpr ⟨p, link, List.mem_map.mpr ?_⟩
    exact ⟨.announce ann, List.mem_map.mpr ⟨ann, made, rfl⟩, by rw [← same]; rfl⟩

/-- After `_sendAnnounces` each link of a peer has got the router's own info, unless it was
marked. -/
theorem sendAnnounces_sends {key : PublicKey} {info : RouterInfo} {marked : List PublicKey}
    (sent : r.sendAnnounces core = some r') (own : r.infos.lookup core.publicKey = some info)
    (listed : r.sent.lookup key = some marked) (unmarked : core.publicKey ∉ marked)
    (link : p ∈ r.links key) :
    ∃ new, r'.effects = r.effects ++ new ∧
      .send p (.announce (info.getAnnounce core.publicKey)) ∈ new := by
  have known : ∀ {s : Router}, s.infos = r.infos →
      ∀ above ∈ r.getAncestry core.publicKey, above ∈ s.infos := by
    intro s same above higher
    rw [same]
    exact mem_getAncestry_known higher
  have self : core.publicKey ∈ r.getAncestry core.publicKey := by
    obtain ⟨rest, walk⟩ := backwardsAncestry_cons (Map.mem_of_lookup own)
    rw [getAncestry, walk, List.mem_reverse]
    exact List.mem_cons_self
  obtain ⟨before, after, split⟩ := List.append_of_mem (Map.mem_toList.mpr listed)
  rw [Router.sendAnnounces, split, List.foldlM_append, Option.bind_eq_bind,
    Option.bind_eq_some_iff] at sent
  obtain ⟨r₁, first, sent⟩ := sent
  rw [List.foldlM_cons, Option.bind_eq_bind, Option.bind_eq_some_iff] at sent
  obtain ⟨r₂, here, later⟩ := sent
  -- what the other iterations send comes before and after
  have grows : ∀ {entries : List (PublicKey × List PublicKey)} {s s' : Router},
      entries.foldlM (sendAnnouncesTo (r.getAncestry core.publicKey)) s = some s' →
        s.infos = r.infos →
          s'.infos = r.infos ∧ s'.peers = s.peers ∧ s.effects <+: s'.effects := by
    intro entries s s' folded same
    refine @invariant_of_foldlM Router (PublicKey × List PublicKey) _
      (fun now => now.infos = r.infos ∧ now.peers = s.peers ∧ s.effects <+: now.effects) s s'
      entries folded ⟨same, rfl, List.prefix_rfl⟩ ?_
    rintro now ⟨peer, marked⟩ now' - ⟨infos, peers, more⟩ stepped
    obtain ⟨infos', peers', new, added, -⟩ := sendAnnouncesTo_sends (known infos) stepped
    exact ⟨infos'.trans infos, peers'.trans peers, more.trans ⟨new, added.symm⟩⟩
  obtain ⟨infos₁, peers₁, new₁, added₁⟩ := grows first rfl
  obtain ⟨infos₂, -, new₂, added₂, sends⟩ := sendAnnouncesTo_sends (known infos₁) here
  obtain ⟨-, -, new₃, added₃⟩ := grows later (infos₂.trans infos₁)
  refine ⟨new₁ ++ new₂ ++ new₃, ?_, ?_⟩
  · rw [← added₃, added₂, ← added₁]
    simp only [List.append_assoc]
  · refine List.mem_append_left _ (List.mem_append_right _ ?_)
    refine sends core.publicKey self unmarked p ?_ info (infos₁ ▸ own)
    rw [links, peers₁]
    exact link

/-- The filters are sent after what was sent before. -/
theorem fixOnTree_adds (fixed : r.fixOnTree core = some r') : r.effects <+: r'.effects := by
  rw [fixOnTree] at fixed
  split at fixed
  · rename_i selfInfo found
    cases fixed
    clear found
    generalize r.blooms.toList = entries
    induction entries generalizing r with
    | nil => exact List.prefix_rfl
    | cons entry entries ih =>
        rw [List.foldl_cons]
        refine List.IsPrefix.trans ?_ ih
        rw [fixOnTreeOne]
        dsimp only
        split
        · rw [sendEach_effects]
          exact List.prefix_append _ _
        · exact List.prefix_rfl
  · cases fixed

theorem sendAllBlooms_adds (sent : r.sendAllBlooms core = some r') : r.effects <+: r'.effects := by
  refine @invariant_of_foldlM Router (PublicKey × BloomInfo) _ (fun s => r.effects <+: s.effects)
    r r' _ sent List.prefix_rfl ?_
  rintro s ⟨k, pbi⟩ s' - before stepped
  rw [sendBloomTo] at stepped
  dsimp only at stepped
  split at stepped
  · cases stepped
    exact before
  · simp only [Option.bind_eq_bind, Option.bind_eq_some_iff] at stepped
    obtain ⟨⟨b, isNew, s₁⟩, got, pbi₁, -, stepped⟩ := stepped
    have same : s₁.effects = s.effects := by
      rw [getBloomFor, Option.bind_eq_bind, Option.bind_eq_some_iff] at got
      obtain ⟨pbi, -, got⟩ := got
      dsimp only at got
      split at got
      · cases got
        rfl
      · cases got
        rfl
    split at stepped
    · rw [Option.bind_eq_some_iff] at stepped
      obtain ⟨ps, -, stepped⟩ := stepped
      cases stepped
      rw [sendEach_effects, same]
      exact before.trans (List.prefix_append _ _)
    · cases stepped
      rw [same]
      exact before

theorem settle_eq (core : Core) (r : Router) :
    (r.settle core).infos = r.infos ∧ (r.settle core).sent = r.sent ∧
      (r.settle core).peers = r.peers ∧ r.effects <+: (r.settle core).effects := by
  obtain ⟨requests, responded, drawn, new, result, -⟩ :=
    sendReqs_spec core { r with refresh := false, doRoot1 := false, doRoot2 := false }
  rw [Router.settle, result]
  exact ⟨rfl, rfl, rfl, List.prefix_append _ _⟩

/-- A response that is expected and whose signature is good is accepted, whatever its port. -/
theorem receive_sigRes {res : RouterSigRes} {rtt : Int64}
    (good : res.check core.crypto core.publicKey p.key = some true)
    (asked : r.requests.lookup p.key = some res.toRouterSigReq) (first : p.key ∉ r.responses) :
    ∃ r', r.receive core p now rtt (.sigRes res) = some r' ∧
      r'.responses.lookup p.key = some res := by
  refine ⟨r.handleResponse p res rtt, if_pos good, ?_⟩
  have expected : (r.requests.lookup p.key).getD zeroReq = res.toRouterSigReq := by
    rw [asked]
    rfl
  rw [Router.handleResponse]
  split
  · split
    · exact AList.lookup_insert _
    · exact AList.lookup_insert _
  · rename_i unexpected
    exact absurd ⟨first, expected⟩ unexpected

/-- A response with port 0 is accepted like any other, although nobody accepts what is made of it.
If the parent that a router chooses has given such a response, newer than the router's own info,
and the router is to refresh its info or has another parent, then the next maintenance sends over
every link a new announcement of itself, with that parent and port 0, that fails the check of its
receiver. -/
theorem doMaintenance_zero_port (tidy : Tidy r) {res : RouterSigRes}
    (found : r.responses.lookup (r.choose core).parent = some res) (noPort : res.port = 0)
    (notRoot : (r.choose core).root ≠ core.publicKey)
    (notSelf : (r.choose core).parent ≠ core.publicKey)
    (moves : r.refresh ∨ r.selfParent core ≠ (r.choose core).parent)
    (newer : ∀ info, r.infos.lookup core.publicKey = some info → info.seq < res.seq)
    (done : r.doMaintenance core = some r') {key : PublicKey} (link : p ∈ r.links key) :
    (∀ (before : Router) (parent : PeerId) (now : Now) (rtt : Int64),
      res.check core.crypto core.publicKey parent.key = some true →
        before.requests.lookup parent.key = some res.toRouterSigReq →
          parent.key ∉ before.responses →
            ∃ after, before.receive core parent now rtt (.sigRes res) = some after ∧
              after.responses.lookup parent.key = some res) ∧
      ∃ new ann, r'.effects = r.effects ++ new ∧ .send p (.announce ann) ∈ new ∧
        ann.key = core.publicKey ∧ ann.parent = (r.choose core).parent ∧ ann.port = 0 ∧
          ann.check core.crypto = some false := by
  refine ⟨fun before parent now rtt => receive_sigRes, ?_⟩
  rw [Router.doMaintenance] at done
  simp only [Option.bind_eq_bind, Option.bind_eq_some_iff] at done
  obtain ⟨r₁, fixed, r₂, announced, r₃, onTree, sent⟩ := done
  -- neither the cache nor `doRoot2` has a say in the choice
  obtain ⟨ann, adopted, named, parent, port⟩ :=
    @fix_adopts core (resetCache { r with doRoot2 := r.doRoot2 || r.doRoot1 }) res found notRoot
      (moves.imp_right fun moves => .inr (.inr moves)) newer
  obtain rfl := Option.some.inj (adopted.symm.trans fixed)
  have refused : ann.check core.crypto = some false := by
    have place : ann.port = 0 ∧ ann.key ≠ ann.parent := by
      rw [port, named, parent]
      exact ⟨noPort, Ne.symm notSelf⟩
    rw [RouterAnnounce.check, if_pos place]
    rfl
  obtain ⟨infos, marks, peers, new₁, added₁⟩ := settle_eq core
    (Router.store (resetCache { r with doRoot2 := r.doRoot2 || r.doRoot1 }) ann)
  obtain ⟨ps, listed, -⟩ := mem_links.mp link
  obtain ⟨marked, before⟩ := Map.mem_iff.mp ((tidy.sentKeys key).mpr (Map.mem_of_lookup listed))
  -- the new info was sent to nobody
  obtain ⟨new₂, added₂, present⟩ := @sendAnnounces_sends core _ r₂ p key ann.info
    (marked.filter (· ≠ ann.key)) announced (by
      rw [infos, ← named]
      exact AList.lookup_insert _) (by
      rw [marks, Router.store, Map.lookup_mapValues]
      exact congrArg (Option.map _) before) (by
      rw [← named]
      intro present
      exact absurd rfl (of_decide_eq_true (List.mem_filter.mp present).2)) (by
      rw [links, peers]
      exact link)
  obtain ⟨new₃, added₃⟩ := (fixOnTree_adds onTree).trans (sendAllBlooms_adds sent)
  rw [← named] at present
  refine ⟨new₁ ++ new₂ ++ new₃, ann, ?_, List.mem_append_left _ (List.mem_append_right _ present),
    named, parent, port.trans noPort, refused⟩
  rw [← added₃, added₂, ← added₁]
  simp only [List.append_assoc]
  rfl

/-! ### A parent with port 0 -/

/-- The first node announces itself as the root and answers the second with port 0. -/
def unportedTraffic : List RouterEvent :=
  [.addPeer ⟨plainKey 1, 1, 0, 0⟩,
    .receive ⟨plainKey 1, 1, 0, 0⟩ (.announce (sumAnnounce 1 1 0)) ⟨0, 0⟩ 0,
    .receive ⟨plainKey 1, 1, 0, 0⟩ (.sigRes (sumResponse 2 2 1 0)) ⟨0, 0⟩ 0]

/-- What the second node makes of it: it will use the response. -/
def unported (r : Router) : Bool :=
  decide ((r.choose (sumCore 2)).parent = plainKey 1) &&
    decide ((r.choose (sumCore 2)).root = plainKey 1) &&
    decide (r.selfParent (sumCore 2) = plainKey 2) &&
    decide (r.responses.lookup (plainKey 1) = some (sumResponse 2 2 1 0)) &&
    (r.infos.lookup (plainKey 2)).all (fun info => info.seq < 2) &&
    (r.links (plainKey 1)).contains ⟨plainKey 1, 1, 0, 0⟩

theorem doMaintenance_zero_port_reached :
    ∃ r₀ r r', (init (sumCore 2)).doMaintenance (sumCore 2) = some r₀ ∧
      run (Router.step (sumCore 2)) r₀ unportedTraffic = some r ∧
      r.doMaintenance (sumCore 2) = some r' ∧
      ∃ new ann, r'.effects = r.effects ++ new ∧
        .send ⟨plainKey 1, 1, 0, 0⟩ (.announce ann) ∈ new ∧
        ann.key = plainKey 2 ∧ ann.parent = plainKey 1 ∧ ann.port = 0 ∧
          ann.check (sumCore 2).crypto = some false := by
  have checked : ((init (sumCore 2)).doMaintenance (sumCore 2)).any (fun r =>
      decide (Permits (Router.step (sumCore 2)) (Permitted (sumCore 2)) r unportedTraffic) &&
        (run (Router.step (sumCore 2)) r unportedTraffic).any unported) = true := by
    decide +kernel
  obtain ⟨r₀, started, checked⟩ := (Option.any_eq_true _ _).mp checked
  rw [Bool.and_eq_true, decide_eq_true_eq] at checked
  obtain ⟨allowed, checked⟩ := checked
  obtain ⟨r, ended, checked⟩ := (Option.any_eq_true _ _).mp checked
  simp only [unported, Bool.and_eq_true, List.contains_iff_mem, decide_eq_true_eq] at checked
  obtain ⟨⟨⟨⟨⟨parent, root⟩, self⟩, response⟩, seq⟩, link⟩ := checked
  have older : ∀ {info}, r.infos.lookup (plainKey 2) = some info → info.seq < 2 := by
    intro info found
    rw [found] at seq
    exact of_decide_eq_true seq
  have sane := sane_of_run (sumCore_signs 2) started allowed ended
  obtain ⟨r', done, -⟩ := sane.toTidy.doMaintenance (sumCore_signs 2) (.inl sane.own)
    fun info found last => by
      have less := older found
      rw [last] at less
      exact absurd less (by decide)
  obtain ⟨-, new, ann, added, sent, named, under, port, refused⟩ :=
    @doMaintenance_zero_port (sumCore 2) r r' ⟨plainKey 1, 1, 0, 0⟩ sane.toTidy
      (sumResponse 2 2 1 0) (by rw [parent]; exact response) rfl
      (by rw [root]; decide) (by rw [parent]; decide) (.inr (by rw [self, parent]; decide))
      (fun info found => older found) done (plainKey 1) link
  exact ⟨r₀, r, r', started, ended, done, new, ann, added, sent, named, under.trans parent, port,
    refused⟩

end Router

end Uqda.Network
