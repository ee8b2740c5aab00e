import Uqda.Network.RouterRuns
import Uqda.Network.Settled

/-!
# No announcement is lost

Routers tell each other about the tree only once: what is marked in `sent` for a peer is not sent
to it again.  Across all interleavings of the routers of a network a mark stands for something:
the peer knows an info that is not worse, or one is on its way.  This is the reasoning that the
comment in `_sendAnnounces` of `third_party/ironwood/network/router.go` calls implicit.
-/

namespace Uqda.Network

open Uqda.Store Uqda.Graph Uqda.Transition

/-! ## Which info is better -/

/-- The order of `_update`: later sequence number, then lower parent, then lower nonce.  The first
info is as good as the other or better. -/
def AtLeast (info other : RouterInfo) : Prop :=
  other.seq < info.seq ∨ other.seq = info.seq ∧
    (less info.parent other.parent = true ∨ info.parent = other.parent ∧ info.nonce ≤ other.nonce)

namespace AtLeast

theorem refl (info : RouterInfo) : AtLeast info info :=
  .inr ⟨rfl, .inr ⟨rfl, UInt64.le_refl _⟩⟩

theorem trans {first second third : RouterInfo} (better : AtLeast first second)
    (best : AtLeast second third) : AtLeast first third := by
  rcases better with later | ⟨sameSeq, better⟩
  · rcases best with later' | ⟨sameSeq', -⟩
    · exact .inl (UInt64.lt_trans later' later)
    · exact .inl (sameSeq' ▸ later)
  · rcases best with later' | ⟨sameSeq', best⟩
    · exact .inl (sameSeq ▸ later')
    · refine .inr ⟨sameSeq'.trans sameSeq, ?_⟩
      rcases better with lower | ⟨sameParent, nonce⟩
      · rcases best with lower' | ⟨sameParent', -⟩
        · exact .inl (less_trans lower lower')
        · exact .inl (sameParent' ▸ lower)
      · rcases best with lower' | ⟨sameParent', nonce'⟩
        · exact .inl (sameParent ▸ lower')
        · exact .inr ⟨sameParent.trans sameParent', UInt64.le_trans nonce nonce'⟩

end AtLeast

namespace Router

theorem atLeast_of_replaces {info : RouterInfo} {ann : RouterAnnounce}
    (better : replaces info ann = true) : AtLeast ann.info info := by
  rw [replaces] at better
  split at better
  · cases better
  · rename_i notLater
    split at better
    · rename_i later
      exact .inl later
    · rename_i notEarlier
      have sameSeq : info.seq = ann.seq :=
        UInt64.le_antisymm (UInt64.not_lt.mp notLater) (UInt64.not_lt.mp notEarlier)
      refine .inr ⟨sameSeq, ?_⟩
      split at better
      · cases better
      · rename_i notLower
        split at better
        · rename_i lower
          exact .inl lower
        · rename_i notHigher
          rw [Bool.not_eq_true] at notLower notHigher
          exact .inr ⟨eq_of_not_less notHigher notLower,
            UInt64.le_of_lt (of_decide_eq_true better)⟩

theorem atLeast_of_not_replaces {info : RouterInfo} {ann : RouterAnnounce}
    (notBetter : replaces info ann = false) : AtLeast info ann.info := by
  rw [replaces] at notBetter
  split at notBetter
  · rename_i later
    exact .inl later
  · rename_i notLater
    split at notBetter
    · cases notBetter
    · rename_i notEarlier
      have sameSeq : ann.seq = info.seq :=
        UInt64.le_antisymm (UInt64.not_lt.mp notEarlier) (UInt64.not_lt.mp notLater)
      refine .inr ⟨sameSeq, ?_⟩
      split at notBetter
      · rename_i lower
        exact .inl lower
      · rename_i notLower
        split at notBetter
        · cases notBetter
        · rename_i notHigher
          rw [Bool.not_eq_true] at notLower notHigher
          exact .inr ⟨eq_of_not_less notLower notHigher,
            UInt64.not_lt.mp (of_decide_eq_false notBetter)⟩

end Router

/-! ## Steps of one router -/

/-- The effect is an announcement on its way to a peer. -/
def Effect.announces : Effect → Bool
  | .send _ (.announce _) => true
  | _ => false

theorem Effect.announces_of_routing {effect : Effect} (routed : effect.routing = true) :
    effect.announces = false := by
  cases effect with
  | send p message =>
      cases message with
      | announce ann => cases routed
      | _ => rfl
  | _ => rfl

namespace Router

/-- A step that has nothing to do with announcements. -/
structure Quiet (r r' : Router) : Prop where
  infos : r'.infos = r.infos
  sent : r'.sent = r.sent
  effects : ∃ new, r'.effects = r.effects ++ new ∧ ∀ effect ∈ new, effect.announces = false

namespace Quiet

variable {core : Core} {r r' r'' : Router} {p : PeerId}

theorem of_eq (infos : r'.infos = r.infos) (sent : r'.sent = r.sent)
    (effects : r'.effects = r.effects) : Quiet r r' :=
  ⟨infos, sent, [], by rw [effects, List.append_nil],
    fun _ absent => absurd absent List.not_mem_nil⟩

theorem refl (r : Router) : Quiet r r := of_eq rfl rfl rfl

theorem trans (first : Quiet r r') (second : Quiet r' r'') : Quiet r r'' := by
  refine ⟨second.infos.trans first.infos, second.sent.trans first.sent, ?_⟩
  obtain ⟨new, added, all⟩ := first.effects
  obtain ⟨new', added', all'⟩ := second.effects
  refine ⟨new ++ new', by rw [added', added, List.append_assoc], fun effect present => ?_⟩
  exact (List.mem_append.mp present).elim (all effect) (all' effect)

theorem of_aside (aside : Aside Effect.routing r r') : Quiet r r' := by
  obtain ⟨new, added, all⟩ := aside.effects
  refine ⟨by rw [aside.rest], by rw [aside.rest], new, added, fun effect present => ?_⟩
  exact Effect.announces_of_routing (all effect present)

theorem sendEach (r : Router) (ps : List PeerId) {message : Message}
    (other : ∀ p, (Effect.send p message).announces = false) :
    Quiet r (r.sendEach ps [message]) := by
  rw [sendEach_eq]
  refine ⟨rfl, rfl, _, rfl, fun effect present => ?_⟩
  obtain ⟨p, -, present⟩ := List.mem_flatMap.mp present
  rw [List.mem_singleton.mp present]
  exact other p

theorem settle (core : Core) (r : Router) : Quiet r (r.settle core) := by
  obtain ⟨requests, responded, drawn, new, result, kinds⟩ :=
    sendReqs_spec core { r with refresh := false, doRoot1 := false, doRoot2 := false }
  rw [Router.settle, result]
  refine ⟨rfl, rfl, new, rfl, fun effect present => ?_⟩
  obtain ⟨q, req, rfl⟩ := kinds effect present
  rfl

theorem fixOnTree (fixed : r.fixOnTree core = some r') : Quiet r r' := by
  rw [Router.fixOnTree] at fixed
  split at fixed
  · rename_i selfInfo found
    cases fixed
    clear found
    generalize r.blooms.toList = entries
    induction entries generalizing r with
    | nil => exact refl r
    | cons entry entries ih =>
        rw [List.foldl_cons]
        refine trans ?_ ih
        rw [fixOnTreeOne]
        dsimp only
        split
        · exact (sendEach r _ fun _ => rfl).trans (of_eq rfl rfl rfl)
        · exact of_eq rfl rfl rfl
  · cases fixed

theorem getBloomFor {key : PublicKey} {keepOnes isNew : Bool} {b : Bloom}
    (got : r.getBloomFor core key keepOnes = some (b, isNew, r')) : Quiet r r' := by
  rw [Router.getBloomFor, Option.bind_eq_bind, Option.bind_eq_some_iff] at got
  obtain ⟨pbi, -, got⟩ := got
  dsimp only at got
  split at got
  · cases got
    exact refl r
  · cases got
    exact of_eq rfl rfl rfl

theorem sendAllBlooms (sent : r.sendAllBlooms core = some r') : Quiet r r' := by
  refine @invariant_of_foldlM Router (PublicKey × BloomInfo) _ (Quiet r) r r' _ sent (refl r) ?_
  rintro s ⟨k, pbi⟩ s' - quiet stepped
  refine quiet.trans ?_
  rw [sendBloomTo] at stepped
  dsimp only at stepped
  split at stepped
  · cases stepped
    exact refl s
  · simp only [Option.bind_eq_bind, Option.bind_eq_some_iff] at stepped
    obtain ⟨⟨b, isNew, s₁⟩, got, pbi₁, -, stepped⟩ := stepped
    refine (getBloomFor got).trans ?_
    split at stepped
    · rw [Option.bind_eq_some_iff] at stepped
      obtain ⟨ps, -, stepped⟩ := stepped
      cases stepped
      exact (sendEach s₁ _ fun _ => rfl).trans (of_eq rfl rfl rfl)
    · cases stepped
      exact of_eq rfl rfl rfl

theorem handleRequest {req : RouterSigReq} (handled : r.handleRequest core p req = some r') :
    Quiet r r' := by
  rw [Router.handleRequest, RouterSigRes.bytesForSig_eq] at handled
  cases handled
  refine ⟨rfl, rfl, _, rfl, fun effect present => ?_⟩
  rw [List.mem_singleton.mp present]
  rfl

theorem handleResponse (r : Router) (p : PeerId) (res : RouterSigRes) (rtt : Int64) :
    Quiet r (r.handleResponse p res rtt) := by
  rw [Router.handleResponse]
  split
  · split
    · exact of_eq rfl rfl rfl
    · exact of_eq rfl rfl rfl
  · split
    · exact of_eq rfl rfl rfl
    · exact refl r

theorem handleBloom (r : Router) (p : PeerId) (b : Bloom) : Quiet r (r.handleBloom p b) := by
  rw [Router.handleBloom]
  split
  · exact of_eq rfl rfl rfl
  · exact refl r

/-- Messages other than announcements. -/
theorem receive {message : Message} {now : Now} {rtt : Int64}
    (received : r.receive core p now rtt message = some r')
    (other : ∀ ann, message ≠ .announce ann) : Quiet r r' := by
  cases message with
  | dummy =>
      cases received
      exact refl r
  | keepAlive =>
      cases received
      exact refl r
  | sigReq req => exact handleRequest received
  | sigRes res =>
      rw [Router.receive] at received
      split at received
      · cases received
        exact handleResponse r p res rtt
      · cases received
        exact refl r
  | announce ann => exact absurd rfl (other ann)
  | bloom b =>
      cases received
      exact handleBloom r p b
  | pathLookup lookup =>
      rw [Router.receive, handlePeerLookup] at received
      split at received
      · cases received
        exact refl r
      · exact of_aside ((handleLookup_aside received).mono fun _ answers =>
          Effect.routing_of_breaking (Effect.breaking_of_answering answers))
  | pathNotify notify =>
      exact of_aside ((handleNotify_aside received).mono fun _ answers =>
        Effect.routing_of_breaking (Effect.breaking_of_answering answers))
  | pathBroken broken =>
      exact of_aside ((handleBroken_aside received).mono fun _ => Effect.routing_of_breaking)
  | traffic tr => exact of_aside (handleTraffic_aside received)

end Quiet

/-- The infos only get better, what is on its way stays on its way, and what is announced is not
better than what is known. -/
structure Spreads (r r' : Router) : Prop where
  grows : ∀ {key info}, r.infos.lookup key = some info →
    ∃ info', r'.infos.lookup key = some info' ∧ AtLeast info' info
  kept : ∀ effect ∈ r.effects, effect ∈ r'.effects
  known : ∀ {p ann}, .send p (.announce ann) ∈ r'.effects →
    .send p (.announce ann) ∈ r.effects ∨
      ∃ info, r'.infos.lookup ann.key = some info ∧ AtLeast info ann.info

/-- A key is marked for a peer as before, or its info has been sent to the peer. -/
def Marks (r r' : Router) (peer key : PublicKey) : Prop :=
  (key ∈ r.sentTo peer ∧ r'.infos.lookup key = r.infos.lookup key) ∨
    ∃ p ann info, r'.infos.lookup key = some info ∧ p.key = peer ∧ ann.key = key ∧
      .send p (.announce ann) ∈ r'.effects ∧ AtLeast ann.info info

/-- What a router does on its own: what it marks as sent it has sent. -/
structure Gossips (r r' : Router) : Prop extends Spreads r r' where
  marks : ∀ {peer key}, key ∈ r'.sentTo peer → Marks r r' peer key

/-- What a router does with an announcement: it knows as good an info afterwards, and it marks the
key for the sender. -/
structure Hears (p : PeerId) (ann : RouterAnnounce) (r r' : Router) : Prop
    extends Spreads r r' where
  learnt : ∃ info, r'.infos.lookup ann.key = some info ∧ AtLeast info ann.info
  marks : ∀ {peer key}, key ∈ r'.sentTo peer → Marks r r' peer key ∨
    peer = p.key ∧ key = ann.key ∧ r'.infos.lookup key = some ann.info

namespace Gossips

variable {core : Core} {r r' r'' : Router} {p : PeerId}

theorem of_quiet (quiet : Quiet r r') : Gossips r r' := by
  obtain ⟨new, added, all⟩ := quiet.effects
  refine ⟨⟨?_, ?_, ?_⟩, ?_⟩
  · intro key info found
    rw [quiet.infos]
    exact ⟨info, found, .refl info⟩
  · intro effect present
    rw [added]
    exact List.mem_append_left _ present
  · intro p ann present
    rw [added] at present
    rcases List.mem_append.mp present with before | later
    · exact .inl before
    · cases all _ later
  · intro peer key marked
    rw [sentTo, quiet.sent] at marked
    exact .inl ⟨marked, by rw [quiet.infos]⟩

theorem refl (r : Router) : Gossips r r := of_quiet (.refl r)

theorem trans (first : Gossips r r') (second : Gossips r' r'') : Gossips r r'' := by
  refine ⟨⟨?_, fun effect present => second.kept effect (first.kept effect present), ?_⟩, ?_⟩
  · intro key info found
    obtain ⟨info', found', better⟩ := first.grows found
    obtain ⟨info'', found'', better'⟩ := second.grows found'
    exact ⟨info'', found'', better'.trans better⟩
  · intro p ann present
    rcases second.known present with before | new
    · rcases first.known before with before | ⟨info, found, better⟩
      · exact .inl before
      · obtain ⟨info', found', better'⟩ := second.grows found
        exact .inr ⟨info', found', better'.trans better⟩
    · exact .inr new
  · intro peer key marked
    rcases second.marks marked with ⟨before, same⟩ | new
    · rcases first.marks before with
        ⟨before, same'⟩ | ⟨p, ann, info, found, link, named, sent, good⟩
      · exact .inl ⟨before, same.trans same'⟩
      · exact .inr ⟨p, ann, info, same.trans found, link, named, second.kept _ sent, good⟩
    · exact .inr new

/-- An info that is replaced is not marked any more. -/
theorem update {ann : RouterAnnounce} (updated : r.update ann = some r') : Gossips r r' := by
  have better : ∀ {info}, r.infos.lookup ann.key = some info → AtLeast ann.info info := by
    intro info found
    rw [Router.update, found] at updated
    dsimp only at updated
    split at updated
    · rename_i replaced
      exact atLeast_of_replaces replaced
    · cases updated
  rw [eq_store_of_update updated]
  refine ⟨⟨?_, fun _ present => present, fun present => .inl present⟩, ?_⟩
  · intro key info found
    rw [Router.store, Map.lookup_insert_eq]
    split
    · rename_i same
      exact ⟨ann.info, rfl, better (same ▸ found)⟩
    · exact ⟨info, found, .refl info⟩
  · intro peer key marked
    obtain ⟨sent, found, marked⟩ := mem_sentTo.mp marked
    rw [Router.store, Map.lookup_mapValues] at found
    obtain ⟨old, before, rfl⟩ := Option.map_eq_some_iff.mp found
    obtain ⟨marked, other⟩ := List.mem_filter.mp marked
    refine .inl ⟨mem_sentTo.mpr ⟨old, before, marked⟩, ?_⟩
    rw [Router.store, Map.lookup_insert_eq, if_neg (of_decide_eq_true other)]

theorem fix (fixed : r.fix core = some r') : Gossips r r' := by
  rw [Router.fix] at fixed
  split at fixed
  · split at fixed
    · rename_i r₁ adopted
      cases fixed
      rw [adopt] at adopted
      split at adopted
      · split at adopted
        · rw [useResponse, RouterSigRes.bytesForSig_eq, Option.bind_eq_bind, Option.bind_some]
            at adopted
          exact (update adopted).trans (of_quiet (.settle core r₁))
        · cases adopted
      · cases adopted
    · split at fixed
      · split at fixed
        · rename_i r₁ rooted
          cases fixed
          rw [becomeRoot] at rooted
          simp only [Option.bind_eq_bind, Option.bind_eq_some_iff] at rooted
          obtain ⟨ann, -, good, -, rooted⟩ := rooted
          split at rooted
          · cases rooted
          · have drawn : Quiet r (r.newReq core).2 := .of_eq rfl rfl rfl
            exact ((of_quiet drawn).trans (update rooted)).trans (of_quiet (.settle core r₁))
        · cases fixed
      · split at fixed
        · cases fixed
          exact of_quiet (.of_eq rfl rfl rfl)
        · cases fixed
          exact refl r
  · cases fixed
    exact refl r

/-- What `_sendAnnounces` newly marks for a peer goes out over a link to it. -/
theorem sendAnnounces (tidy : Tidy r) (sent : r.sendAnnounces core = some r') : Gossips r r' := by
  refine (@invariant_of_foldlM Router (PublicKey × List PublicKey) _
    (fun s => Gossips r s ∧ s.infos = r.infos ∧ s.peers = r.peers) r r' r.sent.toList sent
    ⟨refl r, rfl, rfl⟩ ?_).1
  rintro s ⟨peer, marked⟩ s' entry ⟨gossips, infos, peers⟩ stepped
  have listed := Map.mem_toList.mp entry
  have known : ∀ key ∈ r.getAncestry core.publicKey, key ∈ s.infos := by
    intro key higher
    rw [infos]
    exact mem_getAncestry_known higher
  obtain ⟨anns, sent', result, -, right, new⟩ := @sendAnnouncesTo_spec s _ marked peer known
  rw [result] at stepped
  cases stepped
  rw [sendEach_eq]
  obtain ⟨ps, links⟩ := Map.mem_iff.mp ((tidy.sentKeys peer).mp (Map.mem_of_lookup listed))
  obtain ⟨nonempty, keyed⟩ := tidy.links links
  obtain ⟨link, others, rfl⟩ := List.exists_cons_of_ne_nil nonempty
  have here : s.links peer = link :: others := by
    rw [Router.links, peers, links]
    rfl
  refine ⟨⟨⟨gossips.grows, ?_, ?_⟩, ?_⟩, infos, peers⟩
  · exact fun effect present => List.mem_append_left _ (gossips.kept effect present)
  · intro p ann present
    rcases List.mem_append.mp present with before | later
    · exact gossips.known before
    · obtain ⟨q, -, present⟩ := List.mem_flatMap.mp later
      obtain ⟨message, among, same⟩ := List.mem_map.mp present
      obtain ⟨ann', made, rfl⟩ := List.mem_map.mp among
      cases same
      exact .inr ⟨ann.info, right ann made, .refl _⟩
  · intro other key present
    obtain ⟨now, found, present⟩ := mem_sentTo.mp present
    rw [Map.lookup_insert_eq] at found
    split at found
    · rename_i same
      cases found
      rcases new key present with before | ⟨ann, made, named⟩
      · exact .inl ⟨mem_sentTo.mpr ⟨marked, same ▸ listed, before⟩, by rw [infos]⟩
      · refine .inr ⟨link, ann, ann.info, named ▸ right ann made, ?_, named, ?_, .refl _⟩
        · rw [same]
          exact keyed link List.mem_cons_self
        · refine List.mem_append_right _ (List.mem_flatMap.mpr ⟨link, ?_, ?_⟩)
          · rw [here]
            exact List.mem_cons_self
          · exact List.mem_map.mpr ⟨_, List.mem_map.mpr ⟨ann, made, rfl⟩, rfl⟩
    · rcases gossips.marks (mem_sentTo.mpr ⟨now, found, present⟩) with before |
          ⟨p, ann, info, found, link, named, sent, good⟩
      · exact .inl before
      · exact .inr ⟨p, ann, info, found, link, named, List.mem_append_left _ sent, good⟩

theorem doMaintenance (tidy : Tidy r) (signs : core.Signs)
    (started : core.publicKey ∈ r.infos ∨ r.doRoot2 = true)
    (room : ∀ info, r.infos.lookup core.publicKey = some info → info.seq ≠ allOnes)
    (done : r.doMaintenance core = some r') : Gossips r r' := by
  rw [Router.doMaintenance] at done
  simp only [Option.bind_eq_bind, Option.bind_eq_some_iff] at done
  obtain ⟨r₁, fixed, r₂, announced, r₃, onTree, sent⟩ := done
  have reset : Tidy (resetCache { r with doRoot2 := r.doRoot2 || r.doRoot1 }) :=
    Tidy.uncached (tidy.of_eq rfl)
  obtain ⟨r₁', fixed', sane⟩ := reset.fix signs
    (started.imp_right fun root => by rw [resetCache, root, Bool.true_or]) room
  obtain rfl : r₁' = r₁ := Option.some.inj (fixed'.symm.trans fixed)
  have start : Quiet r (resetCache { r with doRoot2 := r.doRoot2 || r.doRoot1 }) :=
    .of_eq rfl rfl rfl
  exact (of_quiet start).trans ((fix fixed).trans ((sendAnnounces sane.toTidy announced).trans
    (of_quiet ((Quiet.fixOnTree onTree).trans (.sendAllBlooms sent)))))

theorem addPeer (tidy : Tidy r) (added : r.addPeer core p = some r') : Gossips r r' := by
  obtain ⟨r₁, new, added', rest, -, greetings, -⟩ := addPeer_spec core tidy p
  obtain rfl : r₁ = r' := Option.some.inj (added'.symm.trans added)
  rw [rest]
  refine ⟨⟨fun found => ⟨_, found, .refl _⟩, fun effect => List.mem_append_left _, ?_⟩, ?_⟩
  · intro q ann present
    rcases List.mem_append.mp present with before | later
    · exact .inl before
    · rcases greetings _ later with ⟨ann', same, found⟩ | ⟨req, same⟩ | ⟨b, same⟩
      · cases same
        exact .inr ⟨ann.info, found, .refl _⟩
      · cases same
      · cases same
  · intro peer key marked
    refine .inl ⟨?_, rfl⟩
    obtain ⟨sent, found, marked⟩ := mem_sentTo.mp marked
    dsimp only at found
    split at found
    · exact mem_sentTo.mpr ⟨sent, found, marked⟩
    · rw [Map.lookup_insert_eq] at found
      split at found
      · cases found
        cases marked
      · exact mem_sentTo.mpr ⟨sent, found, marked⟩

end Gossips

variable {core : Core} {r r' : Router} {p : PeerId}

/-- Marking adds the one mark. -/
theorem markSent_spec {peerKey key : PublicKey} (marked : r.markSent peerKey key = some r') :
    r'.infos = r.infos ∧ r'.effects = r.effects ∧ ∀ {peer other}, other ∈ r'.sentTo peer →
      other ∈ r.sentTo peer ∨ peer = peerKey ∧ other = key := by
  rw [markSent] at marked
  split at marked
  · rename_i sent found
    cases marked
    refine ⟨rfl, rfl, fun {peer other} present => ?_⟩
    obtain ⟨now, listed, present⟩ := mem_sentTo.mp present
    rw [Map.lookup_insert_eq] at listed
    split at listed
    · rename_i same
      cases listed
      rcases List.mem_insert_iff.mp present with rfl | before
      · exact .inr ⟨same, rfl⟩
      · exact .inl (mem_sentTo.mpr ⟨sent, same ▸ found, before⟩)
    · exact .inl (mem_sentTo.mpr ⟨now, listed, present⟩)
  · cases marked

/-- The announced info is stored, and the sender is marked as knowing it. -/
theorem hears_of_stored {ann : RouterAnnounce} {r₁ : Router} (gossips : Gossips r r₁)
    (found : r₁.infos.lookup ann.key = some ann.info)
    (marked : r₁.markSent p.key ann.key = some r') : Hears p ann r r' := by
  obtain ⟨infos, effects, marks⟩ := markSent_spec marked
  refine ⟨⟨?_, ?_, ?_⟩, ⟨ann.info, infos ▸ found, .refl _⟩, ?_⟩
  · rw [infos]
    exact gossips.grows
  · rw [effects]
    exact gossips.kept
  · rw [infos, effects]
    exact gossips.known
  · intro peer key present
    rcases marks present with before | ⟨samePeer, sameKey⟩
    · refine .inl ?_
      rw [Marks, infos, effects]
      exact gossips.marks before
    · exact .inr ⟨samePeer, sameKey, by rw [infos, sameKey, found]⟩

/-- The router knows better, and the sender gets the better info. -/
theorem hears_of_worse {ann : RouterAnnounce} {oldInfo : RouterInfo} {r₁ : Router}
    (found : r.infos.lookup ann.key = some oldInfo) (better : AtLeast oldInfo ann.info)
    (marked : r.markSent p.key ann.key = some r₁) :
    Hears p ann r (r₁.send p (.announce (oldInfo.getAnnounce ann.key))) := by
  obtain ⟨infos, effects, marks⟩ := markSent_spec marked
  refine ⟨⟨?_, ?_, ?_⟩, ⟨oldInfo, infos ▸ found, better⟩, ?_⟩
  · intro key info found
    exact ⟨info, infos ▸ found, .refl info⟩
  · intro effect present
    exact List.mem_append_left _ (effects ▸ present)
  · intro q ann' present
    rcases List.mem_append.mp present with before | later
    · exact .inl (effects ▸ before)
    · cases List.mem_singleton.mp later
      exact .inr ⟨oldInfo, infos ▸ found, .refl _⟩
  · intro peer key present
    rcases marks present with before | ⟨samePeer, sameKey⟩
    · exact .inl (.inl ⟨before, by rw [← infos]; rfl⟩)
    · refine .inl (.inr ⟨p, oldInfo.getAnnounce ann.key, oldInfo, ?_, samePeer.symm,
        sameKey.symm, List.mem_append_right _ (List.mem_singleton_self _), .refl _⟩)
      rw [sameKey]
      exact infos ▸ found

theorem handleAnnounce_hears {ann : RouterAnnounce}
    (handled : r.handleAnnounce core p ann = some r') : Hears p ann r r' := by
  rw [handleAnnounce] at handled
  split at handled
  · rename_i r₁ updated
    have stored := eq_store_of_update updated
    refine hears_of_stored ((Gossips.update updated).trans (.of_quiet ?_)) ?_ handled
    · split
      · exact .of_eq rfl rfl rfl
      · exact .refl r₁
    · rw [stored]
      split
      · exact AList.lookup_insert _
      · exact AList.lookup_insert _
  · rename_i refused
    rw [Option.bind_eq_bind, Option.bind_eq_some_iff] at handled
    obtain ⟨oldInfo, found, handled⟩ := handled
    rw [Option.bind_eq_bind, Option.bind_eq_some_iff] at handled
    obtain ⟨r₁, marked, handled⟩ := handled
    split at handled
    · cases handled
      refine hears_of_worse found ?_ marked
      rw [update, found] at refused
      dsimp only at refused
      split at refused
      · cases refused
      · rename_i notBetter
        exact atLeast_of_not_replaces (Bool.not_eq_true _ ▸ notBetter)
    · -- it is the info that the router has
      rename_i same
      cases handled
      rw [ne_eq, not_not] at same
      exact hears_of_stored (.of_quiet (.refl r)) (same ▸ found) marked

/-- Events that let nothing expire and remove no link.  Messages come from other routers. -/
def Lasting (core : Core) : RouterEvent → Prop
  | .removePeer _ => False
  | .receive _ _ _ _ => False
  | .timerFired key _ => key = core.publicKey
  | _ => True

theorem step_gossips (sane : Sane core r) (signs : core.Signs) {event : RouterEvent}
    (permitted : Permitted core r event) (lasting : Lasting core event)
    (stepped : step core r event = some r') : Gossips r r' := by
  cases event with
  | doMaintenance => exact .doMaintenance sane.toTidy signs (.inl sane.own) permitted stepped
  | addPeer p => exact .addPeer sane.toTidy stepped
  | removePeer p => cases lasting
  | receive p message now rtt => cases lasting
  | handleTraffic tr now => exact .of_quiet (.of_aside (handleTraffic_aside stepped))
  | sendTraffic tr now =>
      exact .of_quiet (.of_aside ((sendTraffic_aside stepped).mono fun _ answers =>
        Effect.routing_of_breaking (Effect.breaking_of_answering answers)))
  | sendLookup dest now =>
      exact .of_quiet (.of_aside ((rumorSendLookup_aside stepped).mono fun _ answers =>
        Effect.routing_of_breaking (Effect.breaking_of_answering answers)))
  | timerFired key timer =>
      cases stepped
      rw [timerFired, if_pos (show key = core.publicKey from lasting)]
      split
      · exact .of_quiet (.of_eq rfl rfl rfl)
      · exact .refl r
  | pathTimedOut key timer =>
      cases stepped
      rw [pathTimedOut]
      split
      · split
        · exact .of_quiet (.of_eq rfl rfl rfl)
        · exact .refl r
      · exact .refl r
  | rumorTimedOut xform timer =>
      cases stepped
      rw [rumorTimedOut]
      split
      · split
        · exact .of_quiet (.of_eq rfl rfl rfl)
        · exact .refl r
      · exact .refl r
  | reorder keys links =>
      cases stepped
      have same : Gossips r r := .refl r
      exact ⟨⟨same.grows, same.kept, same.known⟩,
        fun marked => same.marks ((r.mem_sentTo_reorder keys links).mp marked)⟩

/-- An effect has left the router. -/
def take (r : Router) (effect : Effect) : Router := { r with effects := r.effects.erase effect }

theorem Sane.take (sane : Sane core r) (effect : Effect) : Sane core (r.take effect) :=
  sane.of_eq rfl

end Router

/-! ## The network -/

/-- What can happen in a network: a router does something on its own, a message that it has sent is
received by its peer over a link, or it is lost. -/
inductive FleetEvent
  | own (node : PublicKey) (event : RouterEvent)
  | deliver (node : PublicKey) (p q : PeerId) (message : Message) (now : Now) (rtt : Int64)
  | drop (node : PublicKey) (effect : Effect)

namespace Fleet

/-- The network with another state of one router. -/
def put (net : Fleet) (node : PublicKey) (r : Router) : Fleet :=
  { net with router := fun key => if key = node then r else net.router key }

@[simp]
theorem put_router_self (net : Fleet) (node : PublicKey) (r : Router) :
    (net.put node r).router node = r :=
  if_pos rfl

theorem put_router_ne (net : Fleet) {node key : PublicKey} (r : Router) (other : key ≠ node) :
    (net.put node r).router key = net.router key :=
  if_neg other

/-- One event of the network.  There is no result if a router panics. -/
def step : Step Fleet FleetEvent := fun net event =>
  match event with
  | .own node event => (Router.step (net.core node) (net.router node) event).map (net.put node)
  | .deliver node p q message now rtt =>
      let net := net.put node ((net.router node).take (.send p message))
      ((net.router p.key).receive (net.core p.key) q now rtt message).map (net.put p.key)
  | .drop node effect => some (net.put node ((net.router node).take effect))

/-- Messages are received once, by another node and over a link that it has to the sender;
announcements are not lost and pass their check.  Nothing expires and no link is removed. -/
def Permitted (net : Fleet) : FleetEvent → Prop
  | .own node event =>
      Router.Permitted (net.core node) (net.router node) event ∧
        Router.Lasting (net.core node) event
  | .deliver node p q message _ _ =>
      .send p message ∈ (net.router node).effects ∧ p.key ≠ node ∧ q.key = node ∧
        q ∈ (net.router p.key).links q.key ∧
          ∀ ann, message = .announce ann → ann.check (net.core p.key).crypto = some true
  | .drop _ effect => effect.announces = false

/-- A peer knows an info of the key that is not worse, or one is on its way. -/
def Reaches (net : Fleet) (node peer key : PublicKey) (info : RouterInfo) : Prop :=
  (∃ info', (net.router peer).infos.lookup key = some info' ∧ AtLeast info' info) ∨
    ∃ p ann, p.key = peer ∧ ann.key = key ∧
      .send p (.announce ann) ∈ (net.router node).effects ∧ AtLeast ann.info info

/-- What has reached a peer still has when nobody knows less and nothing got lost on its way. -/
theorem Reaches.mono {net net' : Fleet} {node peer key : PublicKey} {info : RouterInfo}
    (covers : (∃ info', (net.router peer).infos.lookup key = some info' ∧ AtLeast info' info) →
      ∃ info', (net'.router peer).infos.lookup key = some info' ∧ AtLeast info' info)
    (kept : ∀ {p ann}, .send p (.announce ann) ∈ (net.router node).effects →
      .send p (.announce ann) ∈ (net'.router node).effects)
    (reaches : net.Reaches node peer key info) : net'.Reaches node peer key info := by
  rcases reaches with known | ⟨p, ann, link, named, sent, good⟩
  · exact .inl (covers known)
  · exact .inr ⟨p, ann, link, named, kept sent, good⟩

/-- No router is in a state in which it could panic, none has announced more than it knows, and what
one has marked as sent is known to the peer or on its way. -/
structure Told (net : Fleet) : Prop where
  sane : ∀ node, Router.Sane (net.core node) (net.router node)
  known : ∀ {node p ann}, .send p (.announce ann) ∈ (net.router node).effects →
    ∃ info, (net.router node).infos.lookup ann.key = some info ∧ AtLeast info ann.info
  told : ∀ {node peer key}, key ∈ (net.router node).sentTo peer →
    ∃ info, (net.router node).infos.lookup key = some info ∧ net.Reaches node peer key info

namespace Told

variable {net : Fleet} {node : PublicKey} {r' : Router}

/-- What a router knows it still knows when the infos of one router have got better. -/
theorem covers_put {peer key : PublicKey} {info : RouterInfo}
    (grows : ∀ {key info}, (net.router node).infos.lookup key = some info →
      ∃ info', r'.infos.lookup key = some info' ∧ AtLeast info' info)
    (covers : ∃ info', (net.router peer).infos.lookup key = some info' ∧ AtLeast info' info) :
    ∃ info', ((net.put node r').router peer).infos.lookup key = some info' ∧
      AtLeast info' info := by
  obtain ⟨info', found, better⟩ := covers
  by_cases here : peer = node
  · subst here
    obtain ⟨info'', found', better'⟩ := grows found
    rw [put_router_self]
    exact ⟨info'', found', better'.trans better⟩
  · rw [put_router_ne net r' here]
    exact ⟨info', found, better⟩

/-- One router does something on its own. -/
theorem gossip (told : net.Told) (sane : Router.Sane (net.core node) r')
    (gossips : Router.Gossips (net.router node) r') : (net.put node r').Told where
  sane other := by
    by_cases here : other = node
    · subst here
      rw [put_router_self]
      exact sane
    · rw [put_router_ne net r' here]
      exact told.sane other
  known {other p ann} sent := by
    by_cases here : other = node
    · subst here
      rw [put_router_self] at sent ⊢
      rcases gossips.known sent with before | now
      · obtain ⟨info, found, better⟩ := told.known before
        obtain ⟨info', found', better'⟩ := gossips.grows found
        exact ⟨info', found', better'.trans better⟩
      · exact now
    · rw [put_router_ne net r' here] at sent ⊢
      exact told.known sent
  told {other peer key} marked := by
    by_cases here : other = node
    · subst here
      rw [put_router_self] at marked ⊢
      rcases gossips.marks marked with
        ⟨before, same⟩ | ⟨p, ann, info, found, link, named, sent, good⟩
      · obtain ⟨info, found, reaches⟩ := told.told before
        refine ⟨info, same.trans found, reaches.mono (covers_put gossips.grows) fun sent => ?_⟩
        rw [put_router_self]
        exact gossips.kept _ sent
      · refine ⟨info, found, .inr ⟨p, ann, link, named, ?_, good⟩⟩
        rw [put_router_self]
        exact sent
    · rw [put_router_ne net r' here] at marked ⊢
      obtain ⟨info, found, reaches⟩ := told.told marked
      refine ⟨info, found, reaches.mono (covers_put gossips.grows) fun sent => ?_⟩
      rw [put_router_ne net r' here]
      exact sent

/-- A message that is no announcement is taken from its sender. -/
theorem take (told : net.Told) {effect : Effect} (other : effect.announces = false) :
    (net.put node ((net.router node).take effect)).Told where
  sane key := by
    by_cases here : key = node
    · subst here
      rw [put_router_self]
      exact (told.sane key).take effect
    · rw [put_router_ne net _ here]
      exact told.sane key
  known {key p ann} sent := by
    by_cases here : key = node
    · subst here
      rw [put_router_self] at sent ⊢
      exact told.known (List.mem_of_mem_erase sent)
    · rw [put_router_ne net _ here] at sent ⊢
      exact told.known sent
  told {key peer above} marked := by
    have grows : ∀ {key info}, (net.router node).infos.lookup key = some info →
        ∃ info', ((net.router node).take effect).infos.lookup key = some info' ∧
          AtLeast info' info := fun found => ⟨_, found, .refl _⟩
    by_cases here : key = node
    · subst here
      rw [put_router_self] at marked ⊢
      obtain ⟨info, found, reaches⟩ := told.told marked
      refine ⟨info, found, reaches.mono (covers_put grows) fun sent => ?_⟩
      rw [put_router_self]
      refine (List.mem_erase_of_ne ?_).mpr sent
      rintro rfl
      cases other
    · rw [put_router_ne net _ here] at marked ⊢
      obtain ⟨info, found, reaches⟩ := told.told marked
      refine ⟨info, found, reaches.mono (covers_put grows) fun sent => ?_⟩
      rw [put_router_ne net _ here]
      exact sent

/-- An announcement goes from one router to another. -/
theorem hear (told : net.Told) {p q : PeerId} {ann : RouterAnnounce}
    (sent : .send p (.announce ann) ∈ (net.router node).effects) (away : p.key ≠ node)
    (origin : q.key = node) (sane : Router.Sane (net.core p.key) r')
    (hears : Router.Hears q ann (net.router p.key) r') :
    ((net.put node ((net.router node).take (.send p (.announce ann)))).put p.key r').Told := by
  -- what the three kinds of routers are afterwards
  have receiver : ((net.put node ((net.router node).take (.send p (.announce ann)))).put p.key
      r').router p.key = r' := put_router_self _ _ _
  have sender : ((net.put node ((net.router node).take (.send p (.announce ann)))).put p.key
      r').router node = (net.router node).take (.send p (.announce ann)) := by
    rw [put_router_ne _ _ (Ne.symm away), put_router_self]
  have others : ∀ {key}, key ≠ p.key → key ≠ node →
      ((net.put node ((net.router node).take (.send p (.announce ann)))).put p.key r').router key =
        net.router key := by
    intro key notReceiver notSender
    rw [put_router_ne _ _ notReceiver, put_router_ne _ _ notSender]
  -- nobody knows less
  have covers_kept : ∀ {peer key info},
      (∃ info', (net.router peer).infos.lookup key = some info' ∧ AtLeast info' info) →
        ∃ info', (((net.put node ((net.router node).take (.send p (.announce ann)))).put p.key
          r').router peer).infos.lookup key = some info' ∧ AtLeast info' info := by
    intro peer key info covers
    refine covers_put (fun found => ?_) (covers_put (fun found => ⟨_, found, .refl _⟩) covers)
    rw [put_router_ne _ _ away] at found
    exact hears.grows found
  refine ⟨fun key => ?_, fun {key p' ann'} sent' => ?_, fun {key peer above} marked => ?_⟩
  · by_cases isReceiver : key = p.key
    · subst isReceiver
      rw [receiver]
      exact sane
    · by_cases isSender : key = node
      · subst isSender
        rw [sender]
        exact (told.sane key).take _
      · rw [others isReceiver isSender]
        exact told.sane key
  · by_cases isReceiver : key = p.key
    · subst isReceiver
      rw [receiver] at sent' ⊢
      rcases hears.known sent' with before | now
      · obtain ⟨info, found, better⟩ := told.known before
        obtain ⟨info', found', better'⟩ := hears.grows found
        exact ⟨info', found', better'.trans better⟩
      · exact now
    · by_cases isSender : key = node
      · subst isSender
        rw [sender] at sent' ⊢
        exact told.known (List.mem_of_mem_erase sent')
      · rw [others isReceiver isSender] at sent' ⊢
        exact told.known sent'
  · by_cases isReceiver : key = p.key
    · subst isReceiver
      rw [receiver] at marked ⊢
      rcases hears.marks marked with
        (⟨before, same⟩ | ⟨p', ann', info, found, link, named, sent', good⟩) |
          ⟨samePeer, sameKey, found⟩
      · obtain ⟨info, found, reaches⟩ := told.told before
        refine ⟨info, same.trans found, reaches.mono covers_kept fun sent' => ?_⟩
        rw [receiver]
        exact hears.kept _ sent'
      · refine ⟨info, found, .inr ⟨p', ann', link, named, ?_, good⟩⟩
        rw [receiver]
        exact sent'
      · -- the sender knows what it has announced
        refine ⟨ann.info, found, .inl (covers_kept ?_)⟩
        rw [samePeer, origin, sameKey]
        exact told.known sent
    · by_cases isSender : key = node
      · subst isSender
        rw [sender] at marked ⊢
        obtain ⟨info, found, covers | ⟨p', ann', link, named, sent', good⟩⟩ := told.told marked
        · exact ⟨info, found, .inl (covers_kept covers)⟩
        · by_cases arrived : Effect.send p' (.announce ann') = .send p (.announce ann)
          · -- what was on its way has arrived
            cases arrived
            obtain ⟨info', found', better⟩ := hears.learnt
            refine ⟨info, found, .inl ⟨info', ?_, better.trans good⟩⟩
            rw [← link, receiver, ← named]
            exact found'
          · refine ⟨info, found, .inr ⟨p', ann', link, named, ?_, good⟩⟩
            rw [sender]
            exact (List.mem_erase_of_ne arrived).mpr sent'
      · rw [others isReceiver isSender] at marked ⊢
        obtain ⟨info, found, reaches⟩ := told.told marked
        refine ⟨info, found, reaches.mono covers_kept fun sent' => ?_⟩
        rw [others isReceiver isSender]
        exact sent'

/-- Every event that is permitted has a result, and the network stays as it should be. -/
theorem step (told : net.Told) (signs : ∀ node, (net.core node).Signs) {event : FleetEvent}
    (permitted : net.Permitted event) :
    ∃ net', step net event = some net' ∧ net'.core = net.core ∧ net'.Told := by
  cases event with
  | own node event =>
      obtain ⟨permitted, lasting⟩ := permitted
      obtain ⟨r', stepped, sane⟩ := (told.sane node).step (signs node) permitted
      refine ⟨net.put node r', ?_, rfl, told.gossip sane
        (Router.step_gossips (told.sane node) (signs node) permitted lasting stepped)⟩
      rw [Fleet.step, stepped]
      rfl
  | drop node effect => exact ⟨_, rfl, rfl, told.take permitted⟩
  | deliver node p q message now rtt =>
      obtain ⟨sent, away, origin, linked, good⟩ := permitted
      have isPeer : q.key ∈ (net.router p.key).peers := by
        obtain ⟨ps, listed, -⟩ := Router.mem_links.mp linked
        exact Map.mem_of_lookup listed
      obtain ⟨r', received, sane⟩ := (told.sane p.key).receive isPeer message now rtt
      refine ⟨(net.put node ((net.router node).take (.send p message))).put p.key r', ?_, rfl, ?_⟩
      · rw [Fleet.step, put_router_ne _ _ away]
        exact congrArg (Option.map _) received
      · by_cases announced : ∃ ann, message = .announce ann
        · obtain ⟨ann, rfl⟩ := announced
          rw [Router.receive, if_pos (good ann rfl)] at received
          exact told.hear sent away origin sane (Router.handleAnnounce_hears received)
        · rw [not_exists] at announced
          have other : (Effect.send p message).announces = false := by
            cases message with
            | announce ann => exact absurd rfl (announced ann)
            | _ => rfl
          refine (told.take other).gossip sane ?_
          rw [put_router_ne _ _ away]
          exact .of_quiet (.receive received announced)

end Told

/-- The routers of the network have just started. -/
def Fresh (net : Fleet) : Prop :=
  ∀ node, (Router.init (net.core node)).doMaintenance (net.core node) = some (net.router node)

theorem Fresh.told {net : Fleet} (fresh : net.Fresh) (signs : ∀ node, (net.core node).Signs) :
    net.Told := by
  have started : ∀ node, Router.Gossips (Router.init (net.core node)) (net.router node) := by
    intro node
    refine .doMaintenance (Router.init_tidy (net.core node)) (signs node) (.inr rfl)
      (fun info found => ?_) (fresh node)
    simp [Router.init] at found
  refine ⟨fun node => ?_, fun {node p ann} sent => ?_, fun {node peer key} marked => ?_⟩
  · obtain ⟨r, done, sane⟩ := Router.init_sane (signs node)
    obtain rfl : r = net.router node := Option.some.inj (done.symm.trans (fresh node))
    exact sane
  · rcases (started node).known sent with before | now
    · simp [Router.init] at before
    · exact now
  · rcases (started node).marks marked with
      ⟨before, -⟩ | ⟨p, ann, info, found, link, named, sent, good⟩
    · simp [Router.init, Router.sentTo] at before
    · exact ⟨info, found, .inr ⟨p, ann, link, named, sent, good⟩⟩

/-- In every run of a network of any size, whatever the order in which its routers act and messages
arrive, as long as nothing expires and no link is removed: no router panics, and when a router has
marked a key as sent to a peer, then the peer knows an info of the key that is at least as good as
the router's, or the router has sent one that is on its way. -/
theorem run_told {net : Fleet} (signs : ∀ node, (net.core node).Signs) (fresh : net.Fresh)
    {events : List FleetEvent} (allowed : Permits step Permitted net events) :
    ∃ net', run step net events = some net' ∧
      ∀ node peer key, key ∈ (net'.router node).sentTo peer →
        ∃ info, (net'.router node).infos.lookup key = some info ∧
          ((∃ info', (net'.router peer).infos.lookup key = some info' ∧ AtLeast info' info) ∨
            ∃ p ann, p.key = peer ∧ ann.key = key ∧
              .send p (.announce ann) ∈ (net'.router node).effects ∧ AtLeast ann.info info) := by
  have initially : net.core = net.core ∧ net.Told := ⟨rfl, fresh.told signs⟩
  obtain ⟨net', ended, -, told⟩ := @Permits.exists_run Fleet FleetEvent step Permitted
    (fun now => now.core = net.core ∧ now.Told) net events allowed initially (by
      rintro now event ⟨same, told⟩ permitted
      obtain ⟨net', stepped, same', told'⟩ := told.step (same ▸ signs) permitted
      exact ⟨net', stepped, same'.trans same, told'⟩)
  exact ⟨net', ended, fun node peer key marked => told.told marked⟩

/-! ### Two nodes that have started -/

/-- Nodes that have just started. -/
def plainStart : Fleet where
  nodes := [plainKey 1, plainKey 2]
  core := plainCore
  router key := ((Router.init (plainCore key)).doMaintenance (plainCore key)).getD
    (Router.init (plainCore key))

theorem plainStart_fresh : plainStart.Fresh := by
  intro node
  obtain ⟨r, done, -⟩ := @Router.init_sane (plainCore node) fun _ => rfl
  have same : plainStart.router node = r := congrArg (Option.getD · _) done
  rw [same]
  exact done

/-- The first node gets a link to the second and announces itself. -/
theorem plainStart_permits : Permits step Permitted plainStart
    [.own (plainKey 1) (.addPeer ⟨plainKey 2, 1, 0, 0⟩), .own (plainKey 1) .doMaintenance] := by
  refine ⟨⟨trivial, trivial⟩, fun net stepped => ⟨⟨?_, trivial⟩, fun _ _ => trivial⟩⟩
  have told := plainStart_fresh.told fun _ _ => rfl
  rw [Fleet.step, Option.map_eq_some_iff] at stepped
  obtain ⟨r', added, rfl⟩ := stepped
  obtain ⟨r₁, new, added', rest, -⟩ := Router.addPeer_spec (plainCore (plainKey 1))
    (told.sane (plainKey 1)).toTidy ⟨plainKey 2, 1, 0, 0⟩
  obtain rfl : r₁ = r' := Option.some.inj (added'.symm.trans added)
  intro info found
  rw [put_router_self, rest] at found
  have started : ((plainStart.router (plainKey 1)).infos.lookup (plainKey 1)).map
      (fun info => info.seq) = some 1 := by decide
  have seq : info.seq = 1 := by
    have := congrArg (Option.map fun info => info.seq) found
    exact Option.some.inj (this.symm.trans started)
  rw [seq]
  decide

theorem run_told_start :
    ∃ net', run step plainStart [.own (plainKey 1) (.addPeer ⟨plainKey 2, 1, 0, 0⟩),
        .own (plainKey 1) .doMaintenance] = some net' ∧
      ∀ node peer key, key ∈ (net'.router node).sentTo peer →
        ∃ info, (net'.router node).infos.lookup key = some info ∧
          ((∃ info', (net'.router peer).infos.lookup key = some info' ∧ AtLeast info' info) ∨
            ∃ p ann, p.key = peer ∧ ann.key = key ∧
              .send p (.announce ann) ∈ (net'.router node).effects ∧ AtLeast ann.info info) :=
  run_told (fun _ _ => rfl) plainStart_fresh plainStart_permits

end Fleet

end Uqda.Network
