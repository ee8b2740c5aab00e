import Uqda.Network.Forwarding
import Uqda.Transition.Progress

/-!
# The router never panics

The methods of the router's actor mark nine places of `third_party/ironwood/network` with
`panic("this should never happen")`, and a write to a missing map would panic as well.  The
invariant below rules all of them out in every run of the router's actor: the maps for peers go
together, everything marked as sent is known, and the router has an info of itself once it has
started.

What is assumed of the order of events is what the actors guarantee: messages come from links that
have been added and not been removed.
-/

namespace Uqda.Network

open Uqda.Store Uqda.Graph Uqda.Transition

/-- The messages in the inbox of the router's actor.  Between them loops over maps may get another
order. -/
inductive RouterEvent
  | doMaintenance
  | addPeer (p : PeerId)
  | removePeer (p : PeerId)
  | receive (p : PeerId) (message : Message) (now : Now) (rtt : Int64)
  | handleTraffic (tr : Traffic) (now : Now)
  | sendTraffic (tr : Traffic) (now : Now)
  | sendLookup (dest : PublicKey) (now : Now)
  | timerFired (key : PublicKey) (timer : Nat)
  | pathTimedOut (key : PublicKey) (timer : Nat)
  | rumorTimedOut (xform : PublicKey) (timer : Nat)
  | reorder (keys : PublicKey → PublicKey → Bool) (links : PeerId → PeerId → Bool)

namespace Router

/-- `_handlePacket` of a peer, with what the router does for it.  A message with a bad signature
does not get to the router. -/
def receive (core : Core) (r : Router) (p : PeerId) (now : Now) (rtt : Int64) :
    Message → Option Router
  | .dummy => some r
  | .keepAlive => some r
  | .sigReq req => r.handleRequest core p req
  | .sigRes res =>
      if res.check core.crypto core.publicKey p.key = some true then
        some (r.handleResponse p res rtt)
      else some r
  | .announce ann =>
      if ann.check core.crypto = some true then r.handleAnnounce core p ann else some r
  | .bloom b => some (r.handleBloom p b)
  | .pathLookup lookup => r.handlePeerLookup core now p lookup
  | .pathNotify notify => r.handleNotify core now notify
  | .pathBroken broken => r.handleBroken core now broken
  | .traffic tr => r.handleTraffic core now tr

/-- The maps and sets over which the router loops, in another order. -/
def reorder (r : Router) (keys : PublicKey → PublicKey → Bool) (links : PeerId → PeerId → Bool) :
    Router :=
  { r with
    peers := (r.peers.mapValues (List.insertionSort fun p q => links p q = true)).reorder keys
    sent := (r.sent.mapValues (List.insertionSort fun k other => keys k other = true)).reorder keys
    responses := r.responses.reorder keys
    blooms := r.blooms.reorder keys }

/-- One message of the actor's inbox.  There is no result if it panics. -/
def step (core : Core) : Step Router RouterEvent := fun r event =>
  match event with
  | .doMaintenance => r.doMaintenance core
  | .addPeer p => r.addPeer core p
  | .removePeer p => r.removePeer p
  | .receive p message now rtt => r.receive core p now rtt message
  | .handleTraffic tr now => r.handleTraffic core now tr
  | .sendTraffic tr now => r.sendTraffic core now tr
  | .sendLookup dest now => r.rumorSendLookup core now dest
  | .timerFired key timer => some (r.timerFired core key timer)
  | .pathTimedOut key timer => some (r.pathTimedOut key timer)
  | .rumorTimedOut xform timer => some (r.rumorTimedOut xform timer)
  | .reorder keys links => some (r.reorder keys links)

/-- `init`: the router before its first message, which is `_doMaintenance`. -/
def init (core : Core) : Router where
  doRoot2 := true
  info :=
    let info : PathNotifyInfo := ⟨0, [], Vector.replicate 64 0⟩
    { info with sig := core.crypto.sign core.privateKey info.bytesForSig }

end Router

/-- The node's signatures pass under its own key. -/
def Core.Signs (core : Core) : Prop :=
  ∀ message, core.crypto.verify core.publicKey message
    (core.crypto.sign core.privateKey message) = true

namespace Router

/-- The maps for peers have the same keys, the links are listed under their keys and no peer is
without one, what is marked as sent is known, the cache is coherent, and traffic that waits with a
path is for that path. -/
structure Tidy (r : Router) : Prop where
  sentKeys : ∀ key, key ∈ r.sent ↔ key ∈ r.peers
  bloomKeys : ∀ key, key ∈ r.blooms ↔ key ∈ r.peers
  links : ∀ {key ps}, r.peers.lookup key = some ps → ps ≠ [] ∧ ∀ p ∈ ps, p.key = key
  sent : ∀ {peer key}, key ∈ r.sentTo peer → key ∈ r.infos
  coherent : r.Coherent
  waiting : ∀ {key info tr}, r.paths.lookup key = some info → info.traffic = some tr → tr.dest = key

/-- The router has started. -/
structure Sane (core : Core) (r : Router) : Prop extends Tidy r where
  own : core.publicKey ∈ r.infos

variable {core : Core} {r r' : Router} {p : PeerId} {now : Now}

theorem mem_sentTo {peer key : PublicKey} :
    key ∈ r.sentTo peer ↔ ∃ sent, r.sent.lookup peer = some sent ∧ key ∈ sent := by
  rw [sentTo]
  cases r.sent.lookup peer with
  | none => simp
  | some sent => simp

/-- Nothing else of the state matters: requests, responses, timers, rumors and effects may be
any. -/
theorem Tidy.of_eq (tidy : Tidy r)
    (same : (r'.peers, r'.sent, r'.infos, r'.blooms, r'.cache, r'.paths) =
      (r.peers, r.sent, r.infos, r.blooms, r.cache, r.paths)) : Tidy r' := by
  simp only [Prod.mk.injEq] at same
  obtain ⟨peers, sent, infos, blooms, cache, paths⟩ := same
  have marks (peer : PublicKey) : r'.sentTo peer = r.sentTo peer := by rw [sentTo, sentTo, sent]
  have ways (key : PublicKey) : r'.getRootAndPath key = r.getRootAndPath key := by
    rw [getRootAndPath, getRootAndPath, infos]
  constructor
  · rw [sent, peers]
    exact tidy.sentKeys
  · rw [blooms, peers]
    exact tidy.bloomKeys
  · rw [peers]
    exact tidy.links
  · intro peer key marked
    rw [infos]
    exact tidy.sent (marks peer ▸ marked)
  · intro key path found
    rw [ways]
    exact tidy.coherent key path (cache ▸ found)
  · rw [paths]
    exact tidy.waiting

theorem Sane.of_eq (sane : Sane core r)
    (same : (r'.peers, r'.sent, r'.infos, r'.blooms, r'.cache, r'.paths) =
      (r.peers, r.sent, r.infos, r.blooms, r.cache, r.paths)) : Sane core r' := by
  refine ⟨sane.toTidy.of_eq same, ?_⟩
  simp only [Prod.mk.injEq] at same
  rw [same.2.2.1]
  exact sane.own

/-! ## Announcements -/

theorem Tidy.store (tidy : Tidy r) (ann : RouterAnnounce) : Tidy (r.store ann) where
  sentKeys key := by
    rw [Router.store, Map.mem_mapValues]
    exact tidy.sentKeys key
  bloomKeys := tidy.bloomKeys
  links := tidy.links
  sent := by
    intro peer key present
    obtain ⟨sent, found, present⟩ := mem_sentTo.mp present
    rw [Router.store, Map.lookup_mapValues] at found
    obtain ⟨old, before, rfl⟩ := Option.map_eq_some_iff.mp found
    have known := tidy.sent (mem_sentTo.mpr ⟨old, before, (List.mem_filter.mp present).1⟩)
    exact AList.mem_insert _ |>.mpr (.inr known)
  coherent := coherent_of_empty rfl
  waiting := tidy.waiting

/-- An accepted announcement is stored. -/
theorem eq_store_of_update {ann : RouterAnnounce} (updated : r.update ann = some r') :
    r' = r.store ann := by
  rw [Router.update] at updated
  split at updated
  · split at updated
    · exact (Option.some.inj updated).symm
    · cases updated
  · exact (Option.some.inj updated).symm

theorem mem_infos_store (r : Router) (ann : RouterAnnounce) {key : PublicKey} :
    key ∈ (r.store ann).infos ↔ key = ann.key ∨ key ∈ r.infos :=
  AList.mem_insert _

/-- Marking more keys of a peer as sent keeps the router tidy if they are known. -/
theorem Tidy.insertSent {peer : PublicKey} {sent : List PublicKey} (tidy : Tidy r)
    (isPeer : peer ∈ r.peers) (known : ∀ key ∈ sent, key ∈ r.infos) :
    Tidy { r with sent := r.sent.insert peer sent } := by
  refine ⟨fun other => ?_, tidy.bloomKeys, tidy.links, ?_, tidy.coherent, tidy.waiting⟩
  · exact (Map.mem_insert_of_mem ((tidy.sentKeys peer).mpr isPeer) _).trans (tidy.sentKeys other)
  · intro other key present
    obtain ⟨sent', found, present⟩ := mem_sentTo.mp present
    rw [Map.lookup_insert_eq] at found
    split at found
    · cases found
      exact known key present
    · exact tidy.sent (mem_sentTo.mpr ⟨sent', found, present⟩)

theorem Tidy.markSent {peer key : PublicKey} (tidy : Tidy r) (isPeer : peer ∈ r.peers)
    (known : key ∈ r.infos) :
    ∃ r', r.markSent peer key = some r' ∧ Tidy r' ∧ r'.infos = r.infos := by
  obtain ⟨sent, found⟩ := Map.mem_iff.mp ((tidy.sentKeys peer).mpr isPeer)
  refine ⟨{ r with sent := r.sent.insert peer (sent.insert key) }, by rw [Router.markSent, found],
    tidy.insertSent isPeer fun key' present => ?_, rfl⟩
  rcases List.mem_insert_iff.mp present with rfl | before
  · exact known
  · exact tidy.sent (mem_sentTo.mpr ⟨sent, found, before⟩)

theorem Sane.handleAnnounce {ann : RouterAnnounce} (sane : Sane core r) (isPeer : p.key ∈ r.peers) :
    ∃ r', r.handleAnnounce core p ann = some r' ∧ Sane core r' := by
  rw [Router.handleAnnounce]
  cases updated : r.update ann with
  | some r₁ =>
      obtain rfl := eq_store_of_update updated
      have tidy := sane.toTidy.store ann
      have known : ann.key ∈ (r.store ann).infos := (mem_infos_store r ann).mpr (.inl rfl)
      have own : core.publicKey ∈ (r.store ann).infos := (mem_infos_store r ann).mpr (.inr sane.own)
      dsimp only
      split
      · have refreshed : Tidy { r.store ann with refresh := true } := tidy.of_eq rfl
        obtain ⟨r', marked, tidy', same⟩ := refreshed.markSent isPeer known
        exact ⟨r', marked, tidy', same ▸ own⟩
      · obtain ⟨r', marked, tidy', same⟩ := tidy.markSent isPeer known
        exact ⟨r', marked, tidy', same ▸ own⟩
  | none =>
      -- it was not accepted, so there is an info
      have known : ann.key ∈ r.infos := by
        by_contra absent
        rw [Router.update, AList.lookup_eq_none.mpr absent] at updated
        cases updated
      obtain ⟨oldInfo, found⟩ := Map.mem_iff.mp known
      obtain ⟨r₁, marked, tidy, same⟩ := sane.toTidy.markSent isPeer known
      simp only [found, marked, Option.bind_eq_bind, Option.bind_some]
      split
      · exact ⟨_, rfl, tidy.of_eq rfl, same ▸ sane.own⟩
      · exact ⟨r₁, rfl, tidy, same ▸ sane.own⟩

theorem mem_getAncestry_known {key above : PublicKey} (higher : above ∈ r.getAncestry key) :
    above ∈ r.infos := by
  rw [getAncestry, List.mem_reverse] at higher
  obtain ⟨pointer, found⟩ := (r.backwardsAncestry_climb key).known above higher
  exact AList.mem_keys.mpr (mem_keys_of_pointers above (by rw [found]; exact Option.some_ne_none _))

/-- The loops of `_sendAnnounces`: everything in the ancestry is marked afterwards, and what is
newly marked is to be sent. -/
theorem unsent_spec (anc toSend sent : List PublicKey) :
    (∀ key, key ∈ (unsent anc toSend sent).1 → key ∈ toSend ∨ key ∈ anc) ∧
      (∀ key, key ∈ toSend → key ∈ (unsent anc toSend sent).1) ∧
      (∀ key, key ∈ (unsent anc toSend sent).2 ↔ key ∈ sent ∨ key ∈ anc) ∧
      ∀ key, key ∈ (unsent anc toSend sent).2 → key ∈ sent ∨ key ∈ (unsent anc toSend sent).1 := by
  induction anc generalizing toSend sent with
  | nil => simp +contextual [unsent]
  | cons first anc ih =>
      by_cases marked : first ∈ sent
      · obtain ⟨origin, kept, all, new⟩ := ih toSend sent
        have same : unsent (first :: anc) toSend sent = unsent anc toSend sent := by
          simp only [unsent, List.foldl_cons, if_pos (List.contains_iff_mem.mpr marked)]
        rw [same]
        refine ⟨fun key present => (origin key present).imp_right (List.mem_cons_of_mem _), kept,
          fun key => ?_, new⟩
        rw [all key, List.mem_cons]
        constructor
        · exact fun present => present.imp_right .inr
        · rintro (present | rfl | present)
          · exact .inl present
          · exact .inl marked
          · exact .inr present
      · obtain ⟨origin, kept, all, new⟩ := ih (toSend ++ [first]) (sent.insert first)
        have same : unsent (first :: anc) toSend sent =
            unsent anc (toSend ++ [first]) (sent.insert first) := by
          simp only [unsent, List.foldl_cons, if_neg (mt List.contains_iff_mem.mp marked)]
        rw [same]
        refine ⟨fun key present => ?_, fun key present => kept key (List.mem_append_left _ present),
          fun key => ?_, fun key present => ?_⟩
        · rcases origin key present with before | later
          · rcases List.mem_append.mp before with before | before
            · exact .inl before
            · exact .inr (List.mem_singleton.mp before ▸ List.mem_cons_self)
          · exact .inr (List.mem_cons_of_mem _ later)
        · rw [all key, List.mem_insert_iff, List.mem_cons]
          tauto
        · rcases new key present with before | later
          · rcases List.mem_insert_iff.mp before with rfl | before
            · exact .inr (kept _ (List.mem_append_right _ (List.mem_singleton_self _)))
            · exact .inl before
          · exact .inr later

/-- Announcements can be made for known keys. -/
theorem mapM_getAnnounce {infos : Map PublicKey RouterInfo} {keys : List PublicKey}
    (known : ∀ key ∈ keys, key ∈ infos) :
    ∃ anns, keys.mapM (fun k => (infos.lookup k).map fun info => info.getAnnounce k) = some anns ∧
      anns.map RouterAnnounce.key = keys ∧
        ∀ ann ∈ anns, infos.lookup ann.key = some ann.info := by
  induction keys with
  | nil => exact ⟨[], rfl, rfl, fun _ absent => absurd absent List.not_mem_nil⟩
  | cons key keys ih =>
      obtain ⟨anns, made, named, right⟩ :=
        ih fun key later => known key (List.mem_cons_of_mem _ later)
      obtain ⟨info, found⟩ := Map.mem_iff.mp (known key List.mem_cons_self)
      refine ⟨info.getAnnounce key :: anns, ?_, ?_, ?_⟩
      · rw [List.mapM_cons, found, made]
        rfl
      · rw [List.map_cons, named]
        rfl
      · intro ann present
        rcases List.mem_cons.mp present with rfl | present
        · exact found
        · exact right ann present

/-- One iteration of `_sendAnnounces` does not panic: the ancestries are marked as sent, and
announcements are sent for what was not marked before. -/
theorem sendAnnouncesTo_spec {selfAnc sent : List PublicKey} {peer : PublicKey}
    (known : ∀ key ∈ selfAnc, key ∈ r.infos) :
    ∃ (anns : List RouterAnnounce) (sent' : List PublicKey),
      r.sendAnnouncesTo selfAnc (peer, sent) =
        some ({ r with sent := r.sent.insert peer sent' }.sendEach (r.links peer)
          (anns.map .announce)) ∧
      (∀ key, key ∈ sent' ↔ key ∈ sent ∨ key ∈ selfAnc ∨ key ∈ r.getAncestry peer) ∧
        (∀ ann ∈ anns, r.infos.lookup ann.key = some ann.info) ∧
          ∀ key ∈ sent', key ∈ sent ∨ ∃ ann ∈ anns, ann.key = key := by
  obtain ⟨origin, kept, all, new⟩ := unsent_spec selfAnc [] sent
  obtain ⟨origin', kept', all', new'⟩ := unsent_spec (r.getAncestry peer)
    (unsent selfAnc [] sent).1 (unsent selfAnc [] sent).2
  have announced : ∀ key ∈ (unsent (r.getAncestry peer) (unsent selfAnc [] sent).1
      (unsent selfAnc [] sent).2).1, key ∈ r.infos := by
    intro key present
    rcases origin' key present with before | later
    · rcases origin key before with absent | later
      · cases absent
      · exact known key later
    · exact mem_getAncestry_known later
  obtain ⟨anns, made, named, right⟩ := mapM_getAnnounce announced
  refine ⟨anns, (unsent (r.getAncestry peer) (unsent selfAnc [] sent).1
    (unsent selfAnc [] sent).2).2, ?_, fun key => ?_, right, fun key present => ?_⟩
  · rw [sendAnnouncesTo]
    simp only [made, Option.bind_eq_bind, Option.bind_some, Option.pure_def]
    rfl
  · rw [all' key, all key, or_assoc]
  · have sentTo : key ∈ sent ∨ key ∈ (unsent (r.getAncestry peer) (unsent selfAnc [] sent).1
        (unsent selfAnc [] sent).2).1 := by
      rcases new' key present with before | later
      · exact (new key before).imp_right (kept' key)
      · exact .inr later
    refine sentTo.imp_right fun toSend => ?_
    rw [← named] at toSend
    exact List.mem_map.mp toSend

theorem Sane.sendAnnounces (sane : Sane core r) :
    ∃ r', r.sendAnnounces core = some r' ∧ Sane core r' := by
  have start : Sane core r ∧ r.infos = r.infos ∧ r.peers = r.peers := ⟨sane, rfl, rfl⟩
  obtain ⟨r', sent, sane', -⟩ := @exists_foldlM Router (PublicKey × List PublicKey)
    (sendAnnouncesTo (r.getAncestry core.publicKey))
    (fun s => Sane core s ∧ s.infos = r.infos ∧ s.peers = r.peers) r r.sent.toList start (by
      rintro s ⟨peer, sent⟩ entry ⟨saneNow, sameInfos, samePeers⟩
      have found := Map.mem_toList.mp entry
      have isPeer : peer ∈ s.peers := by
        rw [samePeers, ← sane.sentKeys]
        exact Map.mem_of_lookup found
      have selfKnown : ∀ key ∈ r.getAncestry core.publicKey, key ∈ s.infos := by
        intro key higher
        rw [sameInfos]
        exact mem_getAncestry_known higher
      obtain ⟨anns, sent', result, all, -, -⟩ := @sendAnnouncesTo_spec s _ sent peer selfKnown
      refine ⟨_, result, ?_⟩
      have known : ∀ key ∈ sent', key ∈ s.infos := by
        intro key present
        rcases (all key).mp present with before | self | higher
        · rw [sameInfos]
          exact sane.sent (mem_sentTo.mpr ⟨sent, found, before⟩)
        · exact selfKnown key self
        · exact mem_getAncestry_known higher
      rw [sendEach_eq]
      exact ⟨⟨(saneNow.toTidy.insertSent isPeer known).of_eq rfl, saneNow.own⟩, sameInfos,
        samePeers⟩)
  exact ⟨r', sent, sane'⟩

/-! ## The parent -/

/-- What `_sendReqs` changes: the requests, and the responses are gone. -/
theorem sendReqs_spec (core : Core) (r : Router) :
    ∃ requests responded drawn new,
      r.sendReqs core = { r with
        requests := requests, responses := ∅, responded := responded, drawn := drawn
        effects := r.effects ++ new } ∧
      ∀ effect ∈ new, ∃ p req, effect = .send p (.sigReq req) := by
  have loop : ∀ (entries : List (PublicKey × List PeerId)) (r : Router),
      ∃ requests responded drawn new,
        entries.foldl (sendReqTo core) r = { r with
          requests := requests, responded := responded, drawn := drawn
          effects := r.effects ++ new } ∧
        ∀ effect ∈ new, ∃ p req, effect = .send p (.sigReq req) := by
    intro entries
    induction entries with
    | nil =>
        intro r
        exact ⟨r.requests, r.responded, r.drawn, [], by simp, by simp⟩
    | cons entry entries ih =>
        intro r
        obtain ⟨pk, ps⟩ := entry
        obtain ⟨requests, responded, drawn, new, result, kinds⟩ := ih (r.sendReqTo core (pk, ps))
        refine ⟨requests, responded, drawn,
          (ps.flatMap fun p => [.send p (.sigReq (r.newReq core).1)]) ++ new, ?_, ?_⟩
        · rw [List.foldl_cons, result]
          simp [sendReqTo, sendEach_eq, newReq]
        · intro effect present
          rcases List.mem_append.mp present with first | later
          · obtain ⟨p, -, same⟩ := List.mem_flatMap.mp first
            exact ⟨p, _, List.mem_singleton.mp same⟩
          · exact kinds effect later
  obtain ⟨requests, responded, drawn, new, result, kinds⟩ := loop r.peers.toList r.clearReqs
  exact ⟨requests, responded, drawn, new, result, kinds⟩

/-- A settled router has its info and no pending requests; nothing else is different. -/
theorem Sane.settle (sane : Sane core r) : Sane core (r.settle core) := by
  obtain ⟨requests, responded, drawn, new, result, -⟩ :=
    sendReqs_spec core { r with refresh := false, doRoot1 := false, doRoot2 := false }
  rw [Router.settle, result]
  exact sane.of_eq rfl

/-- The announcement of a root passes its own check. -/
theorem rootAnnounce_spec (signs : core.Signs) (req : RouterSigReq) :
    ∃ ann, rootAnnounce core req = some ann ∧ ann.check core.crypto = some true ∧
      ann.key = core.publicKey ∧ ann.parent = core.publicKey ∧ ann.toRouterSigReq = req := by
  refine ⟨_, by rw [rootAnnounce, RouterSigRes.bytesForSig_eq]; rfl, ?_, rfl, rfl, rfl⟩
  rw [RouterAnnounce.check_eq_some_true_iff]
  exact ⟨fun _ => rfl, signs _, signs _⟩

/-- A router can become root unless its sequence number is the last. -/
theorem becomeRoot_spec (signs : core.Signs)
    (room : ∀ info, r.infos.lookup core.publicKey = some info → info.seq ≠ allOnes) :
    ∃ ann, r.becomeRoot core = some (({ r with drawn := r.drawn + 1 } : Router).store ann) ∧
      ann.key = core.publicKey ∧ ann.parent = core.publicKey ∧
        ∀ info, r.infos.lookup core.publicKey = some info → info.seq < ann.seq := by
  obtain ⟨ann, made, good, key, parent, req⟩ := rootAnnounce_spec signs (r.newReq core).1
  have later : ∀ info, r.infos.lookup core.publicKey = some info → info.seq < ann.seq := by
    intro info found
    have seq : ann.seq = info.seq + 1 := by
      have := congrArg RouterSigReq.seq req
      rw [newReq, found] at this
      exact this
    have last : info.seq.toNat ≠ 2 ^ 64 - 1 :=
      fun same => room info found (UInt64.toNat_inj.mp same)
    have bound := info.seq.toNat_lt
    rw [seq, UInt64.lt_iff_toNat_lt, UInt64.toNat_add, UInt64.toNat_one]
    omega
  refine ⟨ann, ?_, key, parent, later⟩
  rw [becomeRoot]
  simp only [made, good, Option.bind_eq_bind, Option.bind_some, Bool.not_true, Bool.false_eq_true,
    if_false]
  rw [update, key]
  cases found : r.infos.lookup core.publicKey with
  | none => simp only [newReq, found]
  | some info =>
      have newer : replaces info ann = true := by
        have less := later info found
        rw [replaces, if_neg (UInt64.lt_asymm less), if_pos less]
      simp only [newReq, found, newer, if_true]

/-- `_fix` does not panic, and the router has an info of itself afterwards. -/
theorem Tidy.fix (tidy : Tidy r) (signs : core.Signs)
    (started : core.publicKey ∈ r.infos ∨ r.doRoot2 = true)
    (room : ∀ info, r.infos.lookup core.publicKey = some info → info.seq ≠ allOnes) :
    ∃ r', r.fix core = some r' ∧ Sane core r' := by
  have own : r.doRoot2 ≠ true → core.publicKey ∈ r.infos := started.resolve_right
  rw [Router.fix]
  split
  · cases adopted : r.adopt core (r.choose core) with
    | some r₁ =>
        rw [adopt] at adopted
        split at adopted
        · split at adopted
          · rename_i res _
            rw [useResponse, RouterSigRes.bytesForSig_eq, Option.bind_eq_bind, Option.bind_some]
              at adopted
            have stored : Sane core r₁ := by
              rw [eq_store_of_update adopted]
              exact ⟨tidy.store _, (mem_infos_store r _).mpr (.inl rfl)⟩
            exact ⟨_, rfl, stored.settle⟩
          · cases adopted
        · cases adopted
    | none =>
        dsimp only
        split
        · obtain ⟨ann, rooted, key, -, -⟩ := becomeRoot_spec signs room
          rw [rooted]
          have drawn : Tidy { r with drawn := r.drawn + 1 } := tidy.of_eq rfl
          have stored : Sane core (Router.store { r with drawn := r.drawn + 1 } ann) :=
            ⟨drawn.store ann, (mem_infos_store _ ann).mpr (.inl key.symm)⟩
          exact ⟨_, rfl, stored.settle⟩
        · rename_i notRoot
          split
          · exact ⟨_, rfl, tidy.of_eq rfl, own notRoot⟩
          · exact ⟨r, rfl, tidy, own notRoot⟩
  · rename_i quiet
    exact ⟨r, rfl, tidy, own fun root => quiet (.inr (.inr (.inl root)))⟩

/-! ## Bloom filters -/

theorem Sane.withBlooms (sane : Sane core r) {blooms : Map PublicKey BloomInfo}
    (same : ∀ key, key ∈ blooms ↔ key ∈ r.blooms) : Sane core { r with blooms := blooms } :=
  ⟨⟨sane.sentKeys, fun key => (same key).trans (sane.bloomKeys key), sane.links, sane.sent,
    sane.coherent, sane.waiting⟩, sane.own⟩

theorem Sane.sendEach (sane : Sane core r) (ps : List PeerId) (messages : List Message) :
    Sane core (r.sendEach ps messages) := by
  rw [sendEach_eq]
  exact sane.of_eq rfl

/-- Changing the entry of a peer's filters. -/
theorem Sane.insertBloom (sane : Sane core r) {key : PublicKey} (present : key ∈ r.blooms)
    (pbi : BloomInfo) : Sane core { r with blooms := r.blooms.insert key pbi } :=
  sane.withBlooms fun _ => Map.mem_insert_of_mem present pbi

theorem Sane.fixOnTree (sane : Sane core r) : ∃ r', r.fixOnTree core = some r' ∧ Sane core r' := by
  obtain ⟨selfInfo, found⟩ := Map.mem_iff.mp sane.own
  refine ⟨_, by rw [Router.fixOnTree, found], ?_⟩
  have loop : ∀ (entries : List (PublicKey × BloomInfo)) (s : Router), Sane core s →
      (∀ entry ∈ entries, entry.1 ∈ s.blooms) →
        Sane core (entries.foldl (fixOnTreeOne core selfInfo) s) := by
    intro entries
    induction entries with
    | nil => exact fun s saneNow _ => saneNow
    | cons entry entries ih =>
        intro s saneNow present
        obtain ⟨pk, pbi⟩ := entry
        have here : pk ∈ s.blooms := present _ List.mem_cons_self
        have next : Sane core (s.fixOnTreeOne core selfInfo (pk, pbi)) ∧
            ∀ key, key ∈ (s.fixOnTreeOne core selfInfo (pk, pbi)).blooms ↔ key ∈ s.blooms := by
          rw [fixOnTreeOne]
          dsimp only
          split
          · have sent := saneNow.sendEach (s.links pk) [.bloom .new]
            rw [← sendEach_blooms s (s.links pk) [.bloom .new]] at here ⊢
            exact ⟨sent.insertBloom here _, fun _ => Map.mem_insert_of_mem here _⟩
          · exact ⟨saneNow.insertBloom here _, fun _ => Map.mem_insert_of_mem here _⟩
        rw [List.foldl_cons]
        refine ih _ next.1 fun entry later => ?_
        rw [next.2]
        exact present entry (List.mem_cons_of_mem _ later)
  exact loop _ r sane fun entry listed => Map.mem_of_lookup (Map.mem_toList.mp listed)

theorem Sane.getBloomFor (sane : Sane core r) {key : PublicKey} (present : key ∈ r.blooms)
    (keepOnes : Bool) :
    ∃ b isNew r', r.getBloomFor core key keepOnes = some (b, isNew, r') ∧ Sane core r' ∧
      (∀ other, other ∈ r'.blooms ↔ other ∈ r.blooms) ∧ r'.peers = r.peers := by
  obtain ⟨pbi, found⟩ := Map.mem_iff.mp present
  rw [Router.getBloomFor, found]
  simp only [Option.bind_eq_bind, Option.bind_some]
  generalize keepSent pbi (r.need core key) keepOnes = kept
  split
  · exact ⟨_, _, r, rfl, sane, fun _ => Iff.rfl, rfl⟩
  · exact ⟨_, _, _, rfl, sane.insertBloom present _, fun _ => Map.mem_insert_of_mem present _, rfl⟩

theorem Sane.sendAllBlooms (sane : Sane core r) :
    ∃ r', r.sendAllBlooms core = some r' ∧ Sane core r' := by
  have start : Sane core r ∧ ∀ key, key ∈ r.blooms ↔ key ∈ r.blooms := ⟨sane, fun _ => Iff.rfl⟩
  obtain ⟨r', sent, sane', -⟩ := @exists_foldlM Router (PublicKey × BloomInfo) (sendBloomTo core)
    (fun s => Sane core s ∧ ∀ key, key ∈ s.blooms ↔ key ∈ r.blooms) r r.blooms.toList start (by
      rintro s ⟨k, pbi⟩ entry ⟨saneNow, same⟩
      have present : k ∈ s.blooms := (same k).mpr (Map.mem_of_lookup (Map.mem_toList.mp entry))
      rw [sendBloomTo]
      dsimp only
      split
      · exact ⟨s, rfl, saneNow, same⟩
      · obtain ⟨b, isNew, s₁, got, sane₁, same₁, peers₁⟩ :=
          saneNow.getBloomFor present (!pbi.zDirty)
        obtain ⟨pbi₁, found⟩ := Map.mem_iff.mp ((same₁ k).mpr present)
        obtain ⟨ps, links⟩ := Map.mem_iff.mp ((sane₁.bloomKeys k).mp ((same₁ k).mpr present))
        simp only [got, found, links, Option.bind_eq_bind, Option.bind_some]
        have here : k ∈ s₁.blooms := (same₁ k).mpr present
        split
        · have sent := sane₁.sendEach ps [.bloom b]
          rw [← sendEach_blooms s₁ ps [.bloom b]] at here
          refine ⟨_, rfl, sent.insertBloom here _, fun key => ?_⟩
          refine (Map.mem_insert_of_mem here _).trans ?_
          rw [sendEach_blooms]
          exact (same₁ key).trans (same key)
        · exact ⟨_, rfl, sane₁.insertBloom here _,
            fun key => (Map.mem_insert_of_mem here _).trans ((same₁ key).trans (same key))⟩)
  exact ⟨r', sent, sane'⟩

theorem Tidy.uncached (tidy : Tidy r) : Tidy (resetCache r) :=
  ⟨tidy.sentKeys, tidy.bloomKeys, tidy.links, tidy.sent, coherent_of_empty rfl, tidy.waiting⟩

/-- `_doMaintenance` does not panic. -/
theorem Tidy.doMaintenance (tidy : Tidy r) (signs : core.Signs)
    (started : core.publicKey ∈ r.infos ∨ r.doRoot2 = true)
    (room : ∀ info, r.infos.lookup core.publicKey = some info → info.seq ≠ allOnes) :
    ∃ r', r.doMaintenance core = some r' ∧ Sane core r' := by
  have reset : Tidy (resetCache { r with doRoot2 := r.doRoot2 || r.doRoot1 }) :=
    Tidy.uncached (tidy.of_eq rfl)
  obtain ⟨r₁, fixed, sane₁⟩ := reset.fix signs
    (started.imp_right fun root => by rw [resetCache, root, Bool.true_or]) room
  obtain ⟨r₂, announced, sane₂⟩ := sane₁.sendAnnounces
  obtain ⟨r₃, onTree, sane₃⟩ := sane₂.fixOnTree
  obtain ⟨r₄, blooms, sane₄⟩ := sane₃.sendAllBlooms
  refine ⟨r₄, ?_, sane₄⟩
  rw [Router.doMaintenance]
  simp only [fixed, announced, onTree, blooms, Option.bind_eq_bind, Option.bind_some]

/-! ## Peers -/

/-- What a link gets when it is added: announcements of known infos, a request and a filter. -/
def Greeting (r : Router) (p : PeerId) (effect : Effect) : Prop :=
  (∃ ann : RouterAnnounce, effect = .send p (.announce ann) ∧
      r.infos.lookup ann.key = some ann.info) ∨
    (∃ req, effect = .send p (.sigReq req)) ∨ ∃ b, effect = .send p (.bloom b)

theorem resend_spec (known : ∀ key ∈ r.sentTo p.key, key ∈ r.infos) :
    ∃ new, r.resend p = some { r with effects := r.effects ++ new } ∧
      (∀ effect ∈ new, Greeting r p effect) ∧
        ∀ key ∈ r.sentTo p.key, ∃ ann : RouterAnnounce, ann.key = key ∧
          .send p (.announce ann) ∈ new ∧ r.infos.lookup key = some ann.info := by
  rw [resend]
  generalize r.sentTo p.key = keys at known
  have loop : ∀ (keys : List PublicKey) (before : List Effect), (∀ key ∈ keys, key ∈ r.infos) →
      ∃ new, keys.foldlM
          (fun (r : Router) k =>
            (r.infos.lookup k).map fun info => r.send p (.announce (info.getAnnounce k)))
          { r with effects := before } = some { r with effects := before ++ new } ∧
        (∀ effect ∈ new, Greeting r p effect) ∧
          ∀ key ∈ keys, ∃ ann : RouterAnnounce, ann.key = key ∧
            .send p (.announce ann) ∈ new ∧ r.infos.lookup key = some ann.info := by
    intro keys
    induction keys with
    | nil =>
        intro before _
        exact ⟨[], by simp, by simp, by simp⟩
    | cons key keys ih =>
        intro before known
        obtain ⟨info, found⟩ := Map.mem_iff.mp (known key List.mem_cons_self)
        obtain ⟨new, result, greetings, all⟩ :=
          ih (before ++ [.send p (.announce (info.getAnnounce key))])
            fun key later => known key (List.mem_cons_of_mem _ later)
        refine ⟨.send p (.announce (info.getAnnounce key)) :: new, ?_, ?_, ?_⟩
        · rw [List.foldlM_cons, found]
          refine result.trans ?_
          rw [List.append_assoc, List.singleton_append]
        · intro effect present
          rcases List.mem_cons.mp present with rfl | later
          · exact .inl ⟨info.getAnnounce key, rfl, found⟩
          · exact greetings effect later
        · intro other present
          rcases List.mem_cons.mp present with rfl | later
          · exact ⟨info.getAnnounce other, rfl, List.mem_cons_self, found⟩
          · obtain ⟨ann, named, sent, right⟩ := all other later
            exact ⟨ann, named, List.mem_cons_of_mem _ sent, right⟩
  exact loop keys r.effects known

theorem requestFor_spec (core : Core) (r : Router) (key : PublicKey) :
    (r.requestFor core key).2 = { r with
      requests := (r.requestFor core key).2.requests
      drawn := (r.requestFor core key).2.drawn } := by
  rw [requestFor]
  split
  · rfl
  · rfl

theorem greet_spec (core : Core) (p : PeerId) (present : p.key ∈ r.blooms) :
    ∃ r' req b, r.greet core p = some r' ∧
      r' = { r with
        peers := r.peers.insert p.key ((r.links p.key).insert p)
        lags := r'.lags, requests := r'.requests, responded := r'.responded, drawn := r'.drawn
        effects := r.effects ++ [.send p (.sigReq req), .send p (.bloom b)] } := by
  obtain ⟨pbi, found⟩ := Map.mem_iff.mp present
  have rest := requestFor_spec core { r with
    peers := r.peers.insert p.key ((r.links p.key).insert p)
    lags := r.lags.insert p routerUnknownLatency } p.key
  rw [greet]
  dsimp only
  generalize Router.requestFor core { r with
    peers := r.peers.insert p.key ((r.links p.key).insert p)
    lags := r.lags.insert p routerUnknownLatency } p.key = requested at rest ⊢
  obtain ⟨req, r₁⟩ := requested
  dsimp only at rest ⊢
  rw [rest, sendBloom]
  simp only [send, found, Option.bind_eq_bind, Option.bind_some]
  exact ⟨_, req, pbi.send, rfl, by simp⟩

/-- `addPeer` does not panic.  The link is added, and a node that was no peer before has been sent
nothing yet; a node that was is sent again over the new link what it has been sent. -/
theorem addPeer_spec (core : Core) (tidy : Tidy r) (p : PeerId) :
    ∃ r' new, r.addPeer core p = some r' ∧
      r' = { r with
        peers := r.peers.insert p.key ((r.links p.key).insert p)
        sent := if p.key ∈ r.peers then r.sent else r.sent.insert p.key []
        blooms := r'.blooms, lags := r'.lags, requests := r'.requests
        responded := r'.responded, drawn := r'.drawn, effects := r.effects ++ new } ∧
      (∀ key, key ∈ r'.blooms ↔ key = p.key ∨ key ∈ r.blooms) ∧
        (∀ effect ∈ new, Greeting r p effect) ∧
          (p.key ∈ r.peers → ∀ key ∈ r.sentTo p.key, ∃ ann : RouterAnnounce, ann.key = key ∧
            .send p (.announce ann) ∈ new ∧ r.infos.lookup key = some ann.info) := by
  have hello : ∀ {req b effect}, effect ∈ [Effect.send p (.sigReq req), .send p (.bloom b)] →
      Greeting r p effect := by
    intro req b effect present
    rcases List.mem_cons.mp present with rfl | present
    · exact .inr (.inl ⟨req, rfl⟩)
    · exact .inr (.inr ⟨b, List.mem_singleton.mp present⟩)
  rw [addPeer, enroll]
  split
  · rename_i isPeer
    obtain ⟨new, resent, greetings, all⟩ := @resend_spec r p fun key => tidy.sent
    obtain ⟨r', req, b, greeted, rest⟩ :=
      greet_spec core (r := { r with effects := r.effects ++ new }) p
        ((tidy.bloomKeys p.key).mpr isPeer)
    refine ⟨r', new ++ [.send p (.sigReq req), .send p (.bloom b)], ?_, ?_, ?_, ?_, ?_⟩
    · rw [resent, Option.bind_some, greeted]
    · rw [rest]
      simp [links]
    · intro key
      rw [rest]
      exact ⟨.inr, fun present =>
        present.elim (fun same => same ▸ (tidy.bloomKeys p.key).mpr isPeer) id⟩
    · intro effect present
      exact (List.mem_append.mp present).elim (greetings effect) hello
    · intro _ key present
      obtain ⟨ann, named, sent, right⟩ := all key present
      exact ⟨ann, named, List.mem_append_left _ sent, right⟩
  · rename_i newPeer
    obtain ⟨r', req, b, greeted, rest⟩ := greet_spec core
      (r := ({ r with
        peers := r.peers.insert p.key [], sent := r.sent.insert p.key [] }).addInfo p.key) p
      (by simp [addInfo])
    refine ⟨r', [.send p (.sigReq req), .send p (.bloom b)], ?_, ?_, ?_, ?_, ?_⟩
    · rw [Option.bind_some, greeted]
    · rw [rest]
      simp [links, addInfo, AList.lookup_eq_none.mpr newPeer]
    · intro key
      rw [rest]
      simp [addInfo]
    · intro effect present
      exact hello present
    · exact fun isPeer => absurd isPeer newPeer

theorem mem_links {key : PublicKey} :
    p ∈ r.links key ↔ ∃ ps, r.peers.lookup key = some ps ∧ p ∈ ps := by
  rw [links]
  cases r.peers.lookup key with
  | none => simp
  | some ps => simp

theorem Sane.addPeer (sane : Sane core r) (p : PeerId) :
    ∃ r', r.addPeer core p = some r' ∧ Sane core r' := by
  obtain ⟨r', new, added, rest, blooms, -, -⟩ := addPeer_spec core sane.toTidy p
  refine ⟨r', added, ⟨fun key => ?_, fun key => ?_, ?_, ?_, ?_, ?_⟩, ?_⟩
  · rw [rest, AList.mem_insert]
    dsimp only
    split
    · rename_i isPeer
      rw [sane.sentKeys]
      exact ⟨.inr, fun present => present.elim (fun same => same ▸ isPeer) id⟩
    · rw [AList.mem_insert, sane.sentKeys]
  · rw [blooms, sane.bloomKeys, rest, AList.mem_insert]
  · intro key ps found
    rw [rest, Map.lookup_insert_eq] at found
    split at found
    · rename_i same
      cases found
      refine ⟨List.ne_nil_of_mem (List.mem_insert_self), fun q present => ?_⟩
      rcases List.mem_insert_iff.mp present with rfl | before
      · exact same.symm
      · obtain ⟨qs, listed, before⟩ := mem_links.mp before
        exact same ▸ (sane.links listed).2 q before
    · exact sane.links found
  · intro peer key present
    rw [rest] at present ⊢
    obtain ⟨sent, found, present⟩ := mem_sentTo.mp present
    dsimp only at found
    split at found
    · exact sane.sent (mem_sentTo.mpr ⟨sent, found, present⟩)
    · rw [Map.lookup_insert_eq] at found
      split at found
      · cases found
        cases present
      · exact sane.sent (mem_sentTo.mpr ⟨sent, found, present⟩)
  · rw [rest]
    exact sane.coherent
  · rw [rest]
    exact sane.waiting
  · rw [rest]
    exact sane.own

/-- `removePeer` does not panic: the link is gone, and with the last one all maps of the peer. -/
theorem Sane.removePeer (sane : Sane core r) (p : PeerId) :
    ∃ r', r.removePeer p = some r' ∧ Sane core r' := by
  rw [Router.removePeer]
  dsimp only
  split
  · refine ⟨_, rfl, ⟨fun key => ?_, fun key => ?_, ?_, ?_, ?_, sane.waiting⟩, sane.own⟩
    · rw [removeInfo, AList.mem_erase, AList.mem_erase, sane.sentKeys]
    · rw [removeInfo, AList.mem_erase, AList.mem_erase, sane.bloomKeys]
    · intro key ps found
      rw [removeInfo, Map.lookup_erase_eq] at found
      split at found
      · cases found
      · exact sane.links found
    · intro peer key present
      obtain ⟨sent, found, present⟩ := mem_sentTo.mp present
      rw [removeInfo, Map.lookup_erase_eq] at found
      split at found
      · cases found
      · exact sane.sent (mem_sentTo.mpr ⟨sent, found, present⟩)
    · intro key path found
      rw [removeInfo, Map.lookup_erase_eq] at found
      split at found
      · cases found
      · exact sane.coherent key path found
  · rename_i others
    have isPeer : p.key ∈ r.peers := by
      by_contra absent
      apply others
      rw [links, AList.lookup_eq_none.mpr absent]
      rfl
    obtain ⟨ps, listed⟩ := Map.mem_iff.mp isPeer
    have present : p.key ∈ r.blooms := (sane.bloomKeys p.key).mpr isPeer
    -- every other link has the same key, so its filter is there
    have start : Sane core { r with
        lags := r.lags.erase p, responded := r.responded.filter (· ≠ p)
        peers := r.peers.insert p.key ((r.links p.key).filter (· ≠ p)) } := by
      refine ⟨⟨fun key => ?_, fun key => ?_, ?_, sane.sent, sane.coherent, sane.waiting⟩, sane.own⟩
      · rw [Map.mem_insert_of_mem isPeer, sane.sentKeys]
      · rw [Map.mem_insert_of_mem isPeer, sane.bloomKeys]
      · intro key qs found
        rw [Map.lookup_insert_eq] at found
        split at found
        · rename_i same
          cases found
          refine ⟨fun none => others (by rw [none]; rfl), fun q remaining => ?_⟩
          obtain ⟨qs, listed', before⟩ := mem_links.mp (List.mem_filter.mp remaining).1
          exact same ▸ (sane.links listed').2 q before
        · exact sane.links found
    obtain ⟨r', sent, sane', -⟩ := @exists_foldlM Router PeerId sendBloom
      (fun s => Sane core s ∧ p.key ∈ s.blooms) _ ((r.links p.key).filter (· ≠ p))
      ⟨start, present⟩ (by
        rintro s q remaining ⟨saneNow, here⟩
        obtain ⟨qs, listed', before⟩ := mem_links.mp (List.mem_filter.mp remaining).1
        have same : q.key = p.key := (sane.links listed').2 q before
        obtain ⟨pbi, found⟩ := Map.mem_iff.mp here
        refine ⟨s.send q (.bloom pbi.send), ?_, saneNow.of_eq rfl, here⟩
        rw [sendBloom, same, found]
        rfl)
    exact ⟨r', sent, sane'⟩

/-! ## Messages -/

theorem Sane.handleRequest (sane : Sane core r) (p : PeerId) (req : RouterSigReq) :
    ∃ r', r.handleRequest core p req = some r' ∧ Sane core r' := by
  rw [Router.handleRequest, RouterSigRes.bytesForSig_eq]
  exact ⟨_, rfl, sane.of_eq rfl⟩

theorem Sane.handleResponse (sane : Sane core r) (p : PeerId) (res : RouterSigRes) (rtt : Int64) :
    Sane core (r.handleResponse p res rtt) := by
  rw [Router.handleResponse]
  split
  · split
    · exact sane.of_eq rfl
    · exact sane.of_eq rfl
  · split
    · exact sane.of_eq rfl
    · exact sane

theorem Sane.handleBloom (sane : Sane core r) (p : PeerId) (b : Bloom) :
    Sane core (r.handleBloom p b) := by
  rw [Router.handleBloom]
  split
  · rename_i pbi found
    exact sane.insertBloom (Map.mem_of_lookup found) _
  · exact sane

theorem Sane.timerFired (sane : Sane core r) (key : PublicKey) (timer : Nat) :
    Sane core (r.timerFired core key timer) := by
  rw [Router.timerFired]
  split
  · split
    · exact sane.of_eq rfl
    · rename_i other
      refine ⟨⟨fun peer => ?_, sane.bloomKeys, sane.links, ?_, coherent_of_empty rfl,
        sane.waiting⟩, ?_⟩
      · rw [Map.mem_mapValues]
        exact sane.sentKeys peer
      · intro peer key' present
        obtain ⟨sent, found, present⟩ := mem_sentTo.mp present
        rw [Map.lookup_mapValues] at found
        obtain ⟨old, before, rfl⟩ := Option.map_eq_some_iff.mp found
        obtain ⟨present, different⟩ := List.mem_filter.mp present
        rw [AList.mem_erase]
        exact ⟨by simpa using different, sane.sent (mem_sentTo.mpr ⟨old, before, present⟩)⟩
      · rw [AList.mem_erase]
        exact ⟨fun same => other same.symm, sane.own⟩
  · exact sane

/-! ## Paths -/

/-- The router is sane, and no rumor was forgotten. -/
structure Keeps (core : Core) (r r' : Router) : Prop extends Sane core r' where
  rumors : ∀ {xform}, xform ∈ r.rumors → xform ∈ r'.rumors

theorem Sane.keeps (sane : Sane core r) : Keeps core r r := ⟨sane, id⟩

theorem Keeps.trans {r'' : Router} (first : Keeps core r r') (second : Keeps core r' r'') :
    Keeps core r r'' :=
  ⟨second.toSane, second.rumors ∘ first.rumors⟩

/-- Steps aside keep the router sane as far as the waiting traffic is right. -/
theorem Sane.aside {allowed : Effect → Bool} (sane : Sane core r) (aside : Aside allowed r r')
    (waiting : ∀ {key info tr}, r'.paths.lookup key = some info → info.traffic = some tr →
      tr.dest = key) : Sane core r' := by
  have coherent := aside.coherent sane.coherent
  rw [aside.rest] at coherent waiting ⊢
  exact ⟨⟨sane.sentKeys, sane.bloomKeys, sane.links, sane.sent, coherent, waiting⟩, sane.own⟩

theorem Sane.recached (sane : Sane core r) (recached : Recached r r') : Keeps core r r' := by
  have paths : r'.paths = r.paths := by rw [recached.rest]
  have rumors : r'.rumors = r.rumors := by rw [recached.rest]
  have aside : Aside Effect.inside r r' := .of_recached recached
  refine ⟨sane.aside aside ?_, ?_⟩
  · rw [paths]
    exact sane.waiting
  · rw [rumors]
    exact id

theorem bestLink_isSome {ps : List PeerId} (nonempty : ps ≠ []) :
    ∃ best, bestLink ps = some best := by
  obtain ⟨first, rest, rfl⟩ := List.exists_cons_of_ne_nil nonempty
  have loop : ∀ (rest : List PeerId) (best : PeerId), ∃ best', rest.foldl
      betterLink (some best) = some best' := by
    intro rest
    induction rest with
    | nil => exact fun best => ⟨best, rfl⟩
    | cons p rest ih =>
        intro best
        rw [List.foldl_cons]
        dsimp only [betterLink]
        split
        · exact ih p
        · exact ih best
  exact loop rest first

/-- `_sendMulticast` does not panic, and only sends. -/
theorem sendMulticast_spec (core : Core) (tidy : Tidy r) (packet : Message)
    (fromKey toKey : PublicKey) :
    ∃ new, r.sendMulticast core packet fromKey toKey =
      some { r with effects := r.effects ++ new } := by
  have start : ∃ new, r = { r with effects := r.effects ++ new } := ⟨[], by simp⟩
  obtain ⟨r', sent, new, rest⟩ := @exists_foldlM Router (PublicKey × BloomInfo)
    (sendMulticastTo core packet fromKey toKey)
    (fun s => ∃ new, s = { r with effects := r.effects ++ new }) r r.blooms.toList start (by
      rintro s ⟨k, pbi⟩ entry ⟨new, rfl⟩
      have isPeer := (tidy.bloomKeys k).mp (Map.mem_of_lookup (Map.mem_toList.mp entry))
      obtain ⟨ps, listed⟩ := Map.mem_iff.mp isPeer
      obtain ⟨best, chosen⟩ := bestLink_isSome (tidy.links listed).1
      have linked : ({ r with effects := r.effects ++ new } : Router).links k = ps := by
        rw [links, listed]
        rfl
      rw [sendMulticastTo]
      split
      · exact ⟨_, rfl, new, rfl⟩
      · split
        · exact ⟨_, rfl, new, rfl⟩
        · split
          · exact ⟨_, rfl, new, rfl⟩
          · rw [linked, chosen]
            exact ⟨_, rfl, new ++ [.send best packet], by simp [send]⟩)
  exact ⟨new, by rw [Router.sendMulticast, sent, rest]⟩

/-- The new entry for a source has traffic for the source only. -/
theorem acceptNotify_spec {notify : PathNotify} {info : PathInfo} (tidy : Tidy r)
    (accepted : r.acceptNotify core now notify = some (info, r')) :
    r'.paths = r.paths ∧ (∀ {xform}, xform ∈ r.rumors → xform ∈ r'.rumors) ∧
      ∀ tr, info.traffic = some tr → tr.dest = notify.source := by
  rw [acceptNotify] at accepted
  split at accepted
  · rename_i known found
    split at accepted
    · cases accepted
    · split at accepted
      · cases accepted
      · split at accepted
        · cases accepted
        · cases accepted
          exact ⟨rfl, id, fun tr waits => tidy.waiting found waits⟩
  · split at accepted
    · rename_i rumor found
      split at accepted
      · cases accepted
      · dsimp only [startTimer] at accepted
        split at accepted
        · split at accepted
          · rename_i tr _ same
            cases accepted
            refine ⟨rfl, fun present => (AList.mem_insert _).mpr (.inr present),
              fun tr' waits => ?_⟩
            cases waits
            exact same
          · cases accepted
            exact ⟨rfl, id, fun tr waits => by cases waits⟩
        · cases accepted
          exact ⟨rfl, id, fun tr waits => by cases waits⟩
    · cases accepted

theorem Sane.forward (sane : Sane core r) (tr : Traffic) (info : PathInfo) :
    Keeps core r (r.forward core tr info) := by
  refine ⟨sane.aside (forward_aside r tr info) ?_, id⟩
  intro key info' tr' found waits
  rw [Router.forward, Map.lookup_insert_eq] at found
  split at found
  · rename_i same
    cases found
    cases waits
    exact same.symm
  · exact sane.waiting found waits

theorem Sane.receiveNotify (sane : Sane core r) (now : Now) (notify : PathNotify) :
    ∃ r', r.receiveNotify core now notify = some r' ∧ Keeps core r r' := by
  rw [Router.receiveNotify]
  split
  · exact ⟨r, rfl, sane.keeps⟩
  · cases accepted : r.acceptNotify core now notify with
    | none => exact ⟨r, rfl, sane.keeps⟩
    | some pair =>
        obtain ⟨info, r₁⟩ := pair
        obtain ⟨paths, rumors, right⟩ := acceptNotify_spec sane.toTidy accepted
        have sane₁ : Sane core r₁ := by
          refine sane.aside (acceptNotify_aside accepted) ?_
          rw [paths]
          exact sane.waiting
        -- the new entry has no traffic that waits
        have stored : Keeps core r { r₁ with
            paths := r₁.paths.insert notify.source { info with
              path := notify.info.path, seq := notify.info.seq, broken := false, traffic := none }
            effects := r₁.effects ++ [.pathNotify notify.source] } := by
          refine ⟨⟨⟨sane₁.sentKeys, sane₁.bloomKeys, sane₁.links, sane₁.sent, sane₁.coherent, ?_⟩,
            sane₁.own⟩, rumors⟩
          intro key info' tr found waits
          rw [Map.lookup_insert_eq] at found
          split at found
          · cases found
            cases waits
          · exact sane₁.waiting found waits
        dsimp only
        cases waits : info.traffic with
        | none => exact ⟨_, rfl, stored⟩
        | some tr =>
            dsimp only
            rw [right tr waits, AList.lookup_insert]
            exact ⟨_, rfl, stored.trans (stored.toSane.forward tr _)⟩

theorem Sane.handleNotify (sane : Sane core r) (now : Now) (notify : PathNotify) :
    ∃ r', r.handleNotify core now notify = some r' ∧ Keeps core r r' := by
  have kept := sane.recached (r.lookup_recached core notify.path notify.watermark)
  rw [Router.handleNotify]
  split
  · rename_i p watermark r₁ found
    rw [found] at kept
    exact ⟨_, rfl, kept.toSane.of_eq rfl, kept.rumors⟩
  · rename_i watermark r₁ found
    rw [found] at kept
    obtain ⟨r', received, kept'⟩ :=
      kept.toSane.receiveNotify now { notify with watermark := watermark }
    exact ⟨r', received, kept.trans kept'⟩

theorem Sane.handleLookup (sane : Sane core r) (now : Now) (fromKey : PublicKey)
    (lookup : PathLookup) :
    ∃ r', r.handleLookup core now fromKey lookup = some r' ∧ Keeps core r r' := by
  obtain ⟨new, sent⟩ :=
    sendMulticast_spec core sane.toTidy (.pathLookup lookup) fromKey lookup.dest
  rw [Router.handleLookup, sent, Option.bind_eq_bind, Option.bind_some]
  split
  · have start : ∀ info, Sane core { r with effects := r.effects ++ new, info := info } := fun _ =>
      sane.of_eq rfl
    obtain ⟨r', handled, kept⟩ := (start _).handleNotify now _
    exact ⟨r', handled, kept.toSane, kept.rumors⟩
  · exact ⟨_, rfl, sane.of_eq rfl, id⟩

theorem Sane.sendLookup (sane : Sane core r) (now : Now) (dest : PublicKey) :
    ∃ r', r.sendLookup core now dest = some r' ∧ Keeps core r r' := by
  rw [Router.sendLookup]
  split
  · split
    · exact ⟨r, rfl, sane.keeps⟩
    · exact sane.handleLookup now _ _
  · exact sane.handleLookup now _ _

/-- After `_rumorSendLookup` there is a rumor of the destination. -/
theorem Sane.rumorSendLookup (sane : Sane core r) (now : Now) (dest : PublicKey) :
    ∃ r', r.rumorSendLookup core now dest = some r' ∧ Keeps core r r' ∧
      xKey core dest ∈ r'.rumors := by
  rw [Router.rumorSendLookup]
  dsimp only [startTimer]
  split
  · rename_i rumor found
    split
    · exact ⟨r, rfl, sane.keeps, Map.mem_of_lookup found⟩
    · have start : Sane core { r with
          rumors := r.rumors.insert (xKey core dest) { rumor with sendTime := now.mono } } :=
        sane.of_eq rfl
      obtain ⟨r', sent, kept⟩ := start.sendLookup now dest
      exact ⟨r', sent,
        ⟨kept.toSane, fun present => kept.rumors ((AList.mem_insert _).mpr (.inr present))⟩,
        kept.rumors ((AList.mem_insert _).mpr (.inl rfl))⟩
  · have start : Sane core { r with
        newTimer := r.newTimer + 1
        rumors := r.rumors.insert (xKey core dest) ⟨none, now.mono, r.newTimer⟩ } :=
      sane.of_eq rfl
    obtain ⟨r', sent, kept⟩ := start.sendLookup now dest
    exact ⟨r', sent,
      ⟨kept.toSane, fun present => kept.rumors ((AList.mem_insert _).mpr (.inr present))⟩,
      kept.rumors ((AList.mem_insert _).mpr (.inl rfl))⟩

theorem Sane.sendTraffic (sane : Sane core r) (now : Now) (tr : Traffic) :
    ∃ r', r.sendTraffic core now tr = some r' ∧ Sane core r' := by
  rw [Router.sendTraffic]
  split
  · exact ⟨_, rfl, (sane.forward tr _).toSane⟩
  · obtain ⟨r₁, sent, kept, present⟩ := sane.rumorSendLookup now tr.dest
    obtain ⟨rumor, found⟩ := Map.mem_iff.mp present
    simp only [sent, found, Option.bind_eq_bind, Option.bind_some]
    exact ⟨_, rfl, kept.toSane.of_eq rfl⟩

theorem Sane.receiveBroken (sane : Sane core r) (now : Now) (broken : PathBroken) :
    ∃ r', r.receiveBroken core now broken = some r' ∧ Sane core r' := by
  rw [Router.receiveBroken]
  split
  · exact ⟨r, rfl, sane⟩
  · split
    · rename_i info found
      have start : Sane core { r with
          paths := r.paths.insert broken.dest { info with broken := true } } := by
        refine ⟨⟨sane.sentKeys, sane.bloomKeys, sane.links, sane.sent, sane.coherent, ?_⟩, sane.own⟩
        intro key info' tr found' waits
        rw [Map.lookup_insert_eq] at found'
        split at found'
        · rename_i same
          cases found'
          exact same ▸ sane.waiting found waits
        · exact sane.waiting found' waits
      obtain ⟨r', sent, kept⟩ := start.sendLookup now broken.dest
      exact ⟨r', sent, kept.toSane⟩
    · exact ⟨r, rfl, sane⟩

theorem Sane.handleBroken (sane : Sane core r) (now : Now) (broken : PathBroken) :
    ∃ r', r.handleBroken core now broken = some r' ∧ Sane core r' := by
  have kept := sane.recached (r.lookup_recached core broken.path broken.watermark)
  rw [Router.handleBroken]
  split
  · rename_i p watermark r₁ found
    rw [found] at kept
    exact ⟨_, rfl, kept.toSane.of_eq rfl⟩
  · rename_i watermark r₁ found
    rw [found] at kept
    exact kept.toSane.receiveBroken now { broken with watermark := watermark }

theorem Sane.handleTraffic (sane : Sane core r) (now : Now) (tr : Traffic) :
    ∃ r', r.handleTraffic core now tr = some r' ∧ Sane core r' := by
  have kept := sane.recached (r.lookup_recached core tr.path tr.watermark)
  rw [Router.handleTraffic]
  split
  · rename_i p watermark r₁ found
    rw [found] at kept
    exact ⟨_, rfl, kept.toSane.of_eq rfl⟩
  · rename_i watermark r₁ found
    rw [found] at kept
    rw [receiveTraffic]
    split
    · exact ⟨_, rfl, kept.toSane.of_eq rfl⟩
    · exact kept.toSane.handleBroken now _

/-! ## Loops in any order -/

theorem mem_sentTo_reorder (r : Router) (keys : PublicKey → PublicKey → Bool)
    (links : PeerId → PeerId → Bool) {peer key : PublicKey} :
    key ∈ (r.reorder keys links).sentTo peer ↔ key ∈ r.sentTo peer := by
  rw [mem_sentTo, mem_sentTo, reorder, Map.lookup_reorder, Map.lookup_mapValues]
  cases r.sent.lookup peer with
  | none => simp
  | some sent => simp

theorem Sane.reorder (sane : Sane core r) (keys : PublicKey → PublicKey → Bool)
    (links : PeerId → PeerId → Bool) : Sane core (r.reorder keys links) := by
  refine ⟨⟨fun key => ?_, fun key => ?_, ?_, ?_, sane.coherent, sane.waiting⟩, sane.own⟩
  · rw [Router.reorder, Map.mem_reorder, Map.mem_reorder, Map.mem_mapValues, Map.mem_mapValues]
    exact sane.sentKeys key
  · rw [Router.reorder, Map.mem_reorder, Map.mem_reorder, Map.mem_mapValues]
    exact sane.bloomKeys key
  · intro key ps listed
    rw [Router.reorder, Map.lookup_reorder, Map.lookup_mapValues] at listed
    obtain ⟨before, found, rfl⟩ := Option.map_eq_some_iff.mp listed
    have same := List.perm_insertionSort (fun p q => links p q = true) before
    obtain ⟨nonempty, named⟩ := sane.links found
    refine ⟨fun none => nonempty ?_, fun p present => named p (same.mem_iff.mp present)⟩
    rw [none] at same
    exact same.symm.eq_nil
  · intro peer key present
    exact sane.sent ((r.mem_sentTo_reorder keys links).mp present)

/-! ## Runs -/

theorem Sane.receive (sane : Sane core r) (isPeer : p.key ∈ r.peers) (message : Message) (now : Now)
    (rtt : Int64) : ∃ r', r.receive core p now rtt message = some r' ∧ Sane core r' := by
  cases message with
  | dummy => exact ⟨r, rfl, sane⟩
  | keepAlive => exact ⟨r, rfl, sane⟩
  | sigReq req => exact sane.handleRequest p req
  | sigRes res =>
      rw [Router.receive]
      split
      · exact ⟨_, rfl, sane.handleResponse p res rtt⟩
      · exact ⟨r, rfl, sane⟩
  | announce ann =>
      rw [Router.receive]
      split
      · exact sane.handleAnnounce isPeer
      · exact ⟨r, rfl, sane⟩
  | bloom b => exact ⟨_, rfl, sane.handleBloom p b⟩
  | pathLookup lookup =>
      rw [Router.receive, handlePeerLookup]
      split
      · exact ⟨r, rfl, sane⟩
      · obtain ⟨r', handled, kept⟩ := sane.handleLookup now p.key lookup
        exact ⟨r', handled, kept.toSane⟩
  | pathNotify notify =>
      obtain ⟨r', handled, kept⟩ := sane.handleNotify now notify
      exact ⟨r', handled, kept.toSane⟩
  | pathBroken broken => exact sane.handleBroken now broken
  | traffic tr => exact sane.handleTraffic now tr

theorem Sane.withPaths (sane : Sane core r) {paths : Map PublicKey PathInfo}
    (fewer : ∀ {key info}, paths.lookup key = some info → r.paths.lookup key = some info) :
    Sane core { r with paths := paths } :=
  ⟨⟨sane.sentKeys, sane.bloomKeys, sane.links, sane.sent, sane.coherent,
    fun found waits => sane.waiting (fewer found) waits⟩, sane.own⟩

/-- The order of events that the actors guarantee, and the sequence number of the router's own
info has not run out. -/
def Permitted (core : Core) (r : Router) : RouterEvent → Prop
  | .doMaintenance => ∀ info, r.infos.lookup core.publicKey = some info → info.seq ≠ allOnes
  | .receive p _ _ _ => p ∈ r.links p.key
  | _ => True

instance decidablePermitted (core : Core) (r : Router) (event : RouterEvent) :
    Decidable (Permitted core r event) :=
  match event with
  | .doMaintenance =>
      decidable_of_iff ((r.infos.lookup core.publicKey).all fun info => info.seq != allOnes) (by
        rw [Permitted]
        cases r.infos.lookup core.publicKey with
        | none => simp
        | some info => simp)
  | .receive p _ _ _ => inferInstanceAs (Decidable (p ∈ r.links p.key))
  | .addPeer _ | .removePeer _ | .handleTraffic _ _ | .sendTraffic _ _ | .sendLookup _ _
  | .timerFired _ _ | .pathTimedOut _ _ | .rumorTimedOut _ _ | .reorder _ _ => .isTrue trivial

theorem Sane.step (sane : Sane core r) (signs : core.Signs) {event : RouterEvent}
    (permitted : Permitted core r event) : ∃ r', step core r event = some r' ∧ Sane core r' := by
  cases event with
  | doMaintenance => exact sane.toTidy.doMaintenance signs (.inl sane.own) permitted
  | addPeer p => exact sane.addPeer p
  | removePeer p => exact sane.removePeer p
  | receive p message now rtt =>
      obtain ⟨ps, listed, -⟩ := mem_links.mp permitted
      exact sane.receive (Map.mem_of_lookup listed) message now rtt
  | handleTraffic tr now => exact sane.handleTraffic now tr
  | sendTraffic tr now => exact sane.sendTraffic now tr
  | sendLookup dest now =>
      obtain ⟨r', sent, kept, -⟩ := sane.rumorSendLookup now dest
      exact ⟨r', sent, kept.toSane⟩
  | timerFired key timer => exact ⟨_, rfl, sane.timerFired key timer⟩
  | pathTimedOut key timer =>
      refine ⟨_, rfl, ?_⟩
      rw [Router.pathTimedOut]
      split
      · split
        · refine sane.withPaths fun found => ?_
          rw [Map.lookup_erase_eq] at found
          split at found
          · cases found
          · exact found
        · exact sane
      · exact sane
  | rumorTimedOut xform timer =>
      refine ⟨_, rfl, ?_⟩
      rw [Router.rumorTimedOut]
      split
      · split
        · exact sane.of_eq rfl
        · exact sane
      · exact sane
  | reorder keys links => exact ⟨_, rfl, sane.reorder keys links⟩

theorem init_tidy (core : Core) : Tidy (init core) := by
  refine ⟨fun key => ?_, fun key => ?_, ?_, ?_, coherent_of_empty rfl, ?_⟩
  · rw [init, Map.mem_iff, Map.mem_iff]
    simp
  · rw [init, Map.mem_iff, Map.mem_iff]
    simp
  · intro key ps found
    simp [init] at found
  · intro peer key present
    simp [init, sentTo] at present
  · intro key info tr found
    simp [init] at found

/-- The router starts: its first message makes it a root. -/
theorem init_sane (signs : core.Signs) :
    ∃ r, (init core).doMaintenance core = some r ∧ Sane core r := by
  refine (init_tidy core).doMaintenance signs (.inr rfl) fun info found => ?_
  simp [init] at found

/-- Every state that a run reaches from the router's start is sane. -/
theorem sane_of_run (signs : core.Signs) {events : List RouterEvent}
    (started : (init core).doMaintenance core = some r)
    (allowed : Permits (step core) (Permitted core) r events)
    (ended : run (step core) r events = some r') : Sane core r' := by
  obtain ⟨r₀, started₀, sane⟩ := init_sane signs
  obtain rfl : r₀ = r := Option.some.inj (started₀.symm.trans started)
  obtain ⟨r₁, ended₁, sane'⟩ :=
    allowed.exists_run sane fun saneNow permitted => saneNow.step signs permitted
  obtain rfl : r₁ = r' := Option.some.inj (ended₁.symm.trans ended)
  exact sane'

/-- No run of the router's actor panics.  From its start on, with messages only from links that
are listed, every event has a result, as long as the sequence number of the router's own info has
not run out. -/
theorem run_never_panics (signs : core.Signs) (events : List RouterEvent)
    (allowed : ∀ r, (init core).doMaintenance core = some r →
      Permits (step core) (Permitted core) r events) :
    ∃ r r', (init core).doMaintenance core = some r ∧ run (step core) r events = some r' ∧
      Sane core r' := by
  obtain ⟨r, started, sane⟩ := init_sane signs
  obtain ⟨r', ended, sane'⟩ :=
    (allowed r started).exists_run sane fun saneNow permitted => saneNow.step signs permitted
  exact ⟨r, r', started, ended, sane'⟩

/-- The root gets a link to its child, which announces itself, and passes traffic on to it. -/
def routedTraffic : List RouterEvent :=
  [.addPeer ⟨plainKey 2, 1, 0, 0⟩,
    .receive ⟨plainKey 2, 1, 0, 0⟩
      (.announce ((plainInfo (plainKey 1) 1).getAnnounce (plainKey 2))) ⟨0, 0⟩ 0,
    .handleTraffic ⟨[1], [], plainKey 1, plainKey 2, allOnes, []⟩ ⟨0, 0⟩]

theorem routedTraffic_permits {r : Router}
    (started : (init (plainCore (plainKey 1))).doMaintenance (plainCore (plainKey 1)) = some r) :
    Permits (step (plainCore (plainKey 1))) (Permitted (plainCore (plainKey 1))) r
      routedTraffic := by
  have checked : ((init (plainCore (plainKey 1))).doMaintenance (plainCore (plainKey 1))).all
      (fun r => decide (Permits (step (plainCore (plainKey 1)))
        (Permitted (plainCore (plainKey 1))) r routedTraffic)) = true := by
    decide +kernel
  rw [started] at checked
  exact of_decide_eq_true checked

theorem run_never_panics_routed :
    ∃ r r', (init (plainCore (plainKey 1))).doMaintenance (plainCore (plainKey 1)) = some r ∧
      run (step (plainCore (plainKey 1))) r routedTraffic = some r' ∧
        Sane (plainCore (plainKey 1)) r' :=
  run_never_panics (fun _ => rfl) routedTraffic fun _ started => routedTraffic_permits started

/-- In every state that a run reaches, `_lookup` with its cache of paths does what a search without
a cache would do: it passes nothing on that has been as near, and else takes the best of the links
to peers that the infos now put nearer to the destination. -/
theorem run_lookup (signs : core.Signs) {events : List RouterEvent}
    (started : (init core).doMaintenance core = some r)
    (allowed : Permits (step core) (Permitted core) r events)
    (ended : run (step core) r events = some r') (path : List PeerPort) (watermark : UInt64) :
    (r'.lookup core path watermark).1 =
        (if r'.dist path core.publicKey < watermark then r'.nextHop core path else none) ∧
      (r'.lookup core path watermark).2.1 =
        if r'.dist path core.publicKey < watermark then r'.dist path core.publicKey
        else watermark := by
  rw [lookup_eq core (sane_of_run signs started allowed ended).coherent]
  split
  · exact ⟨rfl, rfl⟩
  · exact ⟨rfl, rfl⟩

/-- The traffic has filled the cache, and more of it would take the same link. -/
theorem run_lookup_routed :
    ∃ r r' : Router,
      (init (plainCore (plainKey 1))).doMaintenance (plainCore (plainKey 1)) = some r ∧
      run (step (plainCore (plainKey 1))) r routedTraffic = some r' ∧
      r'.peers.lookup (plainKey 2) = some [⟨plainKey 2, 1, 0, 0⟩] ∧
      r'.cache.lookup (plainKey 2) = some [1] ∧
      (r'.lookup (plainCore (plainKey 1)) [1] allOnes).1 = some ⟨plainKey 2, 1, 0, 0⟩ ∧
      ∀ (path : List PeerPort) (watermark : UInt64),
        (r'.lookup (plainCore (plainKey 1)) path watermark).1 =
            (if r'.dist path (plainKey 1) < watermark then r'.nextHop (plainCore (plainKey 1)) path
              else none) ∧
          (r'.lookup (plainCore (plainKey 1)) path watermark).2.1 =
            if r'.dist path (plainKey 1) < watermark then r'.dist path (plainKey 1)
            else watermark := by
  have filled : ((init (plainCore (plainKey 1))).doMaintenance (plainCore (plainKey 1))).bind
      (fun r => (run (step (plainCore (plainKey 1))) r routedTraffic).map fun r' =>
        (r'.peers.lookup (plainKey 2), r'.cache.lookup (plainKey 2),
          (r'.lookup (plainCore (plainKey 1)) [1] allOnes).1)) =
      some (some [⟨plainKey 2, 1, 0, 0⟩], some [1], some ⟨plainKey 2, 1, 0, 0⟩) := by
    decide +kernel
  obtain ⟨r, started, filled⟩ := Option.bind_eq_some_iff.mp filled
  obtain ⟨r', ended, same⟩ := Option.map_eq_some_iff.mp filled
  simp only [Prod.mk.injEq] at same
  exact ⟨r, r', started, ended, same.1, same.2.1, same.2.2,
    run_lookup (fun _ => rfl) started (routedTraffic_permits started) ended⟩

end Router

end Uqda.Network
