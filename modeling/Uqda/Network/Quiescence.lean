import Uqda.Network.Gossip

/-!
# When the announcements have settled

All infos of a node come from that node, and every new one is better than those before, so two
infos of the same rank are one.  Hence routers that have told each other all they know of their
ways to the root agree on these ways, and a network that has come to rest is settled: its parents
form one tree in each connected part.
-/

namespace Uqda.Network

open Uqda.Store Uqda.Graph Uqda.Transition

namespace Router

theorem not_atLeast_of_replaces {info : RouterInfo} {ann : RouterAnnounce}
    (better : replaces info ann = true) : ¬ AtLeast info ann.info := by
  rw [replaces] at better
  split at better
  · cases better
  · rename_i notLater
    split at better
    · rename_i later
      rintro (earlier | ⟨same, -⟩)
      · exact notLater earlier
      · exact UInt64.lt_irrefl _ (show info.seq < info.seq from same ▸ later)
    · split at better
      · cases better
      · rename_i notLower
        split at better
        · rename_i lower
          rintro (earlier | ⟨-, lower' | ⟨same, -⟩⟩)
          · exact notLater earlier
          · exact notLower lower'
          · have self : less info.parent info.parent = true := by
              have same : info.parent = ann.parent := same
              rw [← same] at lower
              exact lower
            rw [less_irrefl] at self
            cases self
        · have lower := of_decide_eq_true better
          rintro (earlier | ⟨-, lower' | ⟨-, nonce⟩⟩)
          · exact notLater earlier
          · exact notLower lower'
          · exact UInt64.not_lt.mpr nonce lower

/-- The router has an info of the key, in its table or on its way to a peer. -/
def Knows (r : Router) (key : PublicKey) (info : RouterInfo) : Prop :=
  r.infos.lookup key = some info ∨
    ∃ p ann, .send p (.announce ann) ∈ r.effects ∧ ann.key = key ∧ ann.info = info

/-- The only infos that a router makes are of itself, and a new one is not only as good as the one
before. -/
structure Invents (core : Core) (r r' : Router) : Prop where
  origin : ∀ {key info}, r'.Knows key info → r.Knows key info ∨
    key = core.publicKey ∧ r'.infos.lookup key = some info ∧
      ∀ own, r.infos.lookup key = some own → ¬ AtLeast own info

variable {core : Core} {r r' r'' : Router} {p : PeerId}

theorem Quiet.knows (quiet : Quiet r r') {key : PublicKey} {info : RouterInfo}
    (knows : r'.Knows key info) : r.Knows key info := by
  obtain ⟨new, added, all⟩ := quiet.effects
  rcases knows with found | ⟨q, ann, sent, named, same⟩
  · exact .inl (quiet.infos ▸ found)
  · rw [added] at sent
    rcases List.mem_append.mp sent with before | later
    · exact .inr ⟨q, ann, before, named, same⟩
    · cases all _ later

namespace Invents

theorem of_knows (less : ∀ {key info}, r'.Knows key info → r.Knows key info) : Invents core r r' :=
  ⟨fun knows => .inl (less knows)⟩

/-- Before a step that may make an info nothing has changed. -/
theorem after (second : Invents core r' r'') (quiet : Quiet r r') : Invents core r r'' := by
  refine ⟨fun {key info} knows => ?_⟩
  rcases second.origin knows with before | ⟨self, found, better⟩
  · exact .inl (quiet.knows before)
  · exact .inr ⟨self, found, fun own own' => better own (quiet.infos ▸ own')⟩

/-- After it, infos are only repeated. -/
theorem before (first : Invents core r r') (infos : r''.infos = r'.infos)
    (less : ∀ {key info}, r''.Knows key info → r'.Knows key info) : Invents core r r'' := by
  refine ⟨fun {key info} knows => ?_⟩
  rcases first.origin (less knows) with before | ⟨self, found, better⟩
  · exact .inl before
  · exact .inr ⟨self, infos ▸ found, better⟩

theorem update {ann : RouterAnnounce} (self : ann.key = core.publicKey)
    (updated : r.update ann = some r') : Invents core r r' := by
  have better : ∀ own, r.infos.lookup ann.key = some own → ¬ AtLeast own ann.info := by
    intro own found
    rw [Router.update, found] at updated
    dsimp only at updated
    split at updated
    · rename_i replaced
      exact not_atLeast_of_replaces replaced
    · cases updated
  rw [eq_store_of_update updated]
  refine ⟨fun {key info} knows => ?_⟩
  rcases knows with found | sent
  · rw [Router.store, Map.lookup_insert_eq] at found
    split at found
    · rename_i same
      cases found
      refine .inr ⟨same.trans self, ?_, same ▸ better⟩
      rw [same]
      exact AList.lookup_insert _
    · exact .inl (.inl found)
  · exact .inl (.inr sent)

theorem fix (fixed : r.fix core = some r') : Invents core r r' := by
  rw [Router.fix] at fixed
  split at fixed
  · split at fixed
    · rename_i r₁ adopted
      cases fixed
      have settled := Quiet.settle core r₁
      rw [adopt] at adopted
      split at adopted
      · split at adopted
        · rw [useResponse, RouterSigRes.bytesForSig_eq, Option.bind_eq_bind, Option.bind_some]
            at adopted
          exact (update rfl adopted).before settled.infos settled.knows
        · cases adopted
      · cases adopted
    · split at fixed
      · split at fixed
        · rename_i r₁ rooted
          cases fixed
          have settled := Quiet.settle core r₁
          rw [becomeRoot] at rooted
          simp only [Option.bind_eq_bind, Option.bind_eq_some_iff] at rooted
          obtain ⟨ann, made, good, -, rooted⟩ := rooted
          have self : ann.key = core.publicKey := by
            rw [rootAnnounce, RouterSigRes.bytesForSig_eq] at made
            cases made
            rfl
          split at rooted
          · cases rooted
          · have drawn : Quiet r (r.newReq core).2 := .of_eq rfl rfl rfl
            exact ((update self rooted).after drawn).before settled.infos settled.knows
        · cases fixed
      · split at fixed
        · cases fixed
          exact of_knows fun knows => knows
        · cases fixed
          exact of_knows fun knows => knows
  · cases fixed
    exact of_knows fun knows => knows

end Invents

/-- `_sendAnnounces` only repeats what is known. -/
theorem sendAnnounces_repeats (sent : r.sendAnnounces core = some r') :
    r'.infos = r.infos ∧ ∀ {key info}, r'.Knows key info → r.Knows key info := by
  obtain ⟨infos, repeats⟩ := @invariant_of_foldlM Router (PublicKey × List PublicKey) _
    (fun s => s.infos = r.infos ∧ ∀ p ann, .send p (.announce ann) ∈ s.effects →
      .send p (.announce ann) ∈ r.effects ∨ r.infos.lookup ann.key = some ann.info)
    r r' r.sent.toList sent ⟨rfl, fun _ _ present => .inl present⟩ (by
      rintro s ⟨peer, marked⟩ s' - ⟨infos, repeats⟩ stepped
      have known : ∀ key ∈ r.getAncestry core.publicKey, key ∈ s.infos := by
        intro key higher
        rw [infos]
        exact mem_getAncestry_known higher
      obtain ⟨anns, sent', result, -, right, -⟩ := @sendAnnouncesTo_spec s _ marked peer known
      rw [result] at stepped
      cases stepped
      rw [sendEach_eq]
      refine ⟨infos, fun p ann present => ?_⟩
      rcases List.mem_append.mp present with before | later
      · exact repeats p ann before
      · obtain ⟨q, -, present⟩ := List.mem_flatMap.mp later
        obtain ⟨message, among, same⟩ := List.mem_map.mp present
        obtain ⟨ann', made, rfl⟩ := List.mem_map.mp among
        cases same
        exact .inr (infos ▸ right ann made))
  refine ⟨infos, fun knows => ?_⟩
  rcases knows with found | ⟨q, ann, present, rfl, rfl⟩
  · exact .inl (infos ▸ found)
  · rcases repeats q ann present with before | found
    · exact .inr ⟨q, ann, before, rfl, rfl⟩
    · exact .inl found

theorem doMaintenance_invents (done : r.doMaintenance core = some r') : Invents core r r' := by
  rw [doMaintenance] at done
  simp only [Option.bind_eq_bind, Option.bind_eq_some_iff] at done
  obtain ⟨r₁, fixed, r₂, announced, r₃, onTree, sent⟩ := done
  have start : Quiet r (resetCache { r with doRoot2 := r.doRoot2 || r.doRoot1 }) :=
    .of_eq rfl rfl rfl
  obtain ⟨infos, repeats⟩ := sendAnnounces_repeats announced
  have blooms := (Quiet.fixOnTree onTree).trans (.sendAllBlooms sent)
  exact (((Invents.fix fixed).after start).before infos repeats).before blooms.infos blooms.knows

theorem addPeer_knows (tidy : Tidy r) (added : r.addPeer core p = some r') {key : PublicKey}
    {info : RouterInfo} (knows : r'.Knows key info) : r.Knows key info := by
  obtain ⟨r₁, new, added', rest, -, greetings, -⟩ := addPeer_spec core tidy p
  obtain rfl : r₁ = r' := Option.some.inj (added'.symm.trans added)
  rw [rest] at knows
  rcases knows with found | ⟨q, ann, sent, rfl, rfl⟩
  · exact .inl found
  · rcases List.mem_append.mp sent with before | later
    · exact .inr ⟨q, ann, before, rfl, rfl⟩
    · rcases greetings _ later with ⟨ann', same, found⟩ | ⟨req, same⟩ | ⟨b, same⟩
      · cases same
        exact .inl found
      · cases same
      · cases same

theorem step_invents (sane : Sane core r) {event : RouterEvent} (lasting : Lasting core event)
    (stepped : step core r event = some r') : Invents core r r' := by
  cases event with
  | doMaintenance => exact doMaintenance_invents stepped
  | addPeer p => exact .of_knows (addPeer_knows sane.toTidy stepped)
  | removePeer p => cases lasting
  | receive p message now rtt => cases lasting
  | handleTraffic tr now => exact .of_knows (Quiet.of_aside (handleTraffic_aside stepped)).knows
  | sendTraffic tr now =>
      exact .of_knows (Quiet.of_aside ((sendTraffic_aside stepped).mono fun _ answers =>
        Effect.routing_of_breaking (Effect.breaking_of_answering answers))).knows
  | sendLookup dest now =>
      exact .of_knows (Quiet.of_aside ((rumorSendLookup_aside stepped).mono fun _ answers =>
        Effect.routing_of_breaking (Effect.breaking_of_answering answers))).knows
  | timerFired key timer =>
      cases stepped
      rw [timerFired, if_pos (show key = core.publicKey from lasting)]
      split
      · exact .of_knows (Quiet.of_eq rfl rfl rfl).knows
      · exact .of_knows fun knows => knows
  | pathTimedOut key timer =>
      cases stepped
      rw [pathTimedOut]
      split
      · split
        · exact .of_knows (Quiet.of_eq rfl rfl rfl).knows
        · exact .of_knows fun knows => knows
      · exact .of_knows fun knows => knows
  | rumorTimedOut xform timer =>
      cases stepped
      rw [rumorTimedOut]
      split
      · split
        · exact .of_knows (Quiet.of_eq rfl rfl rfl).knows
        · exact .of_knows fun knows => knows
      · exact .of_knows fun knows => knows
  | reorder keys links =>
      cases stepped
      exact .of_knows fun knows => knows

/-- From an announcement a router learns nothing but what it says. -/
theorem handleAnnounce_knows {ann : RouterAnnounce}
    (handled : r.handleAnnounce core p ann = some r') {key : PublicKey} {info : RouterInfo}
    (knows : r'.Knows key info) : r.Knows key info ∨ key = ann.key ∧ info = ann.info := by
  rw [handleAnnounce] at handled
  split at handled
  · rename_i r₁ updated
    obtain ⟨infos, effects, -⟩ := markSent_spec handled
    have stored := eq_store_of_update updated
    have infos' : r'.infos = r.infos.insert ann.key ann.info := by
      rw [infos, stored]
      split
      · rfl
      · rfl
    have effects' : r'.effects = r.effects := by
      rw [effects, stored]
      split
      · rfl
      · rfl
    rcases knows with found | sent
    · rw [infos', Map.lookup_insert_eq] at found
      split at found
      · rename_i same
        cases found
        exact .inr ⟨same, rfl⟩
      · exact .inl (.inl found)
    · exact .inl (.inr (effects' ▸ sent))
  · rw [Option.bind_eq_bind, Option.bind_eq_some_iff] at handled
    obtain ⟨oldInfo, old, handled⟩ := handled
    rw [Option.bind_eq_bind, Option.bind_eq_some_iff] at handled
    obtain ⟨r₁, marked, handled⟩ := handled
    obtain ⟨infos, effects, -⟩ := markSent_spec marked
    split at handled
    · cases handled
      rcases knows with found | ⟨q, ann', sent, rfl, rfl⟩
      · exact .inl (.inl (infos ▸ found))
      · rcases List.mem_append.mp sent with before | later
        · exact .inl (.inr ⟨q, ann', effects ▸ before, rfl, rfl⟩)
        · cases List.mem_singleton.mp later
          exact .inl (.inl old)
    · cases handled
      rcases knows with found | sent
      · exact .inl (.inl (infos ▸ found))
      · exact .inl (.inr (effects ▸ sent))

/-! ## Ways up -/

/-- The infos lead from one key up to another, by so many parents that are all known. -/
inductive Above (infos : Map PublicKey RouterInfo) (start : PublicKey) : Nat → PublicKey → Prop
  | start {info : RouterInfo} : infos.lookup start = some info → Above infos start 0 start
  | parent {n : Nat} {key : PublicKey} {info info' : RouterInfo} : Above infos start n key →
      infos.lookup key = some info → infos.lookup info.parent = some info' →
        Above infos start (n + 1) info.parent

theorem Above.mem {start key : PublicKey} {n : Nat} (above : Above r.infos start n key) :
    key ∈ r.backwardsAncestry start := by
  induction above with
  | start found =>
      obtain ⟨rest, walk⟩ := backwardsAncestry_cons (Map.mem_of_lookup found)
      rw [walk]
      exact List.mem_cons_self
  | parent _ found found' ih =>
      have pointer := pointers_eq_some_iff.mpr ⟨_, found, rfl, rfl⟩
      have known := pointers_eq_some_iff.mpr ⟨_, found', rfl, rfl⟩
      exact ((r.backwardsAncestry_climb _).mem_parent ih pointer known).resolve_right
        List.not_mem_nil

theorem exists_above {start key : PublicKey} (here : key ∈ r.backwardsAncestry start) :
    ∃ n, Above r.infos start n key := by
  have walk := r.backwardsAncestry_climb start
  have all : ∀ other ∈ r.backwardsAncestry start, ∀ info, r.infos.lookup other = some info →
      ∃ n, Above r.infos start n other := by
    refine walk.forall_mem (fun info found => ⟨0, .start found⟩) ?_
    intro node parent port known pointer info found
    obtain ⟨info', found', rfl, -⟩ := pointers_eq_some_iff.mp pointer
    obtain ⟨n, above⟩ := known info' found'
    exact ⟨n + 1, .parent above found' found⟩
  obtain ⟨⟨parent, port⟩, pointer⟩ := walk.known key here
  obtain ⟨info, found, -, -⟩ := pointers_eq_some_iff.mp pointer
  exact all key here info found

/-- A way up starts with the parent. -/
theorem Above.head {infos : Map PublicKey RouterInfo} {start key : PublicKey} {n : Nat}
    (above : Above infos start (n + 1) key) :
    ∃ info info', infos.lookup start = some info ∧ infos.lookup info.parent = some info' ∧
      Above infos info.parent n key := by
  induction n generalizing key with
  | zero =>
      cases above with
      | parent before found found' =>
          cases before with
          | start _ => exact ⟨_, _, found, found', .start found'⟩
  | succ n ih =>
      cases above with
      | parent before found found' =>
          obtain ⟨info, info', first, second, rest⟩ := ih before
          exact ⟨info, info', first, second, .parent rest found found'⟩

end Router

/-! ## Whose infos they are -/

namespace Fleet

/-- Every info of a node is one that the node had, the best of them is its own now, and there are
no two of the same rank. -/
structure Genuine (net : Fleet) : Prop where
  self : ∀ node, (net.core node).publicKey = node
  top : ∀ {node key info own}, (net.router node).Knows key info →
    (net.router key).infos.lookup key = some own → AtLeast own info
  unique : ∀ {node node' key info info'}, (net.router node).Knows key info →
    (net.router node').Knows key info' → AtLeast info info' → AtLeast info' info → info = info'

namespace Genuine

variable {net net' : Fleet} {node : PublicKey} {r' : Router}

theorem own (genuine : net.Genuine) (told : net.Told) (node : PublicKey) :
    ∃ info, (net.router node).infos.lookup node = some info := by
  have present := (told.sane node).own
  rw [genuine.self node] at present
  exact Map.mem_iff.mp present

/-- If nobody makes an info and nobody's own gets worse, all stays as it is. -/
theorem of_origin (genuine : net.Genuine) (told : net.Told) (core : net'.core = net.core)
    (origin : ∀ {node key info}, (net'.router node).Knows key info →
      ∃ node', (net.router node').Knows key info)
    (grows : ∀ {key own}, (net.router key).infos.lookup key = some own →
      ∃ own', (net'.router key).infos.lookup key = some own' ∧ AtLeast own' own) :
    net'.Genuine where
  self node := by
    rw [core]
    exact genuine.self node
  top {node key info own'} knows found := by
    obtain ⟨node', before⟩ := origin knows
    obtain ⟨own, had⟩ := genuine.own told key
    obtain ⟨own'', found', better⟩ := grows had
    obtain rfl : own'' = own' := Option.some.inj (found'.symm.trans found)
    exact better.trans (genuine.top before had)
  unique knows knows' := by
    obtain ⟨_, before⟩ := origin knows
    obtain ⟨_, before'⟩ := origin knows'
    exact genuine.unique before before'

/-- A router does something on its own. -/
theorem invent (genuine : net.Genuine) (told : net.Told)
    (gossips : Router.Gossips (net.router node) r')
    (invents : Router.Invents (net.core node) (net.router node) r') :
    (net.put node r').Genuine := by
  obtain ⟨own, had⟩ := genuine.own told node
  -- an info is an old one, or the node's own that is better than the one before
  have origin : ∀ {other key info}, ((net.put node r').router other).Knows key info →
      (∃ node', (net.router node').Knows key info) ∨
        key = node ∧ r'.infos.lookup node = some info ∧ ¬ AtLeast own info := by
    intro other key info knows
    by_cases here : other = node
    · subst here
      rw [put_router_self] at knows
      rcases invents.origin knows with before | ⟨self, found, better⟩
      · exact .inl ⟨other, before⟩
      · rw [genuine.self other] at self
        subst self
        exact .inr ⟨rfl, found, better own had⟩
    · rw [put_router_ne net r' here] at knows
      exact .inl ⟨other, knows⟩
  have grows : ∀ {key own}, (net.router key).infos.lookup key = some own →
      ∃ own', ((net.put node r').router key).infos.lookup key = some own' ∧ AtLeast own' own :=
    fun found => Told.covers_put gossips.grows ⟨_, found, .refl _⟩
  refine ⟨genuine.self, fun {other key info own'} knows found => ?_,
    fun {first second key info info'} knows knows' better better' => ?_⟩
  · rcases origin knows with ⟨node', before⟩ | ⟨rfl, found', -⟩
    · obtain ⟨before', had'⟩ := genuine.own told key
      obtain ⟨own'', found', better⟩ := grows had'
      obtain rfl : own'' = own' := Option.some.inj (found'.symm.trans found)
      exact better.trans (genuine.top before had')
    · rw [put_router_self] at found
      obtain rfl : own' = info := Option.some.inj (found.symm.trans found')
      exact .refl _
  · rcases origin knows with ⟨_, before⟩ | ⟨rfl, found, strict⟩
    · rcases origin knows' with ⟨_, before'⟩ | ⟨rfl, found', strict'⟩
      · exact genuine.unique before before' better better'
      · exact absurd ((genuine.top before had).trans better) strict'
    · rcases origin knows' with ⟨_, before'⟩ | ⟨-, found', -⟩
      · exact absurd ((genuine.top before' had).trans better') strict
      · exact Option.some.inj (found.symm.trans found')

/-- Nobody learns anything when a message is taken from its sender. -/
theorem knows_of_take {effect : Effect} {other key : PublicKey} {info : RouterInfo}
    (knows : ((net.put node ((net.router node).take effect)).router other).Knows key info) :
    (net.router other).Knows key info := by
  by_cases here : other = node
  · subst here
    rw [put_router_self] at knows
    rcases knows with found | ⟨p, ann, sent, named, same⟩
    · exact .inl found
    · exact .inr ⟨p, ann, List.mem_of_mem_erase sent, named, same⟩
  · rw [put_router_ne net _ here] at knows
    exact knows

theorem take (genuine : net.Genuine) (told : net.Told) (effect : Effect) :
    (net.put node ((net.router node).take effect)).Genuine :=
  genuine.of_origin told rfl (fun knows => ⟨_, knows_of_take knows⟩)
    fun found => Told.covers_put (fun found => ⟨_, found, .refl _⟩) ⟨_, found, .refl _⟩

/-- A router handles an announcement that was on its way to it. -/
theorem hear (genuine : net.Genuine) (told : net.Told) {p q : PeerId} {ann : RouterAnnounce}
    (sent : .send p (.announce ann) ∈ (net.router node).effects) (away : p.key ≠ node)
    (handled : (net.router p.key).handleAnnounce (net.core p.key) q ann = some r') :
    ((net.put node ((net.router node).take (.send p (.announce ann)))).put p.key r').Genuine := by
  refine genuine.of_origin told rfl (fun {other key info} knows => ?_) fun found => ?_
  · by_cases isReceiver : other = p.key
    · subst isReceiver
      rw [put_router_self] at knows
      rcases Router.handleAnnounce_knows handled knows with before | ⟨rfl, rfl⟩
      · exact ⟨_, before⟩
      · exact ⟨node, .inr ⟨p, ann, sent, rfl, rfl⟩⟩
    · rw [put_router_ne _ _ isReceiver] at knows
      exact ⟨other, knows_of_take knows⟩
  · refine Told.covers_put (fun found => ?_)
      (Told.covers_put (fun found => ⟨_, found, .refl _⟩) ⟨_, found, .refl _⟩)
    rw [put_router_ne _ _ away] at found
    exact (Router.handleAnnounce_hears handled).grows found

theorem step (genuine : net.Genuine) (told : net.Told) (signs : ∀ node, (net.core node).Signs)
    {event : FleetEvent} (permitted : net.Permitted event)
    (stepped : Fleet.step net event = some net') : net'.Genuine := by
  cases event with
  | own node event =>
      rw [Fleet.step, Option.map_eq_some_iff] at stepped
      obtain ⟨r', stepped, rfl⟩ := stepped
      exact genuine.invent told
        (Router.step_gossips (told.sane node) (signs node) permitted.1 permitted.2 stepped)
        (Router.step_invents (told.sane node) permitted.2 stepped)
  | drop node effect =>
      cases stepped
      exact genuine.take told effect
  | deliver node p q message now rtt =>
      obtain ⟨sent, away, origin, linked, good⟩ := permitted
      rw [Fleet.step, put_router_ne _ _ away, Option.map_eq_some_iff] at stepped
      obtain ⟨r', received, rfl⟩ := stepped
      by_cases announced : ∃ ann, message = .announce ann
      · obtain ⟨ann, rfl⟩ := announced
        have handled : Router.receive (net.core p.key) (net.router p.key) q now rtt
          (.announce ann) = some r' := received
        rw [Router.receive, if_pos (good ann rfl)] at handled
        exact genuine.hear told sent away handled
      · rw [not_exists] at announced
        have other : (Effect.send p message).announces = false := by
          cases message with
          | announce ann => exact absurd rfl (announced ann)
          | _ => rfl
        have quiet : Router.Quiet
            ((net.put node ((net.router node).take (.send p message))).router p.key) r' := by
          rw [put_router_ne _ _ away]
          exact .receive received announced
        exact (genuine.take told _).invent (told.take other) (.of_quiet quiet)
          (.of_knows quiet.knows)

end Genuine

theorem Fresh.genuine {net : Fleet} (fresh : net.Fresh)
    (self : ∀ node, (net.core node).publicKey = node) : net.Genuine := by
  have started : ∀ {node key info}, (net.router node).Knows key info →
      key = node ∧ (net.router node).infos.lookup key = some info := by
    intro node key info knows
    rcases (Router.doMaintenance_invents (fresh node)).origin knows with before | ⟨own, found, -⟩
    · rcases before with found | ⟨p, ann, sent, -, -⟩
      · simp [Router.init] at found
      · simp [Router.init] at sent
    · exact ⟨own.trans (self node), found⟩
  refine ⟨self, fun {node key info own} knows found => ?_,
    fun {node node' key info info'} knows knows' _ _ => ?_⟩
  · obtain ⟨rfl, found'⟩ := started knows
    obtain rfl : own = info := Option.some.inj (found.symm.trans found')
    exact .refl _
  · obtain ⟨rfl, found⟩ := started knows
    obtain ⟨rfl, found'⟩ := started knows'
    exact Option.some.inj (found.symm.trans found')

/-! ## Networks at rest -/

/-- No announcement is on its way and no router has one to send, links go both ways, all peers have
responded, and every router keeps its parent. -/
structure AtRest (net : Fleet) : Prop where
  silent : ∀ {node p ann}, node ∈ net.nodes →
    .send p (.announce ann) ∉ (net.router node).effects
  marked : ∀ {node peer key}, net.Linked node peer →
    key ∈ (net.router node).getAncestry node ∨ key ∈ (net.router node).getAncestry peer →
      key ∈ (net.router node).sentTo peer
  linked : ∀ {node other}, net.Linked node other → other ≠ node ∧ net.Linked other node
  responses : ∀ {node other}, node ∈ net.nodes →
    (other ∈ (net.router node).responses ↔ other ∈ (net.router node).peers)
  content : ∀ node ∈ net.nodes,
    (net.router node).selfParent (net.core node) = ((net.router node).choose (net.core node)).parent

namespace AtRest

open Router

variable {net : Fleet} {node peer other key : PublicKey} {n : Nat}

/-- What is marked has arrived. -/
theorem arrived (rest : net.AtRest) (told : net.Told) (present : node ∈ net.nodes)
    (mark : key ∈ (net.router node).sentTo peer) :
    ∃ info info', (net.router node).infos.lookup key = some info ∧
      (net.router peer).infos.lookup key = some info' ∧ AtLeast info' info := by
  obtain ⟨info, found, ⟨info', found', better⟩ | ⟨p, ann, -, -, sent, -⟩⟩ := told.told mark
  · exact ⟨info, info', found, found', better⟩
  · exact absurd sent (rest.silent present)

/-- Two routers that have marked a key for each other have the same info of it. -/
theorem same_of_marks (rest : net.AtRest) (told : net.Told) (genuine : net.Genuine)
    (present : node ∈ net.nodes) (present' : peer ∈ net.nodes)
    (mark : key ∈ (net.router node).sentTo peer) (mark' : key ∈ (net.router peer).sentTo node) :
    ∃ info, (net.router node).infos.lookup key = some info ∧
      (net.router peer).infos.lookup key = some info := by
  obtain ⟨info, info', found, found', better⟩ := rest.arrived told present mark
  obtain ⟨info₁, info₁', found₁, found₁', better'⟩ := rest.arrived told present' mark'
  obtain rfl : info' = info₁ := Option.some.inj (found'.symm.trans found₁)
  obtain rfl : info = info₁' := Option.some.inj (found.symm.trans found₁')
  obtain rfl : info = info' := genuine.unique (.inl found) (.inl found') better' better
  exact ⟨info, found, found'⟩

theorem mark_own (rest : net.AtRest) (link : net.Linked node peer)
    (above : Above (net.router node).infos node n key) : key ∈ (net.router node).sentTo peer := by
  refine rest.marked link (.inl ?_)
  rw [getAncestry, List.mem_reverse]
  exact above.mem

theorem mark_peer (rest : net.AtRest) (link : net.Linked node peer)
    (above : Above (net.router node).infos peer n key) : key ∈ (net.router node).sentTo peer := by
  refine rest.marked link (.inr ?_)
  rw [getAncestry, List.mem_reverse]
  exact above.mem

/-- A router sees the way up of its peer as the peer does. -/
theorem follows (rest : net.AtRest) (told : net.Told) (genuine : net.Genuine)
    (link : net.Linked node peer) (above : Above (net.router node).infos peer n key) :
    Above (net.router peer).infos peer n key ∧
      (net.router node).infos.lookup key = (net.router peer).infos.lookup key := by
  have back := (rest.linked link).2
  have agree : ∀ {n key}, Above (net.router node).infos peer n key →
      Above (net.router peer).infos peer n key →
        (net.router node).infos.lookup key = (net.router peer).infos.lookup key := by
    intro n key above above'
    obtain ⟨info, found, found'⟩ :=
      rest.same_of_marks told genuine link.1 back.1 (rest.mark_peer link above)
        (rest.mark_own back above')
    rw [found, found']
  induction above with
  | start found =>
      obtain ⟨own, had⟩ := genuine.own told peer
      exact ⟨.start had, agree (.start found) (.start had)⟩
  | parent before found found' ih =>
      obtain ⟨above, same⟩ := ih
      have higher := Above.parent before found found'
      obtain ⟨-, info', -, known, -⟩ := rest.arrived told link.1 (rest.mark_peer link higher)
      have above' := Above.parent above (same ▸ found) known
      exact ⟨above', agree higher above'⟩

/-- The parent of a node is the node itself or one of its peers. -/
theorem parent_cases (rest : net.AtRest) (genuine : net.Genuine) (present : node ∈ net.nodes)
    {info : RouterInfo} (found : (net.router node).infos.lookup node = some info) :
    info.parent = node ∨ net.Linked node info.parent := by
  have self := genuine.self node
  have chosen : info.parent = ((net.router node).choose (net.core node)).parent := by
    rw [← rest.content node present, selfParent, self, found]
  cases (net.router node).choose_origin (net.core node) with
  | self _ itself => exact .inl (chosen.trans (itself.trans self))
  | current peer _ kept _ =>
      rw [← kept] at peer
      exact .inr ⟨present, chosen ▸ peer⟩
  | response eligible _ _ =>
      exact .inr ⟨present, chosen ▸ (rest.responses present).mp eligible.response⟩

/-- On its way up a router knows every node by the node's own info. -/
theorem own_of_above (rest : net.AtRest) (told : net.Told) (genuine : net.Genuine)
    (present : node ∈ net.nodes) (above : Above (net.router node).infos node n key) :
    key ∈ net.nodes ∧ (net.router node).infos.lookup key = (net.router key).infos.lookup key := by
  induction n generalizing node with
  | zero =>
      cases above with
      | start found => exact ⟨present, rfl⟩
  | succ n ih =>
      obtain ⟨info, info', found, -, higher⟩ := above.head
      rcases rest.parent_cases genuine present found with itself | link
      · rw [itself] at higher
        exact ih present higher
      · obtain ⟨above', same⟩ := rest.follows told genuine link higher
        obtain ⟨present', own⟩ := ih (rest.linked link).2.1 above'
        exact ⟨present', same.trans own⟩

/-- Its way up does not end at a node whose parent it does not know. -/
theorem parent_known (rest : net.AtRest) (told : net.Told) (genuine : net.Genuine)
    (present : node ∈ net.nodes) (above : Above (net.router node).infos node n key)
    {info : RouterInfo} (found : (net.router key).infos.lookup key = some info) :
    ∃ info', (net.router node).infos.lookup info.parent = some info' := by
  induction n generalizing node with
  | zero =>
      cases above with
      | start _ =>
          rcases rest.parent_cases genuine present found with itself | link
          · exact ⟨info, itself.symm ▸ found⟩
          · obtain ⟨own, had⟩ := genuine.own told info.parent
            obtain ⟨-, info', -, known, -⟩ :=
              rest.arrived told (rest.linked link).2.1
                (rest.mark_own (rest.linked link).2 (.start had))
            exact ⟨info', known⟩
  | succ n ih =>
      obtain ⟨info₁, -, found₁, -, higher⟩ := above.head
      rcases rest.parent_cases genuine present found₁ with itself | link
      · rw [itself] at higher
        exact ih present higher
      · obtain ⟨back, present'⟩ := And.intro (rest.linked link).2 (rest.linked link).2.1
        obtain ⟨above', -⟩ := rest.follows told genuine link higher
        obtain ⟨-, own⟩ := rest.own_of_above told genuine present' above'
        obtain ⟨info', known⟩ := ih present' above'
        have further := Above.parent above' (own.trans found) known
        obtain ⟨-, info'', -, known', -⟩ := rest.arrived told present' (rest.mark_own back further)
        exact ⟨info'', known'⟩

/-- What a router knows of the ways up of itself and of its peers is as it is. -/
theorem informed (rest : net.AtRest) (told : net.Told) (genuine : net.Genuine)
    (present : node ∈ net.nodes) (near : other = node ∨ net.Linked node other) :
    net.Informed node other := by
  -- the way up of the other node as it sees it, and that the router has the same infos there
  have seen : ∀ {above}, above ∈ (net.router node).backwardsAncestry other →
      other ∈ net.nodes ∧ ∃ n, Above (net.router other).infos other n above ∧
        (net.router node).infos.lookup above = (net.router other).infos.lookup above := by
    intro above higher
    obtain ⟨n, way⟩ := exists_above higher
    rcases near with rfl | link
    · exact ⟨present, n, way, rfl⟩
    · exact ⟨(rest.linked link).2.1, n, rest.follows told genuine link way⟩
  -- and what the other node knows on its way up has reached the router
  have reached : ∀ {n above}, Above (net.router other).infos other n above →
      ∃ info, (net.router node).infos.lookup above = some info := by
    intro n above way
    rcases near with rfl | link
    · obtain ⟨⟨parent, port⟩, pointer⟩ :=
        ((net.router other).backwardsAncestry_climb other).known above way.mem
      obtain ⟨info, found, -⟩ := pointers_eq_some_iff.mp pointer
      exact ⟨info, found⟩
    · have back := (rest.linked link).2
      obtain ⟨-, info, -, known, -⟩ := rest.arrived told back.1 (rest.mark_own back way)
      exact ⟨info, known⟩
  obtain ⟨own, had⟩ := genuine.own told other
  obtain ⟨first, known⟩ := reached (.start had)
  refine ⟨Map.mem_of_lookup known, fun above higher => ?_,
    fun above higher parent port pointer => ?_⟩
  · obtain ⟨present', n, way, same⟩ := seen higher
    obtain ⟨inside, own'⟩ := rest.own_of_above told genuine present' way
    rw [Settled.truth_eq inside, pointers, pointers, same, own']
  · obtain ⟨present', n, way, same⟩ := seen higher
    obtain ⟨inside, own'⟩ := rest.own_of_above told genuine present' way
    obtain ⟨info, found, rfl, -⟩ := pointers_eq_some_iff.mp pointer
    obtain ⟨info', known'⟩ :=
      rest.parent_known told genuine present' way (own' ▸ same ▸ found)
    obtain ⟨info'', reached'⟩ := reached (.parent way (same ▸ found) known')
    exact Map.mem_of_lookup reached'

end AtRest

/-- Every state that a run of a network reaches from its start, in whatever order its routers act
and messages arrive, is settled if it is at rest. -/
theorem run_settles {net net' : Fleet} (signs : ∀ node, (net.core node).Signs)
    (self : ∀ node, (net.core node).publicKey = node) (fresh : net.Fresh)
    {events : List FleetEvent} (allowed : Permits step Permitted net events)
    (ended : run step net events = some net') (rest : net'.AtRest) : net'.Settled := by
  have initially : net.core = net.core ∧ net.Told ∧ net.Genuine :=
    ⟨rfl, fresh.told signs, fresh.genuine self⟩
  obtain ⟨net₁, ended₁, -, told, genuine⟩ := @Permits.exists_run Fleet FleetEvent step Permitted
    (fun now => now.core = net.core ∧ now.Told ∧ now.Genuine) net events allowed initially (by
      rintro now event ⟨same, told, genuine⟩ permitted
      obtain ⟨next, stepped, same', told'⟩ := told.step (same ▸ signs) permitted
      exact ⟨next, stepped, same'.trans same, told',
        genuine.step told (same ▸ signs) permitted stepped⟩)
  obtain rfl : net₁ = net' := Option.some.inj (ended₁.symm.trans ended)
  exact ⟨fun node _ => genuine.self node, rest.linked, rest.responses,
    fun present near => rest.informed told genuine present near, rest.content⟩

/-! ### Two nodes that join -/

/-- Whether an event is permitted can be computed, so that a run can be checked. -/
instance decidablePermitted (net : Fleet) : (event : FleetEvent) → Decidable (net.Permitted event)
  | .own node event =>
      have : Decidable (Router.Lasting (net.core node) event) :=
        match event with
        | .removePeer _ => .isFalse id
        | .receive _ _ _ _ => .isFalse id
        | .timerFired key _ => inferInstanceAs (Decidable (key = (net.core node).publicKey))
        | .doMaintenance => .isTrue trivial
        | .addPeer _ => .isTrue trivial
        | .handleTraffic _ _ => .isTrue trivial
        | .sendTraffic _ _ => .isTrue trivial
        | .sendLookup _ _ => .isTrue trivial
        | .pathTimedOut _ _ => .isTrue trivial
        | .rumorTimedOut _ _ => .isTrue trivial
        | .reorder _ _ => .isTrue trivial
      inferInstanceAs (Decidable (_ ∧ _))
  | .deliver node p q message _ _ =>
      have : Decidable (∀ ann, message = .announce ann →
          ann.check (net.core p.key).crypto = some true) :=
        match message with
        | .announce ann =>
            decidable_of_iff (ann.check (net.core p.key).crypto = some true)
              ⟨fun good _ same => by cases same; exact good, fun all => all ann rfl⟩
        | .dummy => .isTrue nofun
        | .keepAlive => .isTrue nofun
        | .sigReq _ => .isTrue nofun
        | .sigRes _ => .isTrue nofun
        | .bloom _ => .isTrue nofun
        | .pathLookup _ => .isTrue nofun
        | .pathNotify _ => .isTrue nofun
        | .pathBroken _ => .isTrue nofun
        | .traffic _ => .isTrue nofun
      inferInstanceAs (Decidable (_ ∧ _ ∧ _ ∧ _ ∧ _))
  | .drop _ effect => inferInstanceAs (Decidable (effect.announces = false))

/-- What a node has to see for the network to be at rest. -/
def resting (net : Fleet) (node : PublicKey) : Bool :=
  ((net.router node).effects.all fun effect => !effect.announces) &&
    ((net.router node).peers.keys.all fun peer =>
      decide (peer ≠ node) && net.nodes.contains peer && decide (node ∈ (net.router peer).peers) &&
        decide (peer ∈ (net.router node).responses) &&
        ((net.router node).getAncestry node ++ (net.router node).getAncestry peer).all fun key =>
          ((net.router node).sentTo peer).contains key) &&
    ((net.router node).responses.keys.all fun other => decide (other ∈ (net.router node).peers)) &&
    decide ((net.router node).selfParent (net.core node) =
      ((net.router node).choose (net.core node)).parent)

theorem AtRest.of_resting {net : Fleet} (all : ∀ node ∈ net.nodes, net.resting node = true) :
    net.AtRest := by
  simp only [resting, Bool.and_eq_true, List.all_eq_true, decide_eq_true_eq, List.contains_iff_mem,
    Bool.not_eq_true'] at all
  refine ⟨fun {node p ann} present sent => ?_, fun {node peer key} link higher => ?_,
    fun {node other} link => ?_, fun {node other} present => ?_,
    fun node present => (all node present).2⟩
  · cases (all node present).1.1.1 _ sent
  · exact ((all node link.1).1.1.2 peer (AList.mem_keys.mp link.2)).2 key
      (List.mem_append.mpr higher)
  · obtain ⟨⟨⟨⟨different, inside⟩, back⟩, -⟩, -⟩ :=
      (all node link.1).1.1.2 other (AList.mem_keys.mp link.2)
    exact ⟨different, inside, back⟩
  · constructor
    · exact fun responded => (all node present).1.2 other (AList.mem_keys.mp responded)
    · exact fun peer => ((all node present).1.1.2 other (AList.mem_keys.mp peer)).1.2

/-- The first node's link to the second. -/
def toSecond : PeerId := ⟨plainKey 2, 1, 0, 0⟩

/-- The second node's link to the first. -/
def toFirst : PeerId := ⟨plainKey 1, 1, 0, 0⟩

/-- Two nodes get a link, ask each other for a place, the first announces itself, the second takes
the place, announces it and asks for the next one. -/
def plainJoin : List FleetEvent :=
  [.own (plainKey 1) (.addPeer toSecond),
    .own (plainKey 2) (.addPeer toFirst),
    .deliver (plainKey 1) toSecond toFirst (.sigReq ⟨2, 0⟩) ⟨0, 0⟩ 0,
    .deliver (plainKey 2) toFirst toSecond (.sigReq ⟨2, 0⟩) ⟨0, 0⟩ 0,
    .deliver (plainKey 1) toSecond toFirst (.sigRes ⟨⟨2, 0⟩, 1, Vector.replicate 64 0⟩) ⟨0, 0⟩ 0,
    .deliver (plainKey 2) toFirst toSecond (.sigRes ⟨⟨2, 0⟩, 1, Vector.replicate 64 0⟩) ⟨0, 0⟩ 0,
    .own (plainKey 1) .doMaintenance,
    .deliver (plainKey 1) toSecond toFirst
      (.announce ((plainInfo (plainKey 1) 0).getAnnounce (plainKey 1))) ⟨0, 0⟩ 0,
    .own (plainKey 2) .doMaintenance,
    .deliver (plainKey 2) toFirst toSecond (.announce
      (RouterInfo.getAnnounce
        ⟨⟨⟨2, 0⟩, 1, Vector.replicate 64 0⟩, plainKey 1, Vector.replicate 64 0⟩
        (plainKey 2))) ⟨0, 0⟩ 0,
    .deliver (plainKey 2) toFirst toSecond (.sigReq ⟨3, 0⟩) ⟨0, 0⟩ 0,
    .deliver (plainKey 1) toSecond toFirst (.sigRes ⟨⟨3, 0⟩, 1, Vector.replicate 64 0⟩) ⟨0, 0⟩ 0]

theorem plainJoin_permits : Permits step Permitted plainStart plainJoin := by
  decide +kernel

theorem plainJoin_rests : (run step plainStart plainJoin).any (fun net =>
    net.nodes.all net.resting && decide (plainKey 2 ∈ (net.router (plainKey 1)).peers)) = true := by
  decide +kernel

theorem run_settles_join :
    ∃ net', run step plainStart plainJoin = some net' ∧
      plainKey 2 ∈ (net'.router (plainKey 1)).peers ∧ net'.Settled := by
  have rests := plainJoin_rests
  cases ended : run step plainStart plainJoin with
  | none => rw [ended] at rests; cases rests
  | some net' =>
      rw [ended, Option.any_some, Bool.and_eq_true, List.all_eq_true, decide_eq_true_eq] at rests
      exact ⟨net', rfl, rests.2, run_settles (fun _ _ => rfl) (fun _ => rfl) plainStart_fresh
        plainJoin_permits ended (AtRest.of_resting rests.1)⟩

end Fleet

end Uqda.Network
