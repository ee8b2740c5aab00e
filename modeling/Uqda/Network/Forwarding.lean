import Uqda.Network.Pathfinder

/-!
# Packets do not circulate

Traffic, notifications and notices of broken paths are passed from router to router by `_lookup`.
The routers of a network change while a packet is under way, and their views of the tree need not
agree.  Still a packet is passed on only so many times as its first router is away from the
destination: every router on the way has to see itself nearer than all before it.
-/

namespace Uqda.Network

open Uqda.Store

/-- The path and the watermark of a packet that `_lookup` routes. -/
def Message.routed : Message → Option (List PeerPort × UInt64)
  | .traffic tr => some (tr.path, tr.watermark)
  | .pathNotify notify => some (notify.path, notify.watermark)
  | .pathBroken broken => some (broken.path, broken.watermark)
  | _ => none

theorem Message.routed_relay {message : Message} {path : List PeerPort} {watermark : UInt64}
    (packet : message.routed = some (path, watermark)) (watermark' : UInt64) :
    (message.relay watermark').routed = some (path, watermark') := by
  cases message with
  | traffic tr =>
      cases packet
      rfl
  | pathNotify notify =>
      cases packet
      rfl
  | pathBroken broken =>
      cases packet
      rfl
  | _ => cases packet

namespace Router

/-- What the router's actor does with such a packet. -/
def handleRouted (core : Core) (r : Router) (now : Now) : Message → Option Router
  | .traffic tr => r.handleTraffic core now tr
  | .pathNotify notify => r.handleNotify core now notify
  | .pathBroken broken => r.handleBroken core now broken
  | _ => some r

end Router

/-- Some router in some state is given a packet, and this is what it sends of it. -/
def PassedOn (packet next : Message) : Prop :=
  ∃ (core : Core) (r r' : Router) (now : Now) (new : List Effect) (p : PeerId) (watermark : UInt64),
    r.handleRouted core now packet = some r' ∧ r'.effects = r.effects ++ new ∧
      .send p next ∈ new ∧ next = packet.relay watermark

namespace Router

variable {core : Core} {r r' : Router} {now : Now} {new : List Effect} {p : PeerId}

theorem lookup_fst_watermark {path : List PeerPort} {watermark watermark' : UInt64}
    (found : r.lookup core path watermark = (some p, watermark', r')) :
    watermark' = (r.getDist path core.publicKey).1 := by
  rw [lookup] at found
  dsimp only at found
  split at found
  · exact (congrArg (fun result => result.2.1) found).symm
  · cases found

/-- Effects of other kinds are not the packet. -/
theorem absurd_of_aside {allowed : Effect → Bool} {packet : Message} {P : Prop}
    (aside : Aside allowed r r') (added : r'.effects = r.effects ++ new)
    (sent : .send p packet ∈ new) (other : allowed (.send p packet) = false) : P := by
  obtain ⟨new', added', all⟩ := aside.effects
  rw [added] at added'
  obtain rfl := List.append_cancel_left added'
  rw [all _ sent] at other
  cases other

/-- A packet that is passed on was looked up: its watermark is now the router's distance. -/
theorem passedOn_lowers {packet next : Message} {watermark : UInt64}
    (handled : r.handleRouted core now packet = some r') (added : r'.effects = r.effects ++ new)
    (sent : .send p next ∈ new) (same : next = packet.relay watermark) :
    ∃ path before, packet.routed = some (path, before) ∧
      next.routed = some (path, (r.getDist path core.publicKey).1) ∧
        (r.getDist path core.publicKey).1 < before ∧ 0 < (r.getDist path core.publicKey).1 := by
  -- what is sent after a successful lookup is the packet with the new watermark
  have passed : ∀ {path before after p' r₁}, packet.routed = some (path, before) →
      r.lookup core path before = (some p', after, r₁) → r' = r₁.send p' (packet.relay after) →
        ∃ path before, packet.routed = some (path, before) ∧
          next.routed = some (path, (r.getDist path core.publicKey).1) ∧
            (r.getDist path core.publicKey).1 < before ∧ 0 < (r.getDist path core.publicKey).1 := by
    intro path before after p' r₁ routed found result
    have recached := r.lookup_recached core path before
    rw [found] at recached
    have effects : r₁.effects = r.effects := recached.effects_eq
    rw [result, send, effects] at added
    obtain rfl := List.append_cancel_left added
    cases List.mem_singleton.mp sent
    obtain ⟨lower, positive⟩ := lookup_watermark found
    refine ⟨path, before, routed, ?_⟩
    rw [← lookup_fst_watermark found]
    exact ⟨Message.routed_relay routed after, lower, positive⟩
  cases packet with
  | traffic tr =>
      rw [handleRouted, handleTraffic] at handled
      split at handled
      · rename_i found
        exact passed rfl found (Option.some.inj handled).symm
      · rename_i watermark r₁ found
        have recached := r.lookup_recached core tr.path tr.watermark
        rw [found] at recached
        exact absurd_of_aside ((Aside.of_recached recached).trans (receiveTraffic_aside handled))
          added sent (by rw [same]; rfl)
  | pathNotify notify =>
      rw [handleRouted, handleNotify] at handled
      split at handled
      · rename_i found
        exact passed rfl found (Option.some.inj handled).symm
      · rename_i watermark r₁ found
        have recached := r.lookup_recached core notify.path notify.watermark
        rw [found] at recached
        exact absurd_of_aside ((Aside.of_recached recached).trans (receiveNotify_aside handled))
          added sent (by rw [same]; rfl)
  | pathBroken broken =>
      rw [handleRouted, handleBroken] at handled
      split at handled
      · rename_i found
        exact passed rfl found (Option.some.inj handled).symm
      · rename_i watermark r₁ found
        have recached := r.lookup_recached core broken.path broken.watermark
        rw [found] at recached
        exact absurd_of_aside ((Aside.of_recached recached).trans (receiveBroken_aside handled))
          added sent (by rw [same]; rfl)
  | _ =>
      cases handled
      obtain rfl := List.append_cancel_left ((List.append_nil _).trans added).symm
      cases sent

end Router

/-- A packet with a watermark is passed on fewer times than that. -/
theorem length_lt_of_passedOn {packet : Message} {path : List PeerPort} {watermark : UInt64}
    (routed : packet.routed = some (path, watermark)) (positive : 0 < watermark)
    {onward : List Message} (chain : List.IsChain PassedOn (packet :: onward)) :
    onward.length < watermark.toNat := by
  induction onward generalizing packet watermark with
  | nil => exact positive
  | cons next onward ih =>
      obtain ⟨passed, rest⟩ := List.isChain_cons_cons.mp chain
      obtain ⟨core, r, r', now, new, p, watermark', handled, added, sent, same⟩ := passed
      obtain ⟨path', before, routed', marked, lower, nonzero⟩ :=
        Router.passedOn_lowers handled added sent same
      rw [routed] at routed'
      cases routed'
      have shorter := ih marked nonzero rest
      rw [List.length_cons]
      exact Nat.lt_of_lt_of_le (Nat.succ_lt_succ shorter) (UInt64.lt_iff_toNat_lt.mp lower)

/-- However the routers on the way change and whatever they know of the tree, a packet is passed
on at most as many times as its first router is away from the destination, by that router's
reckoning. -/
theorem hops_le_dist {core : Core} {r r' : Router} {now : Now} {packet next : Message}
    {path : List PeerPort} {watermark watermark' : UInt64} {new : List Effect} {p : PeerId}
    (routed : packet.routed = some (path, watermark))
    (handled : r.handleRouted core now packet = some r') (added : r'.effects = r.effects ++ new)
    (sent : .send p next ∈ new) (same : next = packet.relay watermark') (onward : List Message)
    (chain : List.IsChain PassedOn (next :: onward)) :
    (next :: onward).length ≤ (r.getDist path core.publicKey).1.toNat := by
  obtain ⟨path', before, routed', marked, -, positive⟩ :=
    Router.passedOn_lowers handled added sent same
  rw [routed] at routed'
  cases routed'
  exact length_lt_of_passedOn marked positive chain

/-! ## A root and its child -/

/-- A node whose signatures all pass. -/
def plainCore (publicKey : PublicKey) : Core where
  crypto := ⟨Unit, fun _ _ => Vector.replicate 64 0, fun _ _ _ => true⟩
  privateKey := ()
  publicKey := publicKey
  bloomTransform := id
  locations := fun _ => [0]
  nonces := fun _ => 0
  pathThrottle := 1

/-- A key of equal bytes. -/
def plainKey (byte : UInt8) : PublicKey := Vector.replicate 32 byte

/-- A response for a given port. -/
def plainRes (port : PeerPort) : RouterSigRes := ⟨⟨1, 0⟩, port, Vector.replicate 64 0⟩

/-- An info with a given parent and port. -/
def plainInfo (parent : PublicKey) (port : PeerPort) : RouterInfo :=
  ⟨plainRes port, parent, Vector.replicate 64 0⟩

/-- The first node is the root, and the second has port 1 there. -/
def plainInfos : Map PublicKey RouterInfo :=
  AList.insert (plainKey 2) (plainInfo (plainKey 1) 1)
    (AList.insert (plainKey 1) (plainInfo (plainKey 1) 0) ∅)

/-- A router of the two that has the other one as its peer. -/
def plainRouter (peer : PublicKey) : Router where
  infos := plainInfos
  peers := AList.insert peer [⟨peer, 1, 0, 0⟩] ∅
  responses := AList.insert peer (plainRes 1) ∅
  info := ⟨0, [], Vector.replicate 64 0⟩

/-- A root that has a child at port 1. -/
def plainRoot : Router := plainRouter (plainKey 2)

/-- Traffic from the root to the child. -/
def plainTraffic : Message := .traffic ⟨[1], [], plainKey 1, plainKey 2, allOnes, []⟩

theorem hops_le_dist_child :
    [plainTraffic.relay 1].length ≤
      (plainRoot.getDist [1] (plainCore (plainKey 1)).publicKey).1.toNat := by
  obtain ⟨r', handled, effects⟩ :
      ∃ r', plainRoot.handleRouted (plainCore (plainKey 1)) ⟨0, 0⟩ plainTraffic = some r' ∧
        r'.effects = [.send ⟨plainKey 2, 1, 0, 0⟩ (plainTraffic.relay 1)] :=
    Option.map_eq_some_iff.mp rfl
  exact hops_le_dist rfl handled effects (List.mem_singleton_self _) rfl [] (.singleton _)

end Uqda.Network
