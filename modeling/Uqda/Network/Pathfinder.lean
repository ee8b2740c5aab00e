import Uqda.Network.Router

/-!
# The pathfinder

`third_party/ironwood/network/pathfinder.go` and the handling of traffic in `router.go`.  A node
that has traffic for a key it knows no path to multicasts a lookup and keeps the traffic with the
rumor.  A node whose transformed key matches answers with a signed notification of its path, which
travels back along the path in the lookup.

`_handleNotify` passes the traffic that waited for a path on to `_handleTraffic` when it returns.
By then the path is stored, so that call goes on with traffic for a known path; the model has no
result if it were not so.
-/

namespace Uqda.Network

open Uqda.Store

namespace Router

variable (core : Core)

/-- The part of `_handleTraffic` for a known path: the traffic gets its path, a copy is kept, and
the router's inbox gets it. -/
def forward (r : Router) (tr : Traffic) (info : PathInfo) : Router :=
  let tr := { tr with path := info.path, «from» := (r.getRootAndPath core.publicKey).2 }
  { r with
    paths := r.paths.insert tr.dest { info with traffic := some tr }
    effects := r.effects ++ [.handleTraffic tr] }

/-- Which of its timers the router has started. -/
def startTimer (r : Router) : Nat × Router :=
  (r.newTimer, { r with newTimer := r.newTimer + 1 })

/-- The part of `_handleNotify` that may accept a notification: the new entry for the source. -/
def acceptNotify (r : Router) (now : Now) (notify : PathNotify) : Option (PathInfo × Router) :=
  match r.paths.lookup notify.source with
  | some info =>
      if notify.info.seq ≤ info.seq then none
      -- with the known path it would be the same, so it adds nothing
      else if { notify.info with path := info.path }.equal notify.info then none
      else if !notify.check core.crypto then none
      else some (info, r)
  | none =>
      match r.rumors.lookup (xKey core notify.source) with
      | some rumor =>
          if !notify.check core.crypto then none
          else
            let (timer, r) := r.startTimer
            let info : PathInfo := ⟨[], 0, now.mono, timer, none, false⟩
            match rumor.traffic with
            | some tr =>
                if tr.dest = notify.source then
                  some ({ info with traffic := some tr },
                    { r with
                      rumors := r.rumors.insert (xKey core notify.source)
                        { rumor with traffic := none } })
                else some (info, r)
            | none => some (info, r)
      | none => none

/-- The rest of `_handleNotify`, for a notification that is not passed on. -/
def receiveNotify (r : Router) (now : Now) (notify : PathNotify) : Option Router :=
  if notify.dest ≠ core.publicKey then some r
  else
    match r.acceptNotify core now notify with
    | none => some r
    | some (info, r) =>
        let info' := { info with
          path := notify.info.path
          seq := notify.info.seq
          broken := false
          traffic := none }
        let r := { r with
          paths := r.paths.insert notify.source info'
          effects := r.effects ++ [.pathNotify notify.source] }
        match info.traffic with
        | none => some r
        | some tr =>
            match r.paths.lookup tr.dest with
            | some known => some (r.forward core tr known)
            | none => none

/-- `_handleNotify`. -/
def handleNotify (r : Router) (now : Now) (notify : PathNotify) : Option Router :=
  match r.lookup core notify.path notify.watermark with
  | (some p, watermark, r) => some (r.send p (.pathNotify { notify with watermark := watermark }))
  | (none, watermark, r) => r.receiveNotify core now { notify with watermark := watermark }

/-- What the router answers to a lookup, signed again only if it has changed. -/
def answer (r : Router) (now : Now) : PathNotifyInfo :=
  let info : PathNotifyInfo :=
    ⟨now.unix, (r.getRootAndPath core.publicKey).2, Vector.replicate 64 0⟩
  if !r.info.equal info then
    { info with sig := core.crypto.sign core.privateKey info.bytesForSig }
  else r.info

/-- `_handleLookup`. -/
def handleLookup (r : Router) (now : Now) (fromKey : PublicKey) (lookup : PathLookup) :
    Option Router := do
  let r ← r.sendMulticast core (.pathLookup lookup) fromKey lookup.dest
  if xKey core lookup.dest = xKey core core.publicKey then
    handleNotify core { r with info := r.answer core now } now
      ⟨lookup.from, allOnes, core.publicKey, lookup.source, r.answer core now⟩
  else return r

/-- `handleLookup`, for a lookup from a peer. -/
def handlePeerLookup (r : Router) (now : Now) (p : PeerId) (lookup : PathLookup) : Option Router :=
  if !r.isOnTree p.key then some r else r.handleLookup core now p.key lookup

/-- `_sendLookup`. -/
def sendLookup (r : Router) (now : Now) (dest : PublicKey) : Option Router :=
  let start := r.handleLookup core now core.publicKey
    ⟨core.publicKey, dest, (r.getRootAndPath core.publicKey).2⟩
  match r.paths.lookup dest with
  | some info => if now.mono - info.reqTime < core.pathThrottle then some r else start
  | none => start

/-- `_rumorSendLookup`. -/
def rumorSendLookup (r : Router) (now : Now) (dest : PublicKey) : Option Router :=
  let xform := xKey core dest
  match r.rumors.lookup xform with
  | some rumor =>
      if now.mono - rumor.sendTime < core.pathThrottle then some r
      else
        { r with rumors := r.rumors.insert xform { rumor with sendTime := now.mono } }.sendLookup
          core now dest
  | none =>
      let (timer, r) := r.startTimer
      { r with rumors := r.rumors.insert xform ⟨none, now.mono, timer⟩ }.sendLookup core now dest

/-- `_handleTraffic` of the pathfinder. -/
def sendTraffic (r : Router) (now : Now) (tr : Traffic) : Option Router :=
  match r.paths.lookup tr.dest with
  | some info => some (r.forward core tr info)
  | none => do
      let r ← r.rumorSendLookup core now tr.dest
      let rumor ← r.rumors.lookup (xKey core tr.dest)
      return { r with
        rumors := r.rumors.insert (xKey core tr.dest) { rumor with traffic := some tr } }

/-- The rest of `_handleBroken`, for a notice that is not passed on. -/
def receiveBroken (r : Router) (now : Now) (broken : PathBroken) : Option Router :=
  if broken.source ≠ core.publicKey then some r
  else
    match r.paths.lookup broken.dest with
    | some info =>
        { r with paths := r.paths.insert broken.dest { info with broken := true } }.sendLookup
          core now broken.dest
    | none => some r

/-- `_handleBroken`. -/
def handleBroken (r : Router) (now : Now) (broken : PathBroken) : Option Router :=
  match r.lookup core broken.path broken.watermark with
  | (some p, watermark, r) => some (r.send p (.pathBroken { broken with watermark := watermark }))
  | (none, watermark, r) => r.receiveBroken core now { broken with watermark := watermark }

/-- `_doBroken`. -/
def doBroken (r : Router) (now : Now) (tr : Traffic) : Option Router :=
  r.handleBroken core now ⟨tr.from, allOnes, tr.source, tr.dest⟩

/-- The rest of `handleTraffic`, for traffic that is not passed on.  `_resetTimeout` only starts
a running timer again. -/
def receiveTraffic (r : Router) (now : Now) (tr : Traffic) : Option Router :=
  if tr.dest = core.publicKey then some { r with effects := r.effects ++ [.deliver tr] }
  else r.doBroken core now tr

/-- `handleTraffic` of the router. -/
def handleTraffic (r : Router) (now : Now) (tr : Traffic) : Option Router :=
  match r.lookup core tr.path tr.watermark with
  | (some p, watermark, r) => some (r.send p (.traffic { tr with watermark := watermark }))
  | (none, watermark, r) => r.receiveTraffic core now { tr with watermark := watermark }

/-- The callback of the timer of a path. -/
def pathTimedOut (r : Router) (key : PublicKey) (timer : Nat) : Router :=
  match r.paths.lookup key with
  | some info => if info.timer = timer then { r with paths := r.paths.erase key } else r
  | none => r

/-- The callback of the timer of a rumor. -/
def rumorTimedOut (r : Router) (xform : PublicKey) (timer : Nat) : Router :=
  match r.rumors.lookup xform with
  | some rumor => if rumor.timer = timer then { r with rumors := r.rumors.erase xform } else r
  | none => r

end Router

/-! ## What the pathfinder leaves alone -/

/-- What stays on the node. -/
def Effect.inside : Effect → Bool
  | .send _ _ => false
  | _ => true

/-- What is sent in search of a path and for an answer, too. -/
def Effect.answering : Effect → Bool
  | .send _ (.pathLookup _) => true
  | .send _ (.pathNotify _) => true
  | effect => effect.inside

/-- What is sent when a path is broken, too. -/
def Effect.breaking : Effect → Bool
  | .send _ (.pathBroken _) => true
  | effect => effect.answering

/-- What is sent along paths, too. -/
def Effect.routing : Effect → Bool
  | .send _ (.traffic _) => true
  | effect => effect.breaking

theorem Effect.answering_of_inside {effect : Effect} (inside : effect.inside = true) :
    effect.answering = true := by
  unfold Effect.answering
  split
  · rfl
  · rfl
  · exact inside

theorem Effect.breaking_of_answering {effect : Effect} (answers : effect.answering = true) :
    effect.breaking = true := by
  unfold Effect.breaking
  split
  · rfl
  · exact answers

theorem Effect.routing_of_breaking {effect : Effect} (breaks : effect.breaking = true) :
    effect.routing = true := by
  unfold Effect.routing
  split
  · rfl
  · exact breaks

namespace Router

/-- A step of the pathfinder: the router's view of the tree and its peers stay as they are, a
coherent cache stays coherent, and only some kinds of effects are added. -/
structure Aside (allowed : Effect → Bool) (r r' : Router) : Prop where
  rest : r' = { r with
    cache := r'.cache, info := r'.info, paths := r'.paths, rumors := r'.rumors
    newTimer := r'.newTimer, effects := r'.effects }
  coherent : r.Coherent → r'.Coherent
  effects : ∃ new, r'.effects = r.effects ++ new ∧ ∀ effect ∈ new, allowed effect = true

namespace Aside

variable {allowed : Effect → Bool} {r r' r'' : Router}

theorem refl (r : Router) : Aside allowed r r :=
  ⟨rfl, id, [], (List.append_nil _).symm, fun _ absent => absurd absent List.not_mem_nil⟩

theorem trans (first : Aside allowed r r') (second : Aside allowed r' r'') :
    Aside allowed r r'' := by
  refine ⟨?_, second.coherent ∘ first.coherent, ?_⟩
  · rw [second.rest, first.rest]
  · obtain ⟨new, added, all⟩ := first.effects
    obtain ⟨new', added', all'⟩ := second.effects
    refine ⟨new ++ new', by rw [added', added, List.append_assoc], fun effect present => ?_⟩
    exact (List.mem_append.mp present).elim (all effect) (all' effect)

theorem mono {more : Effect → Bool} (aside : Aside allowed r r')
    (weaker : ∀ effect, allowed effect = true → more effect = true) : Aside more r r' := by
  obtain ⟨new, added, all⟩ := aside.effects
  exact ⟨aside.rest, aside.coherent, new, added,
    fun effect present => weaker effect (all effect present)⟩

theorem of_recached (recached : Recached r r') : Aside allowed r r' := by
  refine ⟨?_, recached.coherent, [], ?_, fun _ absent => absurd absent List.not_mem_nil⟩
  · rw [recached.rest]
  · rw [recached.rest, List.append_nil]

theorem emit {effect : Effect} (r : Router) (permitted : allowed effect = true) :
    Aside allowed r { r with effects := r.effects ++ [effect] } := by
  refine ⟨rfl, id, [effect], rfl, fun other present => ?_⟩
  rw [List.mem_singleton.mp present]
  exact permitted

/-- A step that touches neither the cache nor the effects. -/
theorem of_eq (rest : r' = { r with
    info := r'.info, paths := r'.paths, rumors := r'.rumors, newTimer := r'.newTimer }) :
    Aside allowed r r' := by
  refine ⟨by rw [rest], ?_, [], ?_, fun _ absent => absurd absent List.not_mem_nil⟩
  · intro coherent
    rw [rest]
    exact coherent
  · rw [rest, List.append_nil]

/-- The same before a step. -/
theorem after (second : Aside allowed r' r'') (rest : r' = { r with
    info := r'.info, paths := r'.paths, rumors := r'.rumors, newTimer := r'.newTimer }) :
    Aside allowed r r'' :=
  (of_eq rest).trans second

theorem foldlM {α : Type} {step : Router → α → Option Router} {entries : List α}
    (each : ∀ {r r' entry}, step r entry = some r' → Aside allowed r r')
    (folded : entries.foldlM step r = some r') : Aside allowed r r' := by
  induction entries generalizing r with
  | nil =>
      cases folded
      exact .refl _
  | cons entry entries ih =>
      rw [List.foldlM_cons, Option.bind_eq_bind, Option.bind_eq_some_iff] at folded
      obtain ⟨middle, stepped, rest⟩ := folded
      exact (each stepped).trans (ih rest)

end Aside

variable {core : Core} {r r' : Router} {now : Now} {allowed : Effect → Bool}

theorem sendMulticast_aside {packet : Message} {fromKey toKey : PublicKey}
    (permitted : ∀ p, allowed (.send p packet) = true)
    (sent : r.sendMulticast core packet fromKey toKey = some r') : Aside allowed r r' := by
  refine Aside.foldlM (fun {r r' entry} stepped => ?_) sent
  obtain ⟨k, pbi⟩ := entry
  rw [sendMulticastTo] at stepped
  split at stepped
  · cases stepped
    exact .refl r
  · split at stepped
    · cases stepped
      exact .refl r
    · split at stepped
      · cases stepped
        exact .refl r
      · rw [Option.bind_eq_bind, Option.bind_eq_some_iff] at stepped
        obtain ⟨bestPeer, -, stepped⟩ := stepped
        cases stepped
        exact .emit r (permitted bestPeer)

theorem forward_aside (r : Router) (tr : Traffic) (info : PathInfo) :
    Aside Effect.inside r (r.forward core tr info) := by
  have stored : Aside Effect.inside r { r with
      paths := r.paths.insert tr.dest { info with
        traffic := some { tr with
          path := info.path, «from» := (r.getRootAndPath core.publicKey).2 } } } :=
    .of_eq rfl
  exact stored.trans (.emit _ rfl)

theorem acceptNotify_aside {notify : PathNotify} {info : PathInfo}
    (accepted : r.acceptNotify core now notify = some (info, r')) : Aside Effect.inside r r' := by
  rw [acceptNotify] at accepted
  split at accepted
  · split at accepted
    · cases accepted
    · split at accepted
      · cases accepted
      · split at accepted
        · cases accepted
        · cases accepted
          exact .refl r
  · split at accepted
    · split at accepted
      · cases accepted
      · dsimp only [startTimer] at accepted
        split at accepted
        · split at accepted
          · cases accepted
            exact .of_eq rfl
          · cases accepted
            exact .of_eq rfl
        · cases accepted
          exact .of_eq rfl
    · cases accepted

theorem receiveNotify_aside {notify : PathNotify}
    (received : r.receiveNotify core now notify = some r') : Aside Effect.inside r r' := by
  rw [receiveNotify] at received
  split at received
  · cases received
    exact .refl r
  · split at received
    · cases received
      exact .refl r
    · rename_i info r₁ accepted
      have stored : Aside Effect.inside r₁ { r₁ with
          paths := r₁.paths.insert notify.source
            { info with
              path := notify.info.path, seq := notify.info.seq, broken := false
              traffic := none } } :=
        .of_eq rfl
      have notified := (acceptNotify_aside accepted).trans
        (stored.trans (@Aside.emit Effect.inside (.pathNotify notify.source) _ rfl))
      dsimp only at received
      split at received
      · cases received
        exact notified
      · split at received
        · cases received
          exact notified.trans (forward_aside _ _ _)
        · cases received

theorem handleNotify_aside {notify : PathNotify}
    (handled : r.handleNotify core now notify = some r') : Aside Effect.answering r r' := by
  have recached := r.lookup_recached core notify.path notify.watermark
  rw [handleNotify] at handled
  split at handled
  · rename_i p watermark r₁ found
    rw [found] at recached
    cases handled
    exact (Aside.of_recached recached).trans (.emit r₁ rfl)
  · rename_i watermark r₁ found
    rw [found] at recached
    exact (Aside.of_recached recached).trans
      ((receiveNotify_aside handled).mono fun _ => Effect.answering_of_inside)

theorem handleLookup_aside {fromKey : PublicKey} {lookup : PathLookup}
    (handled : r.handleLookup core now fromKey lookup = some r') : Aside Effect.answering r r' := by
  rw [handleLookup, Option.bind_eq_bind, Option.bind_eq_some_iff] at handled
  obtain ⟨r₁, sent, handled⟩ := handled
  have multicast : Aside Effect.answering r r₁ := sendMulticast_aside (fun _ => rfl) sent
  split at handled
  · exact multicast.trans ((handleNotify_aside handled).after rfl)
  · cases handled
    exact multicast

theorem sendLookup_aside {dest : PublicKey} (sent : r.sendLookup core now dest = some r') :
    Aside Effect.answering r r' := by
  rw [sendLookup] at sent
  split at sent
  · split at sent
    · cases sent
      exact .refl r
    · exact handleLookup_aside sent
  · exact handleLookup_aside sent

theorem rumorSendLookup_aside {dest : PublicKey}
    (sent : r.rumorSendLookup core now dest = some r') : Aside Effect.answering r r' := by
  rw [rumorSendLookup] at sent
  dsimp only [startTimer] at sent
  split at sent
  · split at sent
    · cases sent
      exact .refl r
    · exact (sendLookup_aside sent).after rfl
  · exact (sendLookup_aside sent).after rfl

theorem sendTraffic_aside {tr : Traffic} (sent : r.sendTraffic core now tr = some r') :
    Aside Effect.answering r r' := by
  rw [sendTraffic] at sent
  split at sent
  · cases sent
    exact (forward_aside r tr _).mono fun _ => Effect.answering_of_inside
  · rw [Option.bind_eq_bind, Option.bind_eq_some_iff] at sent
    obtain ⟨r₁, looked, sent⟩ := sent
    rw [Option.bind_eq_bind, Option.bind_eq_some_iff] at sent
    obtain ⟨rumor, -, sent⟩ := sent
    cases sent
    exact (rumorSendLookup_aside looked).trans (.of_eq rfl)

theorem receiveBroken_aside {broken : PathBroken}
    (received : r.receiveBroken core now broken = some r') : Aside Effect.answering r r' := by
  rw [receiveBroken] at received
  split at received
  · cases received
    exact .refl r
  · split at received
    · exact (sendLookup_aside received).after rfl
    · cases received
      exact .refl r

theorem handleBroken_aside {broken : PathBroken}
    (handled : r.handleBroken core now broken = some r') : Aside Effect.breaking r r' := by
  have recached := r.lookup_recached core broken.path broken.watermark
  rw [handleBroken] at handled
  split at handled
  · rename_i p watermark r₁ found
    rw [found] at recached
    cases handled
    exact (Aside.of_recached recached).trans (.emit r₁ rfl)
  · rename_i watermark r₁ found
    rw [found] at recached
    exact (Aside.of_recached recached).trans
      ((receiveBroken_aside handled).mono fun _ => Effect.breaking_of_answering)

theorem receiveTraffic_aside {tr : Traffic} (received : r.receiveTraffic core now tr = some r') :
    Aside Effect.breaking r r' := by
  rw [receiveTraffic] at received
  split at received
  · cases received
    exact .emit r rfl
  · exact handleBroken_aside received

theorem handleTraffic_aside {tr : Traffic} (handled : r.handleTraffic core now tr = some r') :
    Aside Effect.routing r r' := by
  have recached := r.lookup_recached core tr.path tr.watermark
  rw [handleTraffic] at handled
  split at handled
  · rename_i p watermark r₁ found
    rw [found] at recached
    cases handled
    exact (Aside.of_recached recached).trans (.emit r₁ rfl)
  · rename_i watermark r₁ found
    rw [found] at recached
    exact (Aside.of_recached recached).trans
      ((receiveTraffic_aside handled).mono fun _ => Effect.routing_of_breaking)

end Router

end Uqda.Network
