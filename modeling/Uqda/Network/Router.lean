import Uqda.Network.Blooms
import Uqda.Network.Lookup

/-!
# The router

The rest of `third_party/ironwood/network/router.go`: how a router takes in announcements, chooses
its parent, becomes a root, and tells its peers.

`_update` is without a result here when the source returns `false`, in which case nothing has
changed.  The maps `ports`, `ancs` and `resSeqs` and the counter `resSeqCtr` are only written, so
they are left out.
-/

namespace Uqda.Network

open Uqda.Store

/-- `routerUnknownLatency`, the largest 32-bit number of nanoseconds. -/
def routerUnknownLatency : Int64 := 4294967295

namespace Router

variable (core : Core)

/-- `_resetCache`. -/
def resetCache (r : Router) : Router := { r with cache := ∅ }

/-! ## Announcements -/

/-- The `switch` of `_update`: whether an announcement replaces an info. -/
def replaces (info : RouterInfo) (ann : RouterAnnounce) : Bool :=
  if info.seq > ann.seq then false
  else if info.seq < ann.seq then true
  else if less info.parent ann.parent then false
  else if less ann.parent info.parent then true
  else decide (ann.nonce < info.nonce)

/-- The rest of `_update`: forget to whom the old info was sent, and start a timer. -/
def store (r : Router) (ann : RouterAnnounce) : Router :=
  { r with
    sent := r.sent.mapValues fun sent => sent.filter (· ≠ ann.key)
    cache := ∅
    timers := r.timers.insert ann.key r.newTimer
    newTimer := r.newTimer + 1
    infos := r.infos.insert ann.key ann.info }

/-- `_update`. -/
def update (r : Router) (ann : RouterAnnounce) : Option Router :=
  match r.infos.lookup ann.key with
  | some info => if replaces info ann then some (r.store ann) else none
  | none => some (r.store ann)

/-- The callbacks of the timers: the router's own info is to be refreshed, any other expires. -/
def timerFired (r : Router) (key : PublicKey) (timer : Nat) : Router :=
  if r.timers.lookup key = some timer then
    if key = core.publicKey then { r with refresh := true }
    else
      { r with
        infos := r.infos.erase key
        timers := r.timers.erase key
        sent := r.sent.mapValues fun sent => sent.filter (· ≠ key)
        cache := ∅ }
  else r

/-- `r.sent[peerKey][key] = struct{}{}`, which panics if there is no map for the peer. -/
def markSent (r : Router) (peerKey key : PublicKey) : Option Router :=
  match r.sent.lookup peerKey with
  | some sent => some { r with sent := r.sent.insert peerKey (sent.insert key) }
  | none => none

/-- `_handleAnnounce`. -/
def handleAnnounce (r : Router) (p : PeerId) (ann : RouterAnnounce) : Option Router :=
  match r.update ann with
  | some r =>
      let r := if ann.key = core.publicKey then { r with refresh := true } else r
      r.markSent p.key ann.key
  | none => do
      let oldInfo ← r.infos.lookup ann.key
      let r ← r.markSent p.key ann.key
      if ann.info ≠ oldInfo then
        -- it was worse, so tell them what we know
        return r.send p (.announce (oldInfo.getAnnounce ann.key))
      else return r

/-- One of the two loops of `_sendAnnounces` over an ancestry. -/
def unsent (anc : List PublicKey) (toSend sent : List PublicKey) :
    List PublicKey × List PublicKey :=
  anc.foldl
    (fun (toSend, sent) k =>
      if sent.contains k then (toSend, sent) else (toSend ++ [k], sent.insert k))
    (toSend, sent)

/-- One iteration of `_sendAnnounces`. -/
def sendAnnouncesTo (selfAnc : List PublicKey) (r : Router) (entry : PublicKey × List PublicKey) :
    Option Router := do
  let (peerKey, sent) := entry
  let peerAnc := r.getAncestry peerKey
  let (toSend, sent) := unsent selfAnc [] sent
  let (toSend, sent) := unsent peerAnc toSend sent
  let r := { r with sent := r.sent.insert peerKey sent }
  let anns ← toSend.mapM fun k => (r.infos.lookup k).map fun info => info.getAnnounce k
  return r.sendEach (r.links peerKey) (anns.map .announce)

/-- `_sendAnnounces`. -/
def sendAnnounces (r : Router) : Option Router :=
  r.sent.toList.foldlM (sendAnnouncesTo (r.getAncestry core.publicKey)) r

/-! ## Requests and responses -/

/-- `_newReq`. -/
def newReq (r : Router) : RouterSigReq × Router :=
  let seq :=
    match r.infos.lookup core.publicKey with
    | some info => info.seq
    | none => 0
  (⟨seq + 1, core.nonces r.drawn⟩, { r with drawn := r.drawn + 1 })

/-- `_clearReqs`. -/
def clearReqs (r : Router) : Router := { r with requests := ∅, responses := ∅ }

/-- One iteration of `_sendReqs`. -/
def sendReqTo (r : Router) (entry : PublicKey × List PeerId) : Router :=
  let (pk, ps) := entry
  let (req, r) := r.newReq core
  let r := { r with requests := r.requests.insert pk req }
  let r := { r with responded := r.responded.filter (· ∉ ps) }
  r.sendEach ps [.sigReq req]

/-- `_sendReqs`. -/
def sendReqs (r : Router) : Router :=
  let r := r.clearReqs
  r.peers.toList.foldl (sendReqTo core) r

/-- `_handleRequest`. -/
def handleRequest (r : Router) (p : PeerId) (req : RouterSigReq) : Option Router := do
  let res : RouterSigRes := ⟨req, p.port, Vector.replicate 64 0⟩
  let bs ← res.bytesForSig p.key core.publicKey
  return r.send p (.sigRes { res with psig := core.crypto.sign core.privateKey bs })

/-- The zero value of `routerSigReq`. -/
def zeroReq : RouterSigReq := ⟨0, 0⟩

/-- The weighted average of `_handleResponse`. -/
def newLag (lag rtt : Int64) : Int64 :=
  if lag = routerUnknownLatency then rtt * 2
  else lag * 7 / 8 + (if rtt ≤ lag * 2 then rtt else lag * 2) / 8

/-- `_handleResponse`. -/
def handleResponse (r : Router) (p : PeerId) (res : RouterSigRes) (rtt : Int64) : Router :=
  let expected := (r.requests.lookup p.key).getD zeroReq = res.toRouterSigReq
  let r :=
    if p.key ∉ r.responses ∧ expected then
      { r with responses := r.responses.insert p.key res }
    else r
  if p ∉ r.responded ∧ expected then
    { r with
      responded := r.responded ++ [p]
      lags := r.lags.insert p (newLag ((r.lags.lookup p).getD 0) rtt) }
  else r

/-! ## The parent -/

/-- `_useResponse`. -/
def useResponse (r : Router) (peerKey : PublicKey) (res : RouterSigRes) : Option Router := do
  let bs ← res.bytesForSig core.publicKey peerKey
  let info : RouterInfo :=
    { toRouterSigRes := res, parent := peerKey, sig := core.crypto.sign core.privateKey bs }
  r.update (info.getAnnounce core.publicKey)

/-- The announcement of `_becomeRoot`. -/
def rootAnnounce (req : RouterSigReq) : Option RouterAnnounce := do
  let res : RouterSigRes := ⟨req, 0, Vector.replicate 64 0⟩
  let bs ← res.bytesForSig core.publicKey core.publicKey
  let psig := core.crypto.sign core.privateKey bs
  return {
    toRouterSigRes := { res with psig := psig }
    key := core.publicKey
    parent := core.publicKey
    sig := psig }

/-- `_becomeRoot`, where `_fix` panics if it returns `false`. -/
def becomeRoot (r : Router) : Option Router := do
  let (req, r) := r.newReq core
  let ann ← rootAnnounce core req
  let good ← ann.check core.crypto
  if !good then none
  else r.update ann

/-- `bestRoot`, `bestParent` and `bestCost`. -/
structure Choice where
  root : PublicKey
  parent : PublicKey
  cost : UInt64

/-- `r.infos[r.core.crypto.publicKey].parent`. -/
def selfParent (r : Router) : PublicKey :=
  match r.infos.lookup core.publicKey with
  | some self => self.parent
  | none => zeroKey

/-- The loop of `_fix` over the links to a peer: the lowest cost of a way to the root. -/
def linkCost (r : Router) (dist : UInt64) (ps : List PeerId) : UInt64 :=
  ps.foldl
    (fun cost p => if dist * r.getCost p < cost then dist * r.getCost p else cost)
    allOnes

/-- The first part of `_fix`: whether the current parent leads to a better root. -/
def currentChoice (r : Router) : Choice :=
  if r.selfParent core ∈ r.peers then
    let (root, dists) := r.getRootAndDists core.publicKey
    if less root core.publicKey then
      ⟨root, r.selfParent core,
        r.linkCost ((dists.lookup root).getD 0) (r.links (r.selfParent core))⟩
    else ⟨core.publicKey, core.publicKey, allOnes⟩
  else ⟨core.publicKey, core.publicKey, allOnes⟩

/-- One iteration of `_fix` over the responses. -/
def consider (r : Router) (best : Choice) (pk : PublicKey) : Choice :=
  if pk ∉ r.infos then best
  else
    let (pRoot, pDists) := r.getRootAndDists pk
    -- a peer whose way to the root leads through us is no parent
    if core.publicKey ∈ pDists then best
    else
      let cost := r.linkCost ((pDists.lookup pRoot).getD 0) (r.links pk)
      let best' := if less pRoot best.root then ⟨pRoot, pk, cost⟩ else best
      if pRoot ≠ best'.root then best'
      else if (r.refresh ∧ cost * 2 < best'.cost) ∨
          (best'.parent ≠ r.selfParent core ∧ cost < best'.cost) then
        ⟨pRoot, pk, cost⟩
      else best'

/-- The choice of `_fix`. -/
def choose (r : Router) : Choice :=
  r.responses.keys.foldl (r.consider core) (r.currentChoice core)

/-- The response of a chosen parent is used unless the router is to be the root itself. -/
def adopt (r : Router) (best : Choice) : Option Router :=
  if best.root ≠ core.publicKey then
    match r.responses.lookup best.parent with
    | some res => r.useResponse core best.parent res
    | none => none
  else none

/-- The end of the first two cases of `_fix`. -/
def settle (r : Router) : Router :=
  { r with refresh := false, doRoot1 := false, doRoot2 := false }.sendReqs core

/-- `_fix`. -/
def fix (r : Router) : Option Router :=
  let best := r.choose core
  if r.refresh ∨ r.doRoot1 ∨ r.doRoot2 ∨ r.selfParent core ≠ best.parent then
    match r.adopt core best with
    | some r => some (r.settle core)
    | none =>
        if r.doRoot2 then
          match r.becomeRoot core with
          | some r => some (r.settle core)
          | none => none
        else if !r.doRoot1 then some { r with doRoot1 := true }
        else some r
  else some r

/-- `_doMaintenance`. -/
def doMaintenance (r : Router) : Option Router := do
  let r := { r with doRoot2 := r.doRoot2 || r.doRoot1 }
  let r := r.resetCache
  let r ← r.fix core
  let r ← r.sendAnnounces core
  let r ← r.fixOnTree core
  r.sendAllBlooms core

/-! ## Peers -/

/-- The loop of `addPeer`: what was sent over other connections is sent again. -/
def resend (r : Router) (p : PeerId) : Option Router :=
  (r.sentTo p.key).foldlM
    (fun r k => (r.infos.lookup k).map fun info => r.send p (.announce (info.getAnnounce k))) r

/-- The request for a peer, made if there is none. -/
def requestFor (r : Router) (key : PublicKey) : RouterSigReq × Router :=
  match r.requests.lookup key with
  | some req => (req, r)
  | none =>
      let (req, r) := r.newReq core
      (req, { r with requests := r.requests.insert key req })

/-- The first part of `addPeer`: maps for a new peer, or what an old one was sent already. -/
def enroll (r : Router) (p : PeerId) : Option Router :=
  if p.key ∈ r.peers then r.resend p
  else
    some ({ r with
      peers := r.peers.insert p.key []
      sent := r.sent.insert p.key [] }.addInfo p.key)

/-- The rest of `addPeer`: the link is listed and gets a request and a filter. -/
def greet (r : Router) (p : PeerId) : Option Router :=
  let r := { r with
    peers := r.peers.insert p.key ((r.links p.key).insert p)
    lags := r.lags.insert p routerUnknownLatency }
  let (req, r) := r.requestFor core p.key
  let r := { r with responded := r.responded.filter (· ≠ p) }
  let r := r.send p (.sigReq req)
  r.sendBloom p

/-- `addPeer`. -/
def addPeer (r : Router) (p : PeerId) : Option Router :=
  (r.enroll p).bind fun r => r.greet core p

/-- `removePeer`. -/
def removePeer (r : Router) (p : PeerId) : Option Router :=
  let ps := (r.links p.key).filter (· ≠ p)
  let r := { r with
    lags := r.lags.erase p
    responded := r.responded.filter (· ≠ p) }
  if ps.length = 0 then
    some ({ r with
      peers := r.peers.erase p.key
      sent := r.sent.erase p.key
      requests := r.requests.erase p.key
      responses := r.responses.erase p.key
      cache := r.cache.erase p.key }.removeInfo p.key)
  else
    let r := { r with peers := r.peers.insert p.key ps }
    ps.foldlM sendBloom r

end Router

end Uqda.Network
