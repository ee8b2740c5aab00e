import Uqda.Network.Tree

/-!
# Bloom filters of the subtrees

The second half of `third_party/ironwood/network/bloomfilter.go`.  For every peer a router keeps
the filter that it sent last and the filter that it received.  What it sends to a peer on the tree
covers its own key and what the other peers on the tree sent, so a filter covers the keys on one
side of a link of the tree, and a lookup can be sent into those sides only that may have the key.

The filter itself is `github.com/bits-and-blooms/bloom`, an array of bits.
-/

namespace Uqda.Network

open Uqda.Store

namespace Bloom

/-- `newBloom`. -/
def new : Bloom := ⟨Vector.replicate 128 0⟩

/-- The word that holds a bit. -/
def wordOf (bit : Fin 8192) : Fin 128 := ⟨bit.val / 64, by omega⟩

/-- A bit within its word. -/
def maskOf (bit : Fin 8192) : UInt64 := 1 <<< UInt64.ofNat (bit.val % 64)

/-- Set one bit. -/
def setBit (b : Bloom) (bit : Fin 8192) : Bloom :=
  ⟨b.words.set (wordOf bit) (b.word (wordOf bit) ||| maskOf bit)⟩

/-- Whether a bit is set. -/
def hasBit (b : Bloom) (bit : Fin 8192) : Bool := b.word (wordOf bit) &&& maskOf bit != 0

/-- `addKey`. -/
def addKey (core : Core) (b : Bloom) (key : PublicKey) : Bloom :=
  (core.locations key).foldl setBit b

/-- `addFilter`. -/
def addFilter (b f : Bloom) : Bloom := ⟨Vector.zipWith (· ||| ·) b.words f.words⟩

/-- `filter.Test`. -/
def test (core : Core) (b : Bloom) (key : PublicKey) : Bool := (core.locations key).all b.hasBit

end Bloom

/-- `xKey`. -/
def xKey (core : Core) (key : PublicKey) : PublicKey := core.bloomTransform key

namespace Router

/-- `_isOnTree`. -/
def isOnTree (r : Router) (key : PublicKey) : Bool :=
  match r.blooms.lookup key with
  | some pbi => pbi.onTree
  | none => false

/-- Whether the link to a peer is on the tree: one of the two is the parent of the other. -/
def treeLink (core : Core) (r : Router) (selfInfo : RouterInfo) (key : PublicKey) : Bool :=
  if selfInfo.parent = key then true
  else
    match r.infos.lookup key with
    | some info => info.parent = core.publicKey
    | none => false

/-- One iteration of `_fixOnTree`. -/
def fixOnTreeOne (core : Core) (selfInfo : RouterInfo) (r : Router)
    (entry : PublicKey × BloomInfo) : Router :=
  let (pk, pbi) := entry
  let onTree := r.treeLink core selfInfo pk
  if pbi.onTree && !onTree then
    let r := r.sendEach (r.links pk) [.bloom .new]
    { r with blooms := r.blooms.insert pk { pbi with onTree := onTree, send := .new } }
  else { r with blooms := r.blooms.insert pk { pbi with onTree := onTree } }

/-- `_fixOnTree`. -/
def fixOnTree (core : Core) (r : Router) : Option Router :=
  match r.infos.lookup core.publicKey with
  | some selfInfo => some (r.blooms.toList.foldl (fixOnTreeOne core selfInfo) r)
  | none => none

/-- `_addInfo`. -/
def addInfo (r : Router) (key : PublicKey) : Router :=
  { r with blooms := r.blooms.insert key { send := .new, recv := .new } }

/-- `_removeInfo`. -/
def removeInfo (r : Router) (key : PublicKey) : Router :=
  { r with blooms := r.blooms.erase key }

/-- `_handleBloom`. -/
def handleBloom (r : Router) (fromPeer : PeerId) (b : Bloom) : Router :=
  match r.blooms.lookup fromPeer.key with
  | some pbi => { r with blooms := r.blooms.insert fromPeer.key { pbi with recv := b } }
  | none => r

/-- The filter that a peer should have: the router's own key and what the other peers on the tree
sent. -/
def need (core : Core) (r : Router) (key : PublicKey) : Bloom :=
  r.blooms.toList.foldl
    (fun b (k, pbi) => if !pbi.onTree then b else if k = key then b else b.addFilter pbi.recv)
    (Bloom.new.addKey core (xKey core core.publicKey))

/-- The part of `_getBloomFor` that may keep bits that were sent and are not needed any more. -/
def keepSent (pbi : BloomInfo) (b : Bloom) (keepOnes : Bool) : Bloom × BloomInfo :=
  if keepOnes then
    if !pbi.zDirty then
      if b.addFilter pbi.send ≠ b then (b.addFilter pbi.send, { pbi with zDirty := true })
      else (b.addFilter pbi.send, pbi)
    else (b.addFilter pbi.send, pbi)
  else (b, { pbi with zDirty := false })

/-- `_getBloomFor`: the filter and whether it is new. -/
def getBloomFor (core : Core) (r : Router) (key : PublicKey) (keepOnes : Bool) :
    Option (Bloom × Bool × Router) := do
  let pbi ← r.blooms.lookup key
  let (b, pbi) := keepSent pbi (r.need core key) keepOnes
  if b = pbi.send then return (pbi.send, false, r)
  else return (b, true, { r with blooms := r.blooms.insert key { pbi with send := b } })

/-- `_sendBloom`.  For a key without an entry there would be no filter to encode. -/
def sendBloom (r : Router) (p : PeerId) : Option Router := do
  let pbi ← r.blooms.lookup p.key
  return r.send p (.bloom pbi.send)

/-- One iteration of `_sendAllBlooms`. -/
def sendBloomTo (core : Core) (r : Router) (entry : PublicKey × BloomInfo) : Option Router := do
  let (k, pbi) := entry
  if !pbi.onTree then return r
  let keepOnes := !pbi.zDirty
  let (b, isNew, r) ← r.getBloomFor core k keepOnes
  let pbi ← r.blooms.lookup k
  let seq := pbi.seq + 1
  if isNew || seq ≥ 3600 then
    let ps ← r.peers.lookup k
    let r := r.sendEach ps [.bloom b]
    return { r with blooms := r.blooms.insert k { pbi with seq := 0 } }
  else
    return { r with blooms := r.blooms.insert k { pbi with seq := seq } }

/-- `_sendAllBlooms`. -/
def sendAllBlooms (core : Core) (r : Router) : Option Router :=
  r.blooms.toList.foldlM (sendBloomTo core) r

/-- One link compared with the best so far. -/
def betterLink (best : Option PeerId) (p : PeerId) : Option PeerId :=
  match best with
  | none => some p
  | some bestPeer => if p.prio < bestPeer.prio then some p else some bestPeer

/-- The link with the lowest priority. -/
def bestLink (ps : List PeerId) : Option PeerId := ps.foldl betterLink none

/-- One iteration of `_sendMulticast`. -/
def sendMulticastTo (core : Core) (packet : Message) (fromKey toKey : PublicKey) (r : Router)
    (entry : PublicKey × BloomInfo) : Option Router := do
  let (k, pbi) := entry
  if !pbi.onTree then return r
  if k = fromKey then return r
  if !pbi.recv.test core (xKey core toKey) then return r
  let bestPeer ← bestLink (r.links k)
  return r.send bestPeer packet

/-- `_sendMulticast`. -/
def sendMulticast (core : Core) (r : Router) (packet : Message) (fromKey toKey : PublicKey) :
    Option Router :=
  r.blooms.toList.foldlM (sendMulticastTo core packet fromKey toKey) r

end Router

end Uqda.Network
