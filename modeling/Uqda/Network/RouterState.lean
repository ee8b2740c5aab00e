import Uqda.Network.Framing
import Uqda.Network.Signing
import Uqda.Store.Map

/-!
# The state of the router

The types `router` of `third_party/ironwood/network/router.go`, `blooms` of `bloomfilter.go` and
`pathfinder` of `pathfinder.go`, which are one actor.  Its methods change the state and hand
messages to the actors of the peers; those are collected in `effects`, in order.  A method that
panics has no result.

A `*peer` is the data that the router reads of it.  Two connections differ in `order`, the number
of the connection.  A timer is a number, so that a callback can tell whether it is still the
timer of its entry.  The random numbers of the requests come from a fixed sequence.
-/

namespace Uqda.Network

open Uqda.Store

/-- What the router reads of a `*peer`. -/
structure PeerId where
  key : PublicKey
  port : PeerPort
  prio : UInt8
  order : UInt64
  deriving DecidableEq, Repr

/-- `publicKey.less`, byte by byte. -/
def lessFrom : List UInt8 → List UInt8 → Bool
  | byte :: key, compared :: comparedKey =>
      if byte < compared then true
      else if byte > compared then false
      else lessFrom key comparedKey
  | _, _ => false

/-- `publicKey.less`. -/
def less (key comparedKey : PublicKey) : Bool := lessFrom key.toList comparedKey.toList

/-- `routerInfo`. -/
structure RouterInfo extends RouterSigRes where
  parent : PublicKey
  sig : Signature
  deriving DecidableEq, Repr

/-- `routerInfo.getAnnounce`. -/
def RouterInfo.getAnnounce (info : RouterInfo) (key : PublicKey) : RouterAnnounce :=
  { toRouterSigRes := info.toRouterSigRes, key := key, parent := info.parent, sig := info.sig }

/-- The `routerInfo` that is stored for an announcement. -/
def RouterAnnounce.info (ann : RouterAnnounce) : RouterInfo :=
  { toRouterSigRes := ann.toRouterSigRes, parent := ann.parent, sig := ann.sig }

/-- `bloomInfo`. -/
structure BloomInfo where
  send : Bloom
  recv : Bloom
  seq : UInt16 := 0
  onTree : Bool := false
  zDirty : Bool := false

/-- The clock: time that passes, and the seconds of `Unix`. -/
structure Now where
  mono : Int
  unix : UInt64

/-- `pathInfo`. -/
structure PathInfo where
  path : List PeerPort
  seq : UInt64
  reqTime : Int
  timer : Nat
  traffic : Option Traffic
  broken : Bool

/-- `pathRumor`. -/
structure PathRumor where
  traffic : Option Traffic
  sendTime : Int
  timer : Nat

/-- What the router hands to other actors, itself included: messages for a peer, traffic for its
own inbox and for the reader of the connection, and calls of the configured `pathNotify`. -/
inductive Effect
  | send (p : PeerId) (message : Message)
  | handleTraffic (tr : Traffic)
  | deliver (tr : Traffic)
  | pathNotify (key : PublicKey)
  deriving DecidableEq

/-- The parts of `core` that do not change: the keys and the configuration.  `locations` are the
bits of a key in a Bloom filter, and `nonces` what the source of random numbers will give. -/
structure Core where
  crypto : Crypto
  privateKey : crypto.PrivateKey
  publicKey : PublicKey
  bloomTransform : PublicKey → PublicKey
  locations : PublicKey → List (Fin 8192)
  nonces : Nat → UInt64
  pathThrottle : Int

/-- `router`, with its `blooms` and its `pathfinder`. -/
structure Router where
  peers : Map PublicKey (List PeerId) := ∅
  sent : Map PublicKey (List PublicKey) := ∅
  infos : Map PublicKey RouterInfo := ∅
  timers : Map PublicKey Nat := ∅
  cache : Map PublicKey (List PeerPort) := ∅
  lags : Map PeerId Int64 := ∅
  requests : Map PublicKey RouterSigReq := ∅
  responses : Map PublicKey RouterSigRes := ∅
  responded : List PeerId := []
  refresh : Bool := false
  doRoot1 : Bool := false
  doRoot2 : Bool := false
  blooms : Map PublicKey BloomInfo := ∅
  info : PathNotifyInfo
  paths : Map PublicKey PathInfo := ∅
  rumors : Map PublicKey PathRumor := ∅
  drawn : Nat := 0
  newTimer : Nat := 0
  effects : List Effect := []

namespace Router

/-- `sendDirect` and `sendQueued`. -/
def send (r : Router) (p : PeerId) (message : Message) : Router :=
  { r with effects := r.effects ++ [.send p message] }

/-- The same messages for all of some peers. -/
def sendEach (r : Router) (ps : List PeerId) (messages : List Message) : Router :=
  ps.foldl (fun r p => messages.foldl (fun r message => r.send p message) r) r

/-- The links to a node, none if it is no peer. -/
def links (r : Router) (key : PublicKey) : List PeerId := (r.peers.lookup key).getD []

/-- The keys whose information was sent to a peer. -/
def sentTo (r : Router) (key : PublicKey) : List PublicKey := (r.sent.lookup key).getD []

theorem sendEach_eq (r : Router) (ps : List PeerId) (messages : List Message) :
    r.sendEach ps messages =
      { r with effects := r.effects ++ ps.flatMap fun p => messages.map (Effect.send p) } := by
  have inner : ∀ (p : PeerId) (messages : List Message) (r : Router),
      messages.foldl (fun r message => r.send p message) r =
        { r with effects := r.effects ++ messages.map (Effect.send p) } := by
    intro p messages
    induction messages with
    | nil => simp
    | cons message messages ih =>
        intro r
        rw [List.foldl_cons, ih]
        simp [send]
  simp only [sendEach, inner]
  induction ps generalizing r with
  | nil => simp
  | cons p ps ih => simp [ih]

@[simp]
theorem sendEach_blooms (r : Router) (ps : List PeerId) (messages : List Message) :
    (r.sendEach ps messages).blooms = r.blooms := by
  rw [sendEach_eq]

@[simp]
theorem sendEach_effects (r : Router) (ps : List PeerId) (messages : List Message) :
    (r.sendEach ps messages).effects =
      r.effects ++ ps.flatMap fun p => messages.map (Effect.send p) := by
  rw [sendEach_eq]

end Router

/-! ## The order of the keys -/

theorem lessFrom_iff {key compared : List UInt8} (same : key.length = compared.length) :
    lessFrom key compared = true ↔ key < compared := by
  induction key generalizing compared with
  | nil =>
      obtain rfl := List.length_eq_zero_iff.mp same.symm
      simp [lessFrom]
  | cons byte key ih =>
      cases compared with
      | nil => simp at same
      | cons other compared =>
          rw [lessFrom, List.cons_lt_cons_iff]
          split
          · rename_i below
            simp [below]
          · rename_i notBelow
            split
            · rename_i above
              have different : byte ≠ other := fun equal => by
                rw [equal] at above
                exact UInt8.lt_irrefl other above
              simp [notBelow, different]
            · rename_i notAbove
              have equal : byte = other :=
                UInt8.le_antisymm (UInt8.not_lt.mp notAbove) (UInt8.not_lt.mp notBelow)
              simp [equal, ih (Nat.succ.inj same)]

theorem less_iff {key compared : PublicKey} :
    less key compared = true ↔ key.toList < compared.toList :=
  lessFrom_iff (by rw [Vector.length_toList, Vector.length_toList])

theorem less_irrefl (key : PublicKey) : less key key = false := by
  rw [Bool.eq_false_iff, Ne, less_iff]
  exact List.lt_irrefl _

theorem less_trans {first second third : PublicKey} (below : less first second = true)
    (above : less second third = true) : less first third = true := by
  rw [less_iff] at below above ⊢
  exact List.lt_trans below above

theorem eq_of_not_less {key compared : PublicKey} (notBelow : less key compared = false)
    (notAbove : less compared key = false) : key = compared := by
  rw [Bool.eq_false_iff, Ne, less_iff] at notBelow notAbove
  have same : key.toList = compared.toList :=
    List.le_antisymm (List.not_lt.mp notAbove) (List.not_lt.mp notBelow)
  exact Vector.toList_inj.mp same

theorem not_less_of_less {key compared : PublicKey} (below : less key compared = true) :
    less compared key = false := by
  by_contra above
  rw [Bool.not_eq_false] at above
  have := less_trans below above
  rw [less_irrefl] at this
  cases this

theorem not_less_trans {first second third : PublicKey} (notBelow : less second first = false)
    (notAbove : less third second = false) : less third first = false := by
  rw [Bool.eq_false_iff, Ne, less_iff] at notBelow notAbove ⊢
  exact List.not_lt.mpr (List.le_trans (List.not_lt.mp notBelow) (List.not_lt.mp notAbove))

theorem less_of_less_of_not_less {first second third : PublicKey} (below : less first second = true)
    (notBelow : less third second = false) : less first third = true := by
  by_contra notLess
  rw [Bool.not_eq_true] at notLess
  rcases Bool.eq_false_or_eq_true (less third first) with above | notAbove
  · rw [less_trans above below] at notBelow
    cases notBelow
  · rw [eq_of_not_less notLess notAbove, notBelow] at below
    cases below

theorem less_of_not_less_of_ne {first second : PublicKey} (notBelow : less second first = false)
    (different : first ≠ second) : less first second = true := by
  by_contra notLess
  rw [Bool.not_eq_true] at notLess
  exact different (eq_of_not_less notLess notBelow)

end Uqda.Network
