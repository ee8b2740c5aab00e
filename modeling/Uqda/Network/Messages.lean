import Uqda.Network.Wire

/-!
# Encoders and decoders of the message types

The message types of `third_party/ironwood/network/router.go`, `pathfinder.go` and
`traffic.go` with their methods `size`, `encode`, `chop` and `decode`.  For each type `bytes`
is what `encode` appends when it does not panic, and the type's law says that its decoder is
a left inverse of `bytes` and never accepts fewer bytes than it would write.
-/

namespace Uqda.Network

open Uqda.Wire

/-- The end of every encoder: panic if the bytes appended are not as many as announced. -/
def checkSize (start : Nat) (out : Bytes) (size : Nat) : Option Bytes :=
  if out.length - start ≠ size then none else some out

theorem checkSize_append (out more : Bytes) {size : Nat} (exact : size = more.length) :
    checkSize out.length (out ++ more) size = some (out ++ more) := by
  rw [checkSize, List.length_append, Nat.add_sub_cancel_left, exact, if_neg (not_not.mpr rfl)]

/-- The end of most decoders: nothing may be left. -/
def noMore {α : Type} : Option (α × Bytes) → Option α
  | some (value, data) => if data.length ≠ 0 then none else some value
  | none => none

theorem noMore_eq_chopAll {α : Type} (chop : Chopper α) (data : Bytes) :
    noMore (chop data) = chopAll chop data := by
  rw [noMore.eq_def, chopAll]
  rcases chop data with _ | ⟨value, _ | ⟨byte, rest⟩⟩
  · rfl
  · rfl
  · rfl

theorem noMore_bind {α β : Type} (chopped : Option β) (next : β → Option (α × Bytes)) :
    noMore (chopped.bind next) = chopped.bind fun value => noMore (next value) := by
  cases chopped with
  | none => rfl
  | some value => rfl

theorem noMore_map {α β : Type} (chopped : Option (β × Bytes)) (pack : β → α) :
    ((noMore chopped).bind fun value => some (pack value)) =
      chopped.bind fun pair => noMore (some (pack pair.1, pair.2)) := by
  rcases chopped with _ | ⟨value, _ | ⟨byte, rest⟩⟩
  · rfl
  · rfl
  · rfl

/-! ## Requests for a signature -/

/-- `routerSigReq`. -/
structure RouterSigReq where
  seq : UInt64
  nonce : UInt64
  deriving DecidableEq, Repr

namespace RouterSigReq

/-- `routerSigReq.size`. -/
def size (req : RouterSigReq) : Nat := wireSizeUint req.seq + wireSizeUint req.nonce

/-- `routerSigReq.encode`. -/
def encode (req : RouterSigReq) (out : Bytes) : Option Bytes :=
  let start := out.length
  let out := wireAppendUint out req.seq
  let out := wireAppendUint out req.nonce
  checkSize start out req.size

/-- `routerSigReq.bytesForSig`: the keys of the node and of its parent, and the request. -/
def bytesForSig (req : RouterSigReq) (node parent : PublicKey) : Option Bytes :=
  req.encode (node.toList ++ parent.toList)

/-- `routerSigReq.chop`. -/
def chop : Chopper RouterSigReq := fun data => do
  let (seq, data) ← wireChopUint data
  let (nonce, data) ← wireChopUint data
  return (⟨seq, nonce⟩, data)

/-- `routerSigReq.decode`. -/
def decode (data : Bytes) : Option RouterSigReq := noMore (chop data)

/-- What `encode` writes. -/
def bytes (req : RouterSigReq) : Bytes := putUvarint req.seq ++ putUvarint req.nonce

theorem size_eq (req : RouterSigReq) : req.size = req.bytes.length :=
  List.length_append.symm

theorem encode_eq (req : RouterSigReq) (out : Bytes) :
    req.encode out = some (out ++ req.bytes) := by
  rw [← checkSize_append out req.bytes req.size_eq]
  simp only [encode, wireAppendUint, bytes, List.append_assoc]

theorem chops : Chops bytes chop (fun _ => True) := by
  refine (chops_uint.both chops_uint).iso (fun pair => ⟨pair.1, pair.2⟩)
    (fun req => (req.seq, req.nonce)) (fun _ => rfl) (fun _ => rfl) (fun _ => rfl) ?_ ?_
  · intro data
    simp only [chop, chopBoth, Option.bind_eq_bind, Option.pure_def, Option.map_eq_bind,
      Option.bind_assoc]
    rfl
  · simp

end RouterSigReq

/-! ## Signatures of a parent -/

/-- `routerSigRes`. -/
structure RouterSigRes extends RouterSigReq where
  port : PeerPort
  psig : Signature
  deriving DecidableEq, Repr

namespace RouterSigRes

/-- `routerSigRes.size`. -/
def size (res : RouterSigRes) : Nat :=
  res.toRouterSigReq.size + wireSizeUint res.port + 64

/-- `routerSigRes.encode`. -/
def encode (res : RouterSigRes) (out : Bytes) : Option Bytes := do
  let start := out.length
  let out ← res.toRouterSigReq.encode out
  let out := wireAppendUint out res.port
  let out := out ++ res.psig.toList
  checkSize start out res.size

/-- What the parent and the node sign: both keys, the request and the port. -/
def bytesForSig (res : RouterSigRes) (node parent : PublicKey) : Option Bytes := do
  let bs ← res.toRouterSigReq.bytesForSig node parent
  return wireAppendUint bs res.port

/-- `routerSigRes.chop`. -/
def chop : Chopper RouterSigRes := fun data => do
  let (req, data) ← RouterSigReq.chop data
  let (port, data) ← wireChopUint data
  let (psig, data) ← wireChopSlice 64 data
  return (⟨req, port, psig⟩, data)

/-- `routerSigRes.decode`. -/
def decode (data : Bytes) : Option RouterSigRes := noMore (chop data)

/-- What `encode` writes. -/
def bytes (res : RouterSigRes) : Bytes :=
  res.toRouterSigReq.bytes ++ (putUvarint res.port ++ res.psig.toList)

theorem size_eq (res : RouterSigRes) : res.size = res.bytes.length := by
  rw [size, bytes, RouterSigReq.size_eq, wireSizeUint, List.length_append, List.length_append,
    Vector.length_toList, Nat.add_assoc]

theorem encode_eq (res : RouterSigRes) (out : Bytes) :
    res.encode out = some (out ++ res.bytes) := by
  rw [← checkSize_append out res.bytes res.size_eq]
  simp only [encode, RouterSigReq.encode_eq, Option.bind_eq_bind, Option.bind_some, wireAppendUint,
    bytes, List.append_assoc]

theorem chops : Chops bytes chop (fun _ => True) := by
  refine (RouterSigReq.chops.both (chops_uint.both (chops_slice 64))).iso
    (fun pair => ⟨pair.1, pair.2.1, pair.2.2⟩)
    (fun res => (res.toRouterSigReq, res.port, res.psig)) (fun _ => rfl) (fun _ => rfl)
    (fun _ => rfl) ?_ ?_
  · intro data
    simp only [chop, chopBoth, Option.bind_eq_bind, Option.pure_def, Option.map_eq_bind,
      Option.bind_assoc]
    rfl
  · simp

end RouterSigRes

/-! ## Announcements -/

/-- `routerAnnounce`. -/
structure RouterAnnounce extends RouterSigRes where
  key : PublicKey
  parent : PublicKey
  sig : Signature
  deriving DecidableEq, Repr

namespace RouterAnnounce

/-- `routerAnnounce.size`. -/
def size (ann : RouterAnnounce) : Nat := 32 + 32 + ann.toRouterSigRes.size + 64

/-- `routerAnnounce.encode`. -/
def encode (ann : RouterAnnounce) (out : Bytes) : Option Bytes := do
  let start := out.length
  let out := out ++ ann.key.toList
  let out := out ++ ann.parent.toList
  let out ← ann.toRouterSigRes.encode out
  let out := out ++ ann.sig.toList
  checkSize start out ann.size

/-- What `decode` reads, and the bytes that are left. -/
def chop : Chopper RouterAnnounce := fun data => do
  let (key, data) ← wireChopSlice 32 data
  let (parent, data) ← wireChopSlice 32 data
  let (res, data) ← RouterSigRes.chop data
  let (sig, data) ← wireChopSlice 64 data
  return (⟨res, key, parent, sig⟩, data)

/-- `routerAnnounce.decode`. -/
def decode (data : Bytes) : Option RouterAnnounce := noMore (chop data)

/-- What `encode` writes. -/
def bytes (ann : RouterAnnounce) : Bytes :=
  ann.key.toList ++ (ann.parent.toList ++ (ann.toRouterSigRes.bytes ++ ann.sig.toList))

theorem size_eq (ann : RouterAnnounce) : ann.size = ann.bytes.length := by
  simp only [size, bytes, RouterSigRes.size_eq, List.length_append, Vector.length_toList,
    Nat.add_assoc]

theorem encode_eq (ann : RouterAnnounce) (out : Bytes) :
    ann.encode out = some (out ++ ann.bytes) := by
  rw [← checkSize_append out ann.bytes ann.size_eq]
  simp only [encode, RouterSigRes.encode_eq, Option.bind_eq_bind, Option.bind_some, bytes,
    List.append_assoc]

theorem chops : Chops bytes chop (fun _ => True) := by
  refine ((chops_slice 32).both ((chops_slice 32).both (RouterSigRes.chops.both
    (chops_slice 64)))).iso (fun pair => ⟨pair.2.2.1, pair.1, pair.2.1, pair.2.2.2⟩)
    (fun ann => (ann.key, ann.parent, ann.toRouterSigRes, ann.sig)) (fun _ => rfl) (fun _ => rfl)
    (fun _ => rfl) ?_ ?_
  · intro data
    simp only [chop, chopBoth, Option.bind_eq_bind, Option.pure_def, Option.map_eq_bind,
      Option.bind_assoc]
    rfl
  · simp

end RouterAnnounce

/-! ## Lookups of paths -/

/-- `pathLookup`. -/
structure PathLookup where
  source : PublicKey
  dest : PublicKey
  «from» : List PeerPort
  deriving DecidableEq, Repr

namespace PathLookup

/-- `pathLookup.size`. -/
def size (lookup : PathLookup) : Nat := 32 + 32 + wireSizePath lookup.from

/-- `pathLookup.encode`. -/
def encode (lookup : PathLookup) (out : Bytes) : Option Bytes :=
  let start := out.length
  let out := out ++ lookup.source.toList
  let out := out ++ lookup.dest.toList
  let out := wireAppendPath out lookup.from
  checkSize start out lookup.size

/-- What `decode` reads, and the bytes that are left. -/
def chop : Chopper PathLookup := fun data => do
  let (source, data) ← wireChopSlice 32 data
  let (dest, data) ← wireChopSlice 32 data
  let (path, data) ← wireChopPath data
  return (⟨source, dest, path⟩, data)

/-- `pathLookup.decode`. -/
def decode (data : Bytes) : Option PathLookup := noMore (chop data)

/-- What `encode` writes. -/
def bytes (lookup : PathLookup) : Bytes :=
  lookup.source.toList ++ (lookup.dest.toList ++ pathBytes lookup.from)

theorem size_eq (lookup : PathLookup) : lookup.size = lookup.bytes.length := by
  simp only [size, bytes, wireSizePath_eq, List.length_append, Vector.length_toList,
    Nat.add_assoc]

theorem encode_eq (lookup : PathLookup) (out : Bytes) :
    lookup.encode out = some (out ++ lookup.bytes) := by
  rw [← checkSize_append out lookup.bytes lookup.size_eq]
  simp only [encode, wireAppendPath_eq, bytes, List.append_assoc]

theorem chops : Chops bytes chop (fun lookup => Ported lookup.from) := by
  refine ((chops_slice 32).both ((chops_slice 32).both chops_path)).iso
    (fun pair => ⟨pair.1, pair.2.1, pair.2.2⟩)
    (fun lookup => (lookup.source, lookup.dest, lookup.from)) (fun _ => rfl) (fun _ => rfl)
    (fun _ => rfl) ?_ ?_
  · intro data
    simp only [chop, chopBoth, Option.bind_eq_bind, Option.pure_def, Option.map_eq_bind,
      Option.bind_assoc]
    rfl
  · simp

end PathLookup

/-! ## Notifications of paths -/

/-- `pathNotifyInfo`. -/
structure PathNotifyInfo where
  seq : UInt64
  path : List PeerPort
  sig : Signature
  deriving DecidableEq, Repr

namespace PathNotifyInfo

/-- `pathNotifyInfo.equal`: the same up to the signature. -/
def equal (info cmp : PathNotifyInfo) : Bool :=
  if info.seq ≠ cmp.seq then false
  else if info.path.length ≠ cmp.path.length then false
  else (List.range info.path.length).all fun idx => info.path[idx]? == cmp.path[idx]?

/-- What the source of the path signs. -/
def bytesForSig (info : PathNotifyInfo) : Bytes :=
  wireAppendPath (wireAppendUint [] info.seq) info.path

/-- `pathNotifyInfo.size`. -/
def size (info : PathNotifyInfo) : Nat := wireSizeUint info.seq + wireSizePath info.path + 64

/-- `pathNotifyInfo.encode`. -/
def encode (info : PathNotifyInfo) (out : Bytes) : Option Bytes :=
  let start := out.length
  let out := wireAppendUint out info.seq
  let out := wireAppendPath out info.path
  let out := out ++ info.sig.toList
  checkSize start out info.size

/-- What `decode` reads, and the bytes that are left. -/
def chop : Chopper PathNotifyInfo := fun data => do
  let (seq, data) ← wireChopUint data
  let (path, data) ← wireChopPath data
  let (sig, data) ← wireChopSlice 64 data
  return (⟨seq, path, sig⟩, data)

/-- `pathNotifyInfo.decode`. -/
def decode (data : Bytes) : Option PathNotifyInfo := noMore (chop data)

/-- What `encode` writes. -/
def bytes (info : PathNotifyInfo) : Bytes :=
  putUvarint info.seq ++ (pathBytes info.path ++ info.sig.toList)

theorem bytesForSig_eq (info : PathNotifyInfo) :
    info.bytesForSig = putUvarint info.seq ++ pathBytes info.path := by
  rw [bytesForSig, wireAppendPath_eq, wireAppendUint, List.nil_append]

theorem size_eq (info : PathNotifyInfo) : info.size = info.bytes.length := by
  simp only [size, bytes, wireSizePath_eq, wireSizeUint, List.length_append, Vector.length_toList,
    Nat.add_assoc]

theorem encode_eq (info : PathNotifyInfo) (out : Bytes) :
    info.encode out = some (out ++ info.bytes) := by
  rw [← checkSize_append out info.bytes info.size_eq]
  simp only [encode, wireAppendPath_eq, wireAppendUint, bytes, List.append_assoc]

theorem chops : Chops bytes chop (fun info => Ported info.path) := by
  refine (chops_uint.both (chops_path.both (chops_slice 64))).iso
    (fun pair => ⟨pair.1, pair.2.1, pair.2.2⟩) (fun info => (info.seq, info.path, info.sig))
    (fun _ => rfl) (fun _ => rfl) (fun _ => rfl) ?_ ?_
  · intro data
    simp only [chop, chopBoth, Option.bind_eq_bind, Option.pure_def, Option.map_eq_bind,
      Option.bind_assoc]
    rfl
  · simp

end PathNotifyInfo

/-- `pathNotify`. -/
structure PathNotify where
  path : List PeerPort
  watermark : UInt64
  source : PublicKey
  dest : PublicKey
  info : PathNotifyInfo
  deriving DecidableEq, Repr

namespace PathNotify

/-- `pathNotify.size`. -/
def size (notify : PathNotify) : Nat :=
  wireSizePath notify.path + wireSizeUint notify.watermark + 32 + 32 + notify.info.size

/-- `pathNotify.encode`. -/
def encode (notify : PathNotify) (out : Bytes) : Option Bytes := do
  let start := out.length
  let out := wireAppendPath out notify.path
  let out := wireAppendUint out notify.watermark
  let out := out ++ notify.source.toList
  let out := out ++ notify.dest.toList
  let out ← notify.info.encode out
  checkSize start out notify.size

/-- `pathNotify.decode`. -/
def decode (data : Bytes) : Option PathNotify := do
  let (path, data) ← wireChopPath data
  let (watermark, data) ← wireChopUint data
  let (source, data) ← wireChopSlice 32 data
  let (dest, data) ← wireChopSlice 32 data
  let info ← PathNotifyInfo.decode data
  return ⟨path, watermark, source, dest, info⟩

/-- What `encode` writes. -/
def bytes (notify : PathNotify) : Bytes :=
  pathBytes notify.path ++ (putUvarint notify.watermark ++ (notify.source.toList ++
    (notify.dest.toList ++ notify.info.bytes)))

theorem size_eq (notify : PathNotify) : notify.size = notify.bytes.length := by
  simp only [size, bytes, wireSizePath_eq, wireSizeUint, PathNotifyInfo.size_eq, List.length_append,
    Vector.length_toList, Nat.add_assoc]

theorem encode_eq (notify : PathNotify) (out : Bytes) :
    notify.encode out = some (out ++ notify.bytes) := by
  rw [← checkSize_append out notify.bytes notify.size_eq]
  simp only [encode, wireAppendPath_eq, wireAppendUint, PathNotifyInfo.encode_eq,
    Option.bind_eq_bind, Option.bind_some, bytes, List.append_assoc]

/-- The fields in the order in which they are read. -/
def chop : Chopper PathNotify := fun data => do
  let (path, data) ← wireChopPath data
  let (watermark, data) ← wireChopUint data
  let (source, data) ← wireChopSlice 32 data
  let (dest, data) ← wireChopSlice 32 data
  let (info, data) ← PathNotifyInfo.chop data
  return (⟨path, watermark, source, dest, info⟩, data)

/-- Nothing may be left after the last field, which is checked there. -/
theorem decode_eq (data : Bytes) : decode data = noMore (chop data) := by
  simp only [decode, chop, Option.bind_eq_bind, Option.pure_def, noMore_bind, noMore_map,
    PathNotifyInfo.decode]

theorem chops : Chops bytes chop (fun notify => Ported notify.path ∧ Ported notify.info.path) := by
  refine (chops_path.both (chops_uint.both ((chops_slice 32).both ((chops_slice 32).both
    PathNotifyInfo.chops)))).iso
    (fun pair => ⟨pair.1, pair.2.1, pair.2.2.1, pair.2.2.2.1, pair.2.2.2.2⟩)
    (fun notify => (notify.path, notify.watermark, notify.source, notify.dest, notify.info))
    (fun _ => rfl) (fun _ => rfl) (fun _ => rfl) ?_ ?_
  · intro data
    simp only [chop, chopBoth, Option.bind_eq_bind, Option.pure_def, Option.map_eq_bind,
      Option.bind_assoc]
    rfl
  · simp

end PathNotify

/-! ## Broken paths -/

/-- `pathBroken`. -/
structure PathBroken where
  path : List PeerPort
  watermark : UInt64
  source : PublicKey
  dest : PublicKey
  deriving DecidableEq, Repr

namespace PathBroken

/-- `pathBroken.size`. -/
def size (broken : PathBroken) : Nat :=
  wireSizePath broken.path + wireSizeUint broken.watermark + 32 + 32

/-- `pathBroken.encode`. -/
def encode (broken : PathBroken) (out : Bytes) : Option Bytes :=
  let start := out.length
  let out := wireAppendPath out broken.path
  let out := wireAppendUint out broken.watermark
  let out := out ++ broken.source.toList
  let out := out ++ broken.dest.toList
  checkSize start out broken.size

/-- What `decode` reads, and the bytes that are left. -/
def chop : Chopper PathBroken := fun data => do
  let (path, data) ← wireChopPath data
  let (watermark, data) ← wireChopUint data
  let (source, data) ← wireChopSlice 32 data
  let (dest, data) ← wireChopSlice 32 data
  return (⟨path, watermark, source, dest⟩, data)

/-- `pathBroken.decode`. -/
def decode (data : Bytes) : Option PathBroken := noMore (chop data)

/-- What `encode` writes. -/
def bytes (broken : PathBroken) : Bytes :=
  pathBytes broken.path ++ (putUvarint broken.watermark ++ (broken.source.toList ++
    broken.dest.toList))

theorem size_eq (broken : PathBroken) : broken.size = broken.bytes.length := by
  simp only [size, bytes, wireSizePath_eq, wireSizeUint, List.length_append, Vector.length_toList,
    Nat.add_assoc]

theorem encode_eq (broken : PathBroken) (out : Bytes) :
    broken.encode out = some (out ++ broken.bytes) := by
  rw [← checkSize_append out broken.bytes broken.size_eq]
  simp only [encode, wireAppendPath_eq, wireAppendUint, bytes, List.append_assoc]

theorem chops : Chops bytes chop (fun broken => Ported broken.path) := by
  refine (chops_path.both (chops_uint.both ((chops_slice 32).both (chops_slice 32)))).iso
    (fun pair => ⟨pair.1, pair.2.1, pair.2.2.1, pair.2.2.2⟩)
    (fun broken => (broken.path, broken.watermark, broken.source, broken.dest))
    (fun _ => rfl) (fun _ => rfl) (fun _ => rfl) ?_ ?_
  · intro data
    simp only [chop, chopBoth, Option.bind_eq_bind, Option.pure_def, Option.map_eq_bind,
      Option.bind_assoc]
    rfl
  · simp

end PathBroken

/-! ## Traffic -/

/-- `traffic`. -/
structure Traffic where
  path : List PeerPort
  «from» : List PeerPort
  source : PublicKey
  dest : PublicKey
  watermark : UInt64
  payload : Bytes
  deriving DecidableEq, Repr

namespace Traffic

/-- `traffic.size`. -/
def size (tr : Traffic) : Nat :=
  wireSizePath tr.path + wireSizePath tr.from + 32 + 32 + wireSizeUint tr.watermark +
    tr.payload.length

/-- `traffic.encode`. -/
def encode (tr : Traffic) (out : Bytes) : Option Bytes :=
  let start := out.length
  let out := wireAppendPath out tr.path
  let out := wireAppendPath out tr.from
  let out := out ++ tr.source.toList
  let out := out ++ tr.dest.toList
  let out := wireAppendUint out tr.watermark
  let out := out ++ tr.payload
  checkSize start out tr.size

/-- `traffic.decode`: all bytes after the header are the payload. -/
def decode (data : Bytes) : Option Traffic := do
  let (path, data) ← wireChopPath data
  let (source', data) ← wireChopPath data
  let (source, data) ← wireChopSlice 32 data
  let (dest, data) ← wireChopSlice 32 data
  let (watermark, data) ← wireChopUint data
  return ⟨path, source', source, dest, watermark, data⟩

/-- What `encode` writes. -/
def bytes (tr : Traffic) : Bytes :=
  pathBytes tr.path ++ (pathBytes tr.from ++ (tr.source.toList ++ (tr.dest.toList ++
    (putUvarint tr.watermark ++ tr.payload))))

theorem size_eq (tr : Traffic) : tr.size = tr.bytes.length := by
  simp only [size, bytes, wireSizePath_eq, wireSizeUint, List.length_append, Vector.length_toList,
    Nat.add_assoc]

theorem encode_eq (tr : Traffic) (out : Bytes) : tr.encode out = some (out ++ tr.bytes) := by
  rw [← checkSize_append out tr.bytes tr.size_eq]
  simp only [encode, wireAppendPath_eq, wireAppendUint, bytes, List.append_assoc]

/-- The fields in front of the payload. -/
def chopHeader : Chopper (List PeerPort × List PeerPort × PublicKey × PublicKey × UInt64) :=
  chopBoth wireChopPath (chopBoth wireChopPath (chopBoth (wireChopSlice 32)
    (chopBoth (wireChopSlice 32) wireChopUint)))

theorem decode_eq (data : Bytes) :
    decode data = (chopHeader data).map fun (header, payload) =>
      ⟨header.1, header.2.1, header.2.2.1, header.2.2.2.1, header.2.2.2.2, payload⟩ := by
  simp only [decode, chopHeader, chopBoth, Option.bind_eq_bind, Option.pure_def,
    Option.map_eq_bind, Option.bind_assoc]
  rfl

theorem chops_header :
    Chops (fun header : List PeerPort × List PeerPort × PublicKey × PublicKey × UInt64 =>
        pathBytes header.1 ++ (pathBytes header.2.1 ++ (header.2.2.1.toList ++
          (header.2.2.2.1.toList ++ putUvarint header.2.2.2.2)))) chopHeader
      (fun header => Ported header.1 ∧ Ported header.2.1 ∧ True ∧ True ∧ True) :=
  chops_path.both (chops_path.both ((chops_slice 32).both ((chops_slice 32).both chops_uint)))

theorem decode_bytes {tr : Traffic} (path : Ported tr.path) (source : Ported tr.from) :
    decode tr.bytes = some tr := by
  have fine : Ported tr.path ∧ Ported tr.from ∧ True ∧ True ∧ True :=
    ⟨path, source, trivial, trivial, trivial⟩
  have law := chops_header
  have read := @law.chop_encode (tr.path, tr.from, tr.source, tr.dest, tr.watermark) tr.payload fine
  simp only [List.append_assoc] at read
  rw [decode_eq, bytes, read]
  rfl

theorem of_decode {data : Bytes} {tr : Traffic} (read : decode data = some tr) :
    (Ported tr.path ∧ Ported tr.from) ∧ tr.bytes.length ≤ data.length := by
  rw [decode_eq] at read
  obtain ⟨⟨header, payload⟩, chopped, rfl⟩ := Option.map_eq_some_iff.mp read
  obtain ⟨⟨path, source, -⟩, used, rfl, shorter⟩ := chops_header.of_chop chopped
  refine ⟨⟨path, source⟩, ?_⟩
  simp only [bytes, List.length_append] at shorter ⊢
  omega

end Traffic

end Uqda.Network
