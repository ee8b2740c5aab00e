import Uqda.Network.Messages

/-!
# What the nodes sign

The signatures in the routing protocol, from `third_party/ironwood/network/router.go`,
`pathfinder.go` and `crypto.go`.  A node and its parent both sign the node's place in the tree,
and the source of a path signs the path.  One key makes all three kinds of signatures, and what
is signed carries no tag, so whether a signature can be taken for one of another kind depends on
the bytes alone.
-/

namespace Uqda.Network

open Uqda.Wire

/-- Ed25519. -/
structure Crypto where
  PrivateKey : Type
  sign : PrivateKey → Bytes → Signature
  verify : PublicKey → Bytes → Signature → Bool

variable (c : Crypto)

/-- `routerSigRes.check`. -/
def RouterSigRes.check (res : RouterSigRes) (node parent : PublicKey) : Option Bool := do
  let bs ← res.bytesForSig node parent
  return c.verify parent bs res.psig

/-- `routerAnnounce.check`. -/
def RouterAnnounce.check (ann : RouterAnnounce) : Option Bool := do
  if ann.port = 0 ∧ ann.key ≠ ann.parent then
    return false
  let bs ← ann.toRouterSigRes.bytesForSig ann.key ann.parent
  return c.verify ann.key bs ann.sig && c.verify ann.parent bs ann.psig

/-- `pathNotify.check`. -/
def PathNotify.check (notify : PathNotify) : Bool :=
  c.verify notify.source notify.info.bytesForSig notify.info.sig

/-- What is signed for a node's place in the tree. -/
def RouterSigRes.signedBytes (res : RouterSigRes) (node parent : PublicKey) : Bytes :=
  node.toList ++ (parent.toList ++ (res.toRouterSigReq.bytes ++ putUvarint res.port))

theorem RouterSigRes.bytesForSig_eq (res : RouterSigRes) (node parent : PublicKey) :
    res.bytesForSig node parent = some (res.signedBytes node parent) := by
  simp only [RouterSigRes.bytesForSig, RouterSigReq.bytesForSig, RouterSigReq.encode_eq,
    Option.bind_eq_bind, Option.bind_some, Option.pure_def, wireAppendUint, signedBytes,
    List.append_assoc]

theorem RouterSigRes.check_eq (res : RouterSigRes) (node parent : PublicKey) :
    res.check c node parent = some (c.verify parent (res.signedBytes node parent) res.psig) := by
  simp only [RouterSigRes.check, RouterSigRes.bytesForSig_eq, Option.bind_eq_bind,
    Option.bind_some, Option.pure_def]

/-- An announcement is good if it has a port or is a root's, and both signatures are good. -/
def RouterAnnounce.Good (ann : RouterAnnounce) : Prop :=
  (ann.port = 0 → ann.key = ann.parent) ∧
    c.verify ann.key (ann.toRouterSigRes.signedBytes ann.key ann.parent) ann.sig = true ∧
      c.verify ann.parent (ann.toRouterSigRes.signedBytes ann.key ann.parent) ann.psig = true

theorem RouterAnnounce.check_eq_some_true_iff (ann : RouterAnnounce) :
    ann.check c = some true ↔ ann.Good c := by
  rw [RouterAnnounce.check, RouterAnnounce.Good]
  by_cases noPort : ann.port = 0 ∧ ann.key ≠ ann.parent
  · rw [if_pos noPort]
    simp [noPort.1, noPort.2]
  · rw [if_neg noPort, RouterSigRes.bytesForSig_eq]
    have place : ann.port = 0 → ann.key = ann.parent := by
      intro zero
      by_contra other
      exact noPort ⟨zero, other⟩
    have place' : (ann.port = 0 → ann.key = ann.parent) ↔ True := iff_true_intro place
    rw [place', true_and]
    simp

/-! ## The last byte of a number -/

theorem putUvarintFrom_ne_nil (room : Nat) (x : UInt64) : putUvarintFrom room x ≠ [] := by
  cases room with
  | zero => simp [putUvarintFrom]
  | succ room =>
      rw [putUvarintFrom]
      split
      · simp
      · simp

/-- The groups of a number end with a group that is not zero. -/
theorem getLast?_putUvarintFrom {room : Nat} {x : UInt64} (nonzero : x ≠ 0)
    (bound : x.toNat < 128 ^ (room + 1)) : (putUvarintFrom room x).getLast? ≠ some 0 := by
  have single : ∀ {x : UInt64}, x ≠ 0 → x.toNat < 128 → [x.toUInt8].getLast? ≠ some 0 := by
    intro x nonzero small last
    rw [List.getLast?_singleton, Option.some.injEq, ← UInt8.toNat_inj, UInt64.toNat_toUInt8,
      Nat.mod_eq_of_lt (by omega)] at last
    exact nonzero (UInt64.toNat_inj.mp last)
  induction room generalizing x with
  | zero => exact single nonzero (by simpa using bound)
  | succ room ih =>
      rw [putUvarintFrom]
      split
      · rename_i large
        have large : 128 ≤ x.toNat := large
        have shifted := toNat_shiftRight_7 x
        have smaller : (x >>> 7).toNat < 128 ^ (room + 1) := by
          rw [shifted]
          apply Nat.div_lt_of_lt_mul
          rwa [← pow_succ']
        have others : x >>> 7 ≠ 0 := by
          intro zero
          rw [zero] at shifted
          have : 0 = x.toNat / 128 := shifted
          omega
        obtain ⟨byte, rest, groups⟩ :=
          List.exists_cons_of_ne_nil (putUvarintFrom_ne_nil room (x >>> 7))
        have last := ih others smaller
        rw [groups] at last ⊢
        rwa [List.getLast?_cons_cons]
      · rename_i small
        exact single nonzero (Nat.not_le.mp small)

theorem getLast?_append_putUvarint {x : UInt64} (front : Bytes) (nonzero : x ≠ 0) :
    (front ++ putUvarint x).getLast? ≠ some 0 := by
  have last : (putUvarint x).getLast? ≠ some 0 :=
    getLast?_putUvarintFrom nonzero (x.toNat_lt.trans (by decide))
  have nonempty : putUvarint x ≠ [] := putUvarintFrom_ne_nil 9 x
  rwa [List.getLast?_append_of_ne_nil _ nonempty]

theorem getLast?_pathBytes (front : Bytes) (path : List PeerPort) :
    (front ++ pathBytes path).getLast? = some 0 := by
  rw [pathBytes, ← List.append_assoc]
  exact List.getLast?_concat

/-! ## Signed bytes -/

theorem RouterSigRes.signedBytes_eq_iff {res res' : RouterSigRes}
    {node node' parent parent' : PublicKey} :
    res.signedBytes node parent = res'.signedBytes node' parent' ↔
      node = node' ∧ parent = parent' ∧ res.toRouterSigReq = res'.toRouterSigReq ∧
        res.port = res'.port := by
  constructor
  · intro same
    obtain ⟨nodes, same⟩ := (chops_slice 32).encode_append_inj trivial trivial same
    obtain ⟨parents, same⟩ := (chops_slice 32).encode_append_inj trivial trivial same
    obtain ⟨requests, same⟩ := RouterSigReq.chops.encode_append_inj trivial trivial same
    rw [← List.append_nil (putUvarint res.port), ← List.append_nil (putUvarint res'.port)] at same
    exact ⟨nodes, parents, requests, (chops_uint.encode_append_inj trivial trivial same).1⟩
  · rintro ⟨rfl, rfl, requests, ports⟩
    rw [signedBytes, signedBytes, requests, ports]

/-- The bytes of a path determine it as a whole, also if it has ports that are zero: what a
reader makes of them is another matter. -/
theorem pathBytes_inj {path other : List PeerPort} (same : pathBytes path = pathBytes other) :
    path = other := by
  have spelled (path : List PeerPort) : pathBytes path = (path ++ [0]).flatMap putUvarint := by
    rw [pathBytes, List.flatMap_append, List.flatMap_singleton]
  rw [spelled, spelled] at same
  exact List.append_cancel_right (chops_uint.flatMap_encode_inj (putUvarintFrom_ne_nil 9)
    (fun _ _ => trivial) (fun _ _ => trivial) same)

theorem PathNotifyInfo.bytesForSig_eq_iff {info info' : PathNotifyInfo} :
    info.bytesForSig = info'.bytesForSig ↔ info.seq = info'.seq ∧ info.path = info'.path := by
  rw [bytesForSig_eq, bytesForSig_eq]
  constructor
  · intro same
    obtain ⟨seqs, same⟩ := chops_uint.encode_append_inj trivial trivial same
    exact ⟨seqs, pathBytes_inj same⟩
  · rintro ⟨seqs, paths⟩
    rw [seqs, paths]

/-- What a node signs determines what it is about, within each kind of signature: the node, the
parent, the request and the port, or the sequence number and the path.  A place in the tree that
has a port is never signed with the bytes of a path.  The place of a root, which has none, can
be: then the root's signature of its announcement is a good signature of a path to it. -/
theorem bytesForSig_separated :
    (∀ (res res' : RouterSigRes) (node node' parent parent' : PublicKey),
      res.bytesForSig node parent = res'.bytesForSig node' parent' ↔
        node = node' ∧ parent = parent' ∧ res.toRouterSigReq = res'.toRouterSigReq ∧
          res.port = res'.port) ∧
      (∀ info info' : PathNotifyInfo,
        info.bytesForSig = info'.bytesForSig ↔ info.seq = info'.seq ∧ info.path = info'.path) ∧
      (∀ (res : RouterSigRes) (node parent : PublicKey) (info : PathNotifyInfo), res.port ≠ 0 →
        res.bytesForSig node parent ≠ some info.bytesForSig) ∧
      ∃ (root : PublicKey) (res : RouterSigRes) (info : PathNotifyInfo), Ported info.path ∧
        res.port = 0 ∧ res.bytesForSig root root = some info.bytesForSig := by
  refine ⟨?_, ?_, ?_, ?_⟩
  · intro res res' node node' parent parent'
    rw [RouterSigRes.bytesForSig_eq, RouterSigRes.bytesForSig_eq, Option.some.injEq]
    exact RouterSigRes.signedBytes_eq_iff
  · intro info info'
    exact PathNotifyInfo.bytesForSig_eq_iff
  · intro res node parent info port same
    have last := getLast?_append_putUvarint
      (node.toList ++ (parent.toList ++ res.toRouterSigReq.bytes)) port
    rw [RouterSigRes.bytesForSig_eq, Option.some.injEq, PathNotifyInfo.bytesForSig_eq,
      RouterSigRes.signedBytes] at same
    rw [List.append_assoc, List.append_assoc, same] at last
    exact last (getLast?_pathBytes _ _)
  · -- a root whose key, sequence number and nonce all read as ports
    exact ⟨Vector.replicate 32 1, ⟨⟨1, 1⟩, 0, Vector.replicate 64 0⟩,
      ⟨1, List.replicate 65 1, Vector.replicate 64 0⟩, by decide, rfl, by decide +kernel⟩

end Uqda.Network
