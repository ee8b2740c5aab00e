import Uqda.Proto.Core

/-!
# Listings of keys

A node answers a request for its peers or its tree with as many keys as fit into one
packet, and the node that asked cuts the payload into keys again.

The check in `_handleGetPeersRequest` counts two bytes of overhead where the packet has
three, and `Core.MTU` has taken one byte off already.  Hence a packet with its header is
at most as long as the MTU of the packet connection and at most 65536 bytes long.
-/

namespace Uqda.Proto

open Uqda.Addressing Uqda.Wire

/-- The longest packet of a listing. -/
def Environment.longest (env : Environment) : Nat :=
  min env.mtu.toNat 65536

/-- The keys of a list that are not empty. -/
def nonEmpty (keys : List Bytes) : List Bytes :=
  keys.filter (· ≠ [])

/-- A packet that is not too long and whose payload is cut into a prefix of the keys that
are not empty.  Either it is all of them, or one more would make the packet too long. -/
structure Environment.Lists (env : Environment) (kind : DebugKind) (keys : List Bytes)
    (packet : Bytes) : Prop where
  short : packet.length ≤ env.longest
  decoded : ∃ payload count, delivered packet = some (.debug kind, payload) ∧
    splitKeys payload = ((nonEmpty keys).take count).map hexEncode ∧
      (count = (nonEmpty keys).length ∨
        count < (nonEmpty keys).length ∧ env.longest < packet.length + publicKeySize)

/-! ## Filling a packet -/

section Filling

variable {env : Environment}

theorem Environment.toNat_coreMTU (large : 3 ≤ env.mtu) :
    env.coreMTU.toNat + 1 = env.longest := by
  have atLeast : 3 ≤ env.mtu.toNat := UInt64.le_iff_toNat_le.mp large
  have less : (env.mtu - 1).toNat = env.mtu.toNat - 1 :=
    UInt64.toNat_sub_of_le env.mtu 1 (UInt64.le_trans (by decide) large)
  simp only [Environment.coreMTU, Environment.longest]
  split
  case isTrue above =>
    have capped : 65535 < (env.mtu - 1).toNat := UInt64.lt_iff_toNat_lt.mp above
    change 65535 + 1 = _
    omega
  case isFalse below =>
    have uncapped : ¬ 65535 < (env.mtu - 1).toNat :=
      fun longer => below (UInt64.lt_iff_toNat_lt.mpr longer)
    omega

/-- The check with its overhead of two is a check of the whole packet. -/
theorem Environment.too_long_iff (large : 3 ≤ env.mtu) {length : Nat} (small : length < 2 ^ 32) :
    UInt64.ofNat length + 2 > env.coreMTU ↔ env.longest < length + 3 := by
  have sum : (UInt64.ofNat length + 2).toNat = length + 2 := by
    rw [UInt64.toNat_add, UInt64.toNat_ofNat']
    change (length % 2 ^ 64 + 2) % 2 ^ 64 = _
    omega
  rw [gt_iff_lt, UInt64.lt_iff_toNat_lt, sum]
  have limit := env.toNat_coreMTU large
  omega

theorem Environment.longest_le (env : Environment) : env.longest ≤ 65536 :=
  Nat.min_le_right ..

/-- The loop appends a prefix of the keys and stops where the next one is too long. -/
theorem Environment.exists_appendKeys (large : 3 ≤ env.mtu) {keys : List Bytes}
    (sizes : ∀ key ∈ keys, key = [] ∨ key.length = publicKeySize) {bs : Bytes}
    (fits : bs.length + 3 ≤ env.longest) :
    ∃ count, appendKeys env.coreMTU bs keys = bs ++ ((nonEmpty keys).take count).flatten ∧
      (appendKeys env.coreMTU bs keys).length + 3 ≤ env.longest ∧
        (count = (nonEmpty keys).length ∨
          count < (nonEmpty keys).length ∧
            env.longest < (appendKeys env.coreMTU bs keys).length + 3 + publicKeySize) := by
  have bounded := env.longest_le
  induction keys generalizing bs with
  | nil => exact ⟨0, by simp [appendKeys, nonEmpty], fits, .inl rfl⟩
  | cons key keys ih =>
      obtain ⟨size, others⟩ := List.forall_mem_cons.mp sizes
      rcases size with empty | size
      · -- an empty key leaves the payload as it is, and that fits
        subst empty
        have short : ¬ UInt64.ofNat (bs ++ []).length + 2 > env.coreMTU := by
          rw [List.append_nil, env.too_long_iff large (by omega)]
          omega
        have skipped : nonEmpty ([] :: keys) = nonEmpty keys := by simp [nonEmpty]
        rw [appendKeys, if_neg short, skipped, List.append_nil]
        exact ih others fits
      · have kept : nonEmpty (key :: keys) = key :: nonEmpty keys := by
          have present : key ≠ [] := by
            rintro rfl
            cases size
          simp [nonEmpty, present]
        have length : (bs ++ key).length = bs.length + publicKeySize := by simp [size]
        have small : (bs ++ key).length < 2 ^ 32 := by
          simp only [length, publicKeySize]
          omega
        rw [appendKeys, kept]
        by_cases long : env.longest < (bs ++ key).length + 3
        · rw [if_pos ((env.too_long_iff large small).mpr long)]
          refine ⟨0, by simp, fits, .inr ⟨by simp, ?_⟩⟩
          omega
        · rw [if_neg (mt (env.too_long_iff large small).mp long)]
          obtain ⟨count, appended, short, ended⟩ := ih others (not_lt.mp long)
          refine ⟨count + 1, ?_, short, ?_⟩
          · rw [appended, List.take_succ_cons, List.flatten_cons, List.append_assoc]
          · rcases ended with all | ⟨some, next⟩
            · exact .inl (by simp [all])
            · exact .inr ⟨by simpa using some, next⟩

end Filling

/-! ## Cutting a payload -/

theorem splitKeys_flatten {keys : List Bytes}
    (sizes : ∀ key ∈ keys, key.length = publicKeySize) :
    splitKeys keys.flatten = keys.map hexEncode := by
  induction keys with
  | nil =>
      rw [splitKeys]
      simp [publicKeySize]
  | cons key keys ih =>
      obtain ⟨size, sizes⟩ := List.forall_mem_cons.mp sizes
      rw [splitKeys, if_pos (by simp [size]), List.flatten_cons, ← size, List.take_left,
        List.drop_left, ih sizes, List.map_cons]

theorem delivered_sendDebug (kind : DebugKind) (payload : Bytes) :
    delivered (sendDebug kind.responseType payload) = some (.debug kind, payload) := by
  cases kind <;> rfl

/-- An answer with a listing fits and decodes. -/
theorem Environment.lists_appendKeys {env : Environment} (large : 3 ≤ env.mtu)
    {keys : List Bytes} (sizes : ∀ key ∈ keys, key = [] ∨ key.length = publicKeySize)
    (kind : DebugKind) :
    env.Lists kind keys (sendDebug kind.responseType (appendKeys env.coreMTU [] keys)) := by
  have empty : ([] : Bytes).length + 3 ≤ env.longest :=
    le_min (UInt64.le_iff_toNat_le.mp large) (by decide)
  obtain ⟨count, appended, short, ended⟩ := env.exists_appendKeys large sizes empty
  have length : (sendDebug kind.responseType (appendKeys env.coreMTU [] keys)).length =
      (appendKeys env.coreMTU [] keys).length + 3 := by
    simp [sendDebug]
  refine ⟨?_, appendKeys env.coreMTU [] keys, count, delivered_sendDebug .., ?_, ?_⟩
  · rw [length]
    exact short
  · rw [appended, List.nil_append]
    refine splitKeys_flatten fun key taken => ?_
    obtain ⟨listed, present⟩ := List.mem_filter.mp (List.mem_of_mem_take taken)
    exact (sizes key listed).resolve_left (by simpa using present)
  · rw [length]
    exact ended

/-- Listings of peers and of the tree are no longer than the MTU and 65536 bytes, and are cut
into a prefix of the keys, which ends only where one more key would be too long. -/
theorem listings_fit_and_decode (env : Environment) (large : 3 ≤ env.mtu)
    (peers : ∀ key ∈ env.getPeers, key = [] ∨ key.length = publicKeySize)
    (tree : ∀ key ∈ env.getTree, key = [] ∨ key.length = publicKeySize) :
    env.Lists .peers env.getPeers env.handleGetPeersRequest ∧
      env.Lists .tree env.getTree env.handleGetTreeRequest :=
  ⟨env.lists_appendKeys large peers .peers, env.lists_appendKeys large tree .tree⟩

/-- An MTU of 40 bytes has room for one of two keys. -/
def smallEnvironment : Environment where
  mtu := 40
  getSelf := none
  getPeers := [List.replicate 32 1, [], List.replicate 32 2]
  getTree := []
  nodeInfo := []

/-- An MTU beyond 65536 bytes, and one key more than 65536 bytes have room for. -/
def largeEnvironment : Environment where
  mtu := 100000
  getSelf := none
  getPeers := List.replicate 2048 (List.replicate 32 1)
  getTree := []
  nodeInfo := []

theorem largeEnvironment_sizes : ∀ key ∈ largeEnvironment.getPeers,
    key = [] ∨ key.length = publicKeySize := by
  intro key listed
  rw [List.eq_of_mem_replicate listed]
  exact .inr rfl

/-- It is the cap that ends the listing: the MTU has room for the last key. -/
theorem largeEnvironment_capped : largeEnvironment.handleGetPeersRequest.length = 65507 := by
  have empty : ([] : Bytes).length + 3 ≤ largeEnvironment.longest := by decide
  have kept : nonEmpty largeEnvironment.getPeers = largeEnvironment.getPeers := by
    refine List.filter_eq_self.mpr fun key listed => ?_
    rw [List.eq_of_mem_replicate listed]
    rfl
  obtain ⟨count, appended, short, ended⟩ :=
    largeEnvironment.exists_appendKeys (by decide) largeEnvironment_sizes empty
  have length : (appendKeys largeEnvironment.coreMTU [] largeEnvironment.getPeers).length =
      min count 2048 * 32 := by
    rw [appended, kept, largeEnvironment, List.nil_append, List.take_replicate, List.length_flatten,
      List.map_replicate, List.sum_replicate_nat, List.length_replicate]
  have longest : largeEnvironment.longest = 65536 := rfl
  rw [kept, length, longest, largeEnvironment, List.length_replicate, publicKeySize] at ended
  rw [length, longest] at short
  rw [Environment.handleGetPeersRequest, sendDebug, List.length_append, length]
  simp only [List.length_cons, List.length_nil]
  omega

theorem listings_fit_and_decode_small :
    smallEnvironment.handleGetPeersRequest.length = 35 ∧
      smallEnvironment.Lists .peers smallEnvironment.getPeers
        smallEnvironment.handleGetPeersRequest ∧
      smallEnvironment.Lists .tree smallEnvironment.getTree
        smallEnvironment.handleGetTreeRequest ∧
      largeEnvironment.handleGetPeersRequest.length = 65507 ∧
      largeEnvironment.Lists .peers largeEnvironment.getPeers
        largeEnvironment.handleGetPeersRequest := by
  obtain ⟨peers, tree⟩ :=
    listings_fit_and_decode smallEnvironment (by decide) (by decide) (by decide)
  exact ⟨by decide, peers, tree, largeEnvironment_capped,
    (listings_fit_and_decode largeEnvironment (by decide) largeEnvironment_sizes (by decide)).1⟩

end Uqda.Proto
