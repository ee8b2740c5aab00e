import Uqda.Addressing.Core
import Uqda.Sorting.Comparators
import Uqda.Wire.Text
import Mathlib.Data.UInt

/-!
# The peers of a node

The embedding of `src/admin/getpeers.go`: the entries that `getPeers` reports and the four
comparators that it sorts them by.

A comparator goes through the fields of two entries and returns the difference in the first
field in which they differ.  A difference of two unsigned numbers wraps around, so that its
sign is wrong from 2^63 on.  A difference of two uptimes is a fraction of seconds, and one
of less than a second is returned as zero.  Apart from that the comparators order the
entries by their fields.
-/

namespace Uqda.Admin

open Uqda.Addressing Uqda.Sorting Uqda.Wire

/-! ## Entries -/

/-- `PeerEntry`.  Durations are in nanoseconds, also the uptime, which the source has in
seconds. -/
structure PeerEntry where
  uri : String
  up : Bool
  inbound : Bool
  ipAddress : String
  publicKey : List UInt8
  port : UInt64
  priority : UInt64
  cost : UInt64
  rxBytes : UInt64
  txBytes : UInt64
  rxRate : UInt64
  txRate : UInt64
  uptime : Int
  latency : Int
  lastErrorTime : Int
  lastError : String

/-- What `getPeers` reads of `core.PeerInfo`. -/
structure PeerInfo where
  uri : String
  up : Bool
  inbound : Bool
  lastError : Option String
  lastErrorTime : Int
  key : PublicKey
  port : UInt64
  priority : UInt8
  cost : UInt64
  rxBytes : UInt64
  txBytes : UInt64
  rxRate : UInt64
  txRate : UInt64
  uptime : Int
  latency : Int

/-- What `getPeers` uses of the standard library: `strings.ToLower`, `net.IP.String` and
`time.Since`. -/
structure Library where
  toLower : String → String
  ipString : Address → String
  since : Int → Int

/-- One iteration of the loop in `getPeersHandler`. -/
def Library.peerEntry (lib : Library) (p : PeerInfo) : PeerEntry where
  uri := p.uri
  up := p.up
  inbound := p.inbound
  ipAddress := (addrForKey p.key).elim "" lib.ipString
  publicKey := (addrForKey p.key).elim [] fun _ => hexEncode p.key
  port := p.port
  priority := UInt64.ofNat p.priority.toNat
  cost := p.cost
  rxBytes := p.rxBytes
  txBytes := p.txBytes
  rxRate := p.rxRate
  txRate := p.txRate
  uptime := p.uptime
  latency := if p.latency > 0 then p.latency else 0
  lastErrorTime := p.lastError.elim 0 fun _ => lib.since p.lastErrorTime
  lastError := p.lastError.getD ""

theorem Library.latency_peerEntry_nonneg (lib : Library) (p : PeerInfo) :
    0 ≤ (lib.peerEntry p).latency := by
  simp only [Library.peerEntry]
  split <;> omega

/-! ## Comparators -/

/-- The conversion `int(d)` of a `uint64`, where `int` has 64 bits as it has on 64-bit
platforms. -/
def intOfUint (d : UInt64) : Int := d.toInt64.toInt

/-- The conversion `int(d)` of a number of seconds, which cuts off the fraction. -/
def intOfSeconds (nanoseconds : Int) : Int := nanoseconds.tdiv 1000000000

/-- `strings.Compare`. -/
def stringsCompare (a b : List UInt8) : Int :=
  match compare a b with
  | .lt => -1
  | .eq => 0
  | .gt => 1

/-- `sortByCost`. -/
def sortByCost (a b : PeerEntry) : Int :=
  if a.cost - b.cost ≠ 0 then intOfUint (a.cost - b.cost)
  else if stringsCompare a.publicKey b.publicKey ≠ 0 then stringsCompare a.publicKey b.publicKey
  else if a.priority - b.priority ≠ 0 then intOfUint (a.priority - b.priority)
  else if a.uptime - b.uptime ≠ 0 then intOfSeconds (a.uptime - b.uptime)
  else 0

/-- `sortByUptime`. -/
def sortByUptime (a b : PeerEntry) : Int :=
  if a.uptime - b.uptime ≠ 0 then intOfSeconds (a.uptime - b.uptime)
  else if stringsCompare a.publicKey b.publicKey ≠ 0 then stringsCompare a.publicKey b.publicKey
  else if a.priority - b.priority ≠ 0 then intOfUint (a.priority - b.priority)
  else if a.cost - b.cost ≠ 0 then intOfUint (a.cost - b.cost)
  else 0

/-- `sortByDefault`. -/
def sortByDefault (a b : PeerEntry) : Int :=
  if !a.inbound && b.inbound then -1
  else if a.inbound && !b.inbound then 1
  else if stringsCompare a.publicKey b.publicKey ≠ 0 then stringsCompare a.publicKey b.publicKey
  else if a.priority - b.priority ≠ 0 then intOfUint (a.priority - b.priority)
  else if a.cost - b.cost ≠ 0 then intOfUint (a.cost - b.cost)
  else if a.uptime - b.uptime ≠ 0 then intOfSeconds (a.uptime - b.uptime)
  else 0

/-- `sortByLatency`. -/
def sortByLatency (a b : PeerEntry) : Int :=
  if a.up ≠ b.up then
    if a.up then -1 else 1
  -- no valid sample exists yet for a latency of zero
  else if (a.latency == 0) ≠ (b.latency == 0) then
    if a.latency > 0 then -1 else 1
  else if a.latency < b.latency then -1
  else if a.latency > b.latency then 1
  else sortByCost a b

/-- The comparators. -/
inductive PeerOrder where
  | uptime
  | cost
  | latency
  | standard
  deriving DecidableEq, Repr

/-- The comparator of an order. -/
def PeerOrder.cmp : PeerOrder → PeerEntry → PeerEntry → Int
  | .uptime => sortByUptime
  | .cost => sortByCost
  | .latency => sortByLatency
  | .standard => sortByDefault

/-- The switch in `getPeersHandler`. -/
def Library.peerOrder (lib : Library) (sortBy : String) : PeerOrder :=
  match lib.toLower sortBy with
  | "uptime" => .uptime
  | "cost" => .cost
  | "latency" => .latency
  | "rtt" => .latency
  | _ => .standard

/-- `getPeersHandler` for the peers that `core.GetPeers` returns. -/
def Library.getPeersHandler (lib : Library) (sortBy : String) (peers : List PeerInfo) :
    List PeerEntry :=
  sortStableFunc (peers.map lib.peerEntry) (lib.peerOrder sortBy).cmp

/-! ## The orders that are meant -/

/-- The cost comes first, then the key, the priority and the uptime. -/
def costOrder : PeerEntry → PeerEntry → Ordering :=
  compareLex (compareOn PeerEntry.cost)
    (compareLex (compareOn PeerEntry.publicKey)
      (compareLex (compareOn PeerEntry.priority) (compareOn PeerEntry.uptime)))

/-- The fields by which an order sorts.  Peers that are up come first, then peers with a
latency that is known; outbound peers come before inbound ones. -/
def PeerOrder.order : PeerOrder → PeerEntry → PeerEntry → Ordering
  | .uptime =>
      compareLex (compareOn PeerEntry.uptime)
        (compareLex (compareOn PeerEntry.publicKey)
          (compareLex (compareOn PeerEntry.priority) (compareOn PeerEntry.cost)))
  | .cost => costOrder
  | .latency =>
      compareLex (compareOn fun p => !p.up)
        (compareLex (compareOn fun p => p.latency == 0)
          (compareLex (compareOn PeerEntry.latency) costOrder))
  | .standard =>
      compareLex (compareOn PeerEntry.inbound)
        (compareLex (compareOn PeerEntry.publicKey)
          (compareLex (compareOn PeerEntry.priority)
            (compareLex (compareOn PeerEntry.cost) (compareOn PeerEntry.uptime))))

instance (order : PeerOrder) : Std.TransCmp order.order := by
  cases order <;> unfold PeerOrder.order <;> try unfold costOrder
  all_goals infer_instance

/-! ## Where the comparators agree -/

/-- The difference of the two numbers fits into an `int`. -/
def FitsInt (x y : UInt64) : Prop :=
  x.toNat < y.toNat + 2 ^ 63 ∧ y.toNat ≤ x.toNat + 2 ^ 63

/-- The two durations are the same, or at least a second apart. -/
def Apart (x y : Int) : Prop :=
  x = y ∨ x + 1000000000 ≤ y ∨ y + 1000000000 ≤ x

instance (x y : UInt64) : Decidable (FitsInt x y) :=
  inferInstanceAs (Decidable (_ ∧ _))

instance (x y : Int) : Decidable (Apart x y) :=
  inferInstanceAs (Decidable (_ ∨ _))

/-- `sortByCost` can tell the two entries apart, as far as it looks at them. -/
def costSeparated (a b : PeerEntry) : Prop :=
  FitsInt a.cost b.cost ∧
    (a.cost = b.cost → a.publicKey = b.publicKey →
      FitsInt a.priority b.priority ∧ (a.priority = b.priority → Apart a.uptime b.uptime))

/-- In the first field in which the two entries differ, the comparator can tell them apart. -/
def PeerOrder.Separated : PeerOrder → PeerEntry → PeerEntry → Prop
  | .uptime, a, b =>
      Apart a.uptime b.uptime ∧
        (a.uptime = b.uptime → a.publicKey = b.publicKey →
          FitsInt a.priority b.priority ∧ (a.priority = b.priority → FitsInt a.cost b.cost))
  | .cost, a, b => costSeparated a b
  | .latency, a, b => a.up = b.up → a.latency = b.latency → costSeparated a b
  | .standard, a, b =>
      a.inbound = b.inbound → a.publicKey = b.publicKey →
        FitsInt a.priority b.priority ∧
          (a.priority = b.priority →
            FitsInt a.cost b.cost ∧ (a.cost = b.cost → Apart a.uptime b.uptime))

section Fields

variable {next : Int} {rest : Ordering}

theorem intOfUint_eq (d : UInt64) :
    intOfUint d = if d.toNat < 2 ^ 63 then (d.toNat : Int) else d.toNat - 2 ^ 64 := by
  have bits : intOfUint d = d.toBitVec.toInt := rfl
  have same : d.toBitVec.toNat = d.toNat := rfl
  rw [bits, BitVec.toInt_eq_toNat_cond, same]
  split <;> split <;> omega

theorem toNat_difference (x y : UInt64) :
    (x - y).toNat = if y.toNat ≤ x.toNat then x.toNat - y.toNat
      else 2 ^ 64 + x.toNat - y.toNat := by
  have left := x.toNat_lt
  have right := y.toNat_lt
  rw [UInt64.toNat_sub]
  split <;> omega

/-- The sign of a difference of unsigned numbers is right if it fits. -/
theorem compare_intOfUint_iff {x y : UInt64} (differ : x ≠ y) :
    compare (intOfUint (x - y)) 0 = compare x y ↔ FitsInt x y := by
  have distinct : x.toNat ≠ y.toNat := fun same => differ (UInt64.toNat_inj.mp same)
  have left := x.toNat_lt
  have right := y.toNat_lt
  rw [UInt64.compare_eq_toNat_compare_toNat, compare_eq_iff, Nat.compare_eq_lt,
    Nat.compare_eq_eq, Nat.compare_eq_gt, intOfUint_eq, toNat_difference, FitsInt]
  by_cases ordered : y.toNat ≤ x.toNat
  · simp only [ordered, if_true]
    split <;> omega
  · simp only [ordered, if_false]
    split <;> omega

theorem agrees_uint_iff (x y : UInt64) :
    compare (if x - y ≠ 0 then intOfUint (x - y) else next) 0 = (compare x y).then rest ↔
      FitsInt x y ∧ (x = y → compare next 0 = rest) := by
  have differ : x - y ≠ 0 ↔ compare x y ≠ .eq := by
    rw [Ne, Ne, Std.compare_eq_iff_eq, sub_eq_zero]
  rw [compare_ite_eq_then_iff differ, Ne, Std.compare_eq_iff_eq]
  refine and_congr_left fun _ => ⟨fun right => ?_, fun fits distinct =>
    (compare_intOfUint_iff distinct).mpr fits⟩
  by_cases same : x = y
  · simp [same, FitsInt]
  · exact (compare_intOfUint_iff same).mp (right same)

theorem agrees_seconds_iff (x y : Int) :
    compare (if x - y ≠ 0 then intOfSeconds (x - y) else next) 0 = (compare x y).then rest ↔
      Apart x y ∧ (x = y → compare next 0 = rest) := by
  have differ : x - y ≠ 0 ↔ compare x y ≠ .eq := by
    rw [Ne, Ne, Std.compare_eq_iff_eq, sub_eq_zero]
  rw [compare_ite_eq_then_iff differ, Ne, Std.compare_eq_iff_eq, compare_eq_iff,
    Int.compare_eq_lt, Int.compare_eq_gt, Std.compare_eq_iff_eq, intOfSeconds, Apart]
  refine and_congr_left fun _ => ?_
  by_cases below : 0 ≤ x - y
  · rw [Int.tdiv_eq_ediv_of_nonneg below]
    omega
  · have flipped : (x - y).tdiv 1000000000 = -((y - x) / 1000000000) := by
      rw [← Int.neg_sub, Int.neg_tdiv, Int.tdiv_eq_ediv_of_nonneg (by omega)]
    rw [flipped]
    omega

theorem agrees_strings_iff (x y : List UInt8) :
    compare (if stringsCompare x y ≠ 0 then stringsCompare x y else next) 0 =
        (compare x y).then rest ↔
      (x = y → compare next 0 = rest) := by
  have sign : compare (stringsCompare x y) 0 = compare x y := by
    unfold stringsCompare
    cases compare x y <;> rfl
  have differ : stringsCompare x y ≠ 0 ↔ compare x y ≠ .eq := by
    rw [← sign, Ne, Ne, Std.compare_eq_iff_eq]
  rw [compare_ite_eq_then_iff differ, Std.compare_eq_iff_eq]
  exact and_iff_right fun _ => sign

theorem compare_false_true : compare false true = .lt :=
  rfl

theorem compare_true_false : compare true false = .gt :=
  rfl

theorem agrees_flag_iff (x y : Bool) :
    compare (if !x && y then -1 else if x && !y then 1 else next) 0 = (compare x y).then rest ↔
      (x = y → compare next 0 = rest) := by
  cases x <;> cases y <;> simp [compare_eq_iff, compare_false_true, compare_true_false]

theorem agrees_up_iff (x y : Bool) :
    compare (if x ≠ y then if x then -1 else 1 else next) 0 = (compare (!x) (!y)).then rest ↔
      (x = y → compare next 0 = rest) := by
  cases x <;> cases y <;> simp [compare_eq_iff, compare_false_true, compare_true_false]

theorem agrees_duration_iff (x y : Int) :
    compare (if x < y then -1 else if x > y then 1 else next) 0 = (compare x y).then rest ↔
      (x = y → compare next 0 = rest) := by
  rcases Int.lt_trichotomy x y with less | rfl | more
  · have sign : compare x y = .lt := Int.compare_eq_lt.mpr less
    simp [less, less.ne, sign, compare_eq_iff]
  · simp
  · have sign : compare x y = .gt := Int.compare_eq_gt.mpr more
    simp [more, more.not_gt, more.ne', sign, compare_eq_iff]

/-- A duration that is known comes before one that is not. -/
theorem agrees_known_iff {x : Int} (y : Int) (measured : 0 ≤ x) :
    compare (if (x == 0) ≠ (y == 0) then if x > 0 then -1 else 1 else next) 0 =
        (compare (x == 0) (y == 0)).then rest ↔
      ((x == 0) = (y == 0) → compare next 0 = rest) := by
  have known : x > 0 ↔ (x == 0) = false := by
    rw [beq_eq_false_iff_ne]
    omega
  simp only [known]
  cases x == 0 <;> cases y == 0 <;>
    simp [compare_eq_iff, compare_false_true, compare_true_false]

end Fields

/-- The comparator agrees with its order on two entries exactly if it can tell them apart. -/
theorem agrees_sortByCost_iff (a b : PeerEntry) :
    Agrees sortByCost costOrder a b ↔ costSeparated a b := by
  have last : costOrder a b = (compare a.cost b.cost).then ((compare a.publicKey b.publicKey).then
      ((compare a.priority b.priority).then ((compare a.uptime b.uptime).then .eq))) := by
    simp [costOrder, compareLex, compareOn]
  rw [Agrees, last, sortByCost, agrees_uint_iff, agrees_strings_iff, agrees_uint_iff,
    agrees_seconds_iff, costSeparated]
  simp

theorem PeerOrder.agrees_iff (order : PeerOrder) {a b : PeerEntry} (measured : 0 ≤ a.latency) :
    Agrees order.cmp order.order a b ↔ order.Separated a b := by
  cases order with
  | cost => exact agrees_sortByCost_iff a b
  | uptime =>
      have last : PeerOrder.order .uptime a b = (compare a.uptime b.uptime).then
          ((compare a.publicKey b.publicKey).then ((compare a.priority b.priority).then
            ((compare a.cost b.cost).then .eq))) := by
        simp [PeerOrder.order, compareLex, compareOn]
      rw [Agrees, last, PeerOrder.cmp, sortByUptime, agrees_seconds_iff, agrees_strings_iff,
        agrees_uint_iff, agrees_uint_iff, PeerOrder.Separated]
      simp
  | standard =>
      have last : PeerOrder.order .standard a b = (compare a.inbound b.inbound).then
          ((compare a.publicKey b.publicKey).then ((compare a.priority b.priority).then
            ((compare a.cost b.cost).then ((compare a.uptime b.uptime).then .eq)))) := by
        simp [PeerOrder.order, compareLex, compareOn]
      rw [Agrees, last, PeerOrder.cmp, sortByDefault, agrees_flag_iff, agrees_strings_iff,
        agrees_uint_iff, agrees_uint_iff, agrees_seconds_iff, PeerOrder.Separated]
      simp
  | latency =>
      have whole : PeerOrder.order .latency a b = (compare (!a.up) (!b.up)).then
          ((compare (a.latency == 0) (b.latency == 0)).then
            ((compare a.latency b.latency).then (costOrder a b))) := by
        simp [PeerOrder.order, compareLex, compareOn]
      rw [Agrees, whole, PeerOrder.cmp, sortByLatency, agrees_up_iff,
        agrees_known_iff _ measured, agrees_duration_iff, PeerOrder.Separated,
        ← agrees_sortByCost_iff, Agrees]
      refine imp_congr_right fun _ => ⟨fun agrees same => agrees (same ▸ rfl) same,
        fun agrees _ => agrees⟩

theorem PeerOrder.cmp_eq_zero (order : PeerOrder) {a b : PeerEntry}
    (level : order.order a b = .eq) : order.cmp a b = 0 := by
  have text : ∀ x : List UInt8, stringsCompare x x = 0 := fun x => by simp [stringsCompare]
  cases order <;>
    simp only [PeerOrder.order, costOrder, compareLex, compareOn, Ordering.then_eq_eq,
      Std.compare_eq_iff_eq, Bool.not_inj_iff] at level
  · simp [PeerOrder.cmp, sortByUptime, level, text]
  · simp [PeerOrder.cmp, sortByCost, level, text]
  · simp [PeerOrder.cmp, sortByLatency, sortByCost, level, text]
  · simp [PeerOrder.cmp, sortByDefault, level, text]

/-! ## What `getPeers` returns -/

/-- For any of the four orders and any entries, with latencies that are not negative: the
comparator is a strict weak ordering of the entries, and however they are arranged they are
returned in the order of their fields, exactly if it can tell any two of them apart.  The
same holds of the peers that `getPeers` reports. -/
theorem peerOrder_sorts_iff (order : PeerOrder) (entries : List PeerEntry)
    (measured : ∀ p ∈ entries, 0 ≤ p.latency) (lib : Library) (sortBy : String)
    (peers : List PeerInfo) :
    ((StrictWeakOrdering order.cmp entries ∧ ∀ arrangement, arrangement.Perm entries →
          InOrder order.order (sortStableFunc arrangement order.cmp)) ↔
        ∀ a ∈ entries, ∀ b ∈ entries, order.Separated a b) ∧
      ((StrictWeakOrdering (lib.peerOrder sortBy).cmp (peers.map lib.peerEntry) ∧
          ∀ arrangement, arrangement.Perm peers →
            InOrder (lib.peerOrder sortBy).order (lib.getPeersHandler sortBy arrangement)) ↔
        ∀ a ∈ peers, ∀ b ∈ peers,
          (lib.peerOrder sortBy).Separated (lib.peerEntry a) (lib.peerEntry b)) := by
  constructor
  · have sorts := @sorts_iff_agrees _ _ order.cmp order.order _ id entries
      fun a b => order.cmp_eq_zero
    simp only [List.map_id, id_eq] at sorts
    rw [sorts]
    exact forall₂_congr fun a member => forall₂_congr fun b _ =>
      order.agrees_iff (measured a member)
  · refine (@sorts_iff_agrees _ _ (lib.peerOrder sortBy).cmp (lib.peerOrder sortBy).order _
      lib.peerEntry peers fun a b => (lib.peerOrder sortBy).cmp_eq_zero).trans ?_
    exact forall₂_congr fun a _ => forall₂_congr fun b _ =>
      (lib.peerOrder sortBy).agrees_iff (lib.latency_peerEntry_nonneg a)

/-- A peer of which only the cost and the uptime are known. -/
def sparsePeer (cost : UInt64) (uptime : Int) : PeerInfo where
  uri := ""
  up := true
  inbound := false
  lastError := none
  lastErrorTime := 0
  key := []
  port := 0
  priority := 0
  cost := cost
  rxBytes := 0
  txBytes := 0
  rxRate := 0
  txRate := 0
  uptime := uptime
  latency := 0

/-- Lower case is kept, and addresses and times are not shown. -/
def plainLibrary : Library :=
  ⟨id, fun _ => "", fun _ => 0⟩

/-- The entry of a peer of which only the cost and the uptime are known. -/
def sparseEntry (cost : UInt64) (uptime : Int) : PeerEntry :=
  plainLibrary.peerEntry (sparsePeer cost uptime)

/-- Two peers with costs 1 and 2, which are up for one and three seconds, are sorted. -/
theorem peerOrder_sorts_close :
    let entries := [sparseEntry 1 1000000000, sparseEntry 2 3000000000]
    (∀ p ∈ entries, 0 ≤ p.latency) ∧
      StrictWeakOrdering sortByCost entries ∧ ∀ arrangement, arrangement.Perm entries →
        InOrder (PeerOrder.order .cost) (sortStableFunc arrangement sortByCost) := by
  intro entries
  have measured : ∀ p ∈ entries, 0 ≤ p.latency := by decide
  have separated : ∀ a ∈ entries, ∀ b ∈ entries, PeerOrder.Separated .cost a b := by
    unfold PeerOrder.Separated costSeparated
    decide
  exact ⟨measured, (peerOrder_sorts_iff .cost entries measured plainLibrary "" []).1.mpr separated⟩

/-- Of two costs that are 2^63 apart each is less than the other; a cost that is further away
is returned first; and of three uptimes that are 0.6 seconds apart the outer two differ, while
each of them equals the one between. -/
theorem peerOrder_wraps :
    (sortByCost (sparseEntry 0 0) (sparseEntry (2 ^ 63) 0) < 0 ∧
        sortByCost (sparseEntry (2 ^ 63) 0) (sparseEntry 0 0) < 0) ∧
      (plainLibrary.getPeersHandler "cost" [sparsePeer 0 0, sparsePeer (2 ^ 63 + 1) 0]).map
          PeerEntry.cost = [2 ^ 63 + 1, 0] ∧
      sortByUptime (sparseEntry 0 0) (sparseEntry 0 600000000) = 0 ∧
        sortByUptime (sparseEntry 0 600000000) (sparseEntry 0 1200000000) = 0 ∧
          sortByUptime (sparseEntry 0 0) (sparseEntry 0 1200000000) = -1 := by
  decide +kernel

end Uqda.Admin
