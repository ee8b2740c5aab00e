import Uqda.Heap.Bundle
import Uqda.Network.Wire

/-!
# The packet queue

The embedding of `third_party/ironwood/network/packetqueue.go`.  Packets wait in one list for
each pair of a source and a destination.  The lists of a destination are a heap by the age of
their first packet, and so are the destinations, with Go's `container/heap`; every level keeps
the sum of its packets' sizes.  `pop` takes the oldest packet, `drop` the oldest packet of the
largest source of the largest destination.

An index out of range, or a size that would wrap around below zero, is `none`.
-/

namespace Uqda.Network

open Uqda.Heap Uqda.Store

/-- `pqPacket`: what the queue asks of a packet. -/
class PqPacket (P : Type) where
  size : P → Nat
  sourceKey : P → PublicKey
  destKey : P → PublicKey
  size_pos : ∀ packet, 0 < size packet

/-- A packet with its size and the time it was queued at. -/
structure PqPacketInfo (P : Type) where
  packet : P
  size : Nat
  time : Nat
  deriving DecidableEq

/-- The packets from one source to one destination. -/
structure PqSource (P : Type) where
  key : PublicKey
  infos : List (PqPacketInfo P) := []
  size : Nat := 0

/-- The packets to one destination. -/
structure PqDest (P : Type) where
  key : PublicKey
  sources : List (PqSource P) := []
  size : Nat := 0

/-- `packetQueue`. -/
structure PacketQueue (P : Type) where
  dests : List (PqDest P) := []
  size : Nat := 0

variable {P : Type}

/-- The time that `pqDest.Less` compares. -/
def PqSource.time (source : PqSource P) : Option Nat :=
  source.infos.head?.map PqPacketInfo.time

/-- The time that `packetQueue.Less` compares. -/
def PqDest.time (dest : PqDest P) : Option Nat :=
  dest.sources.head?.bind PqSource.time

/-- An unsigned subtraction that must not wrap around. -/
def minus (a b : Nat) : Option Nat :=
  if b ≤ a then some (a - b) else none

theorem minus_eq {a b : Nat} (le : b ≤ a) : minus a b = some (a - b) :=
  if_pos le

theorem minus_zero (a : Nat) : minus a 0 = some a :=
  minus_eq (Nat.zero_le a)

/-- `heap.Fix(&dest, idx)`. -/
def PqDest.fix (dest : PqDest P) (idx : Nat) : Option (PqDest P) :=
  (Heap.fix PqSource.time dest.sources idx).map fun sources => { dest with sources }

/-- `heap.Remove(&dest, idx)`.  Its `Pop` subtracts the size of the source. -/
def PqDest.remove (dest : PqDest P) (idx : Nat) : Option (PqDest P) :=
  (Heap.remove PqSource.time dest.sources idx).bind fun (sources, source) =>
    (minus dest.size source.size).map fun size => { dest with sources, size }

/-- The part of `push` at a source. -/
def PqSource.push (source : PqSource P) (info : PqPacketInfo P) : PqSource P :=
  { source with infos := source.infos ++ [info], size := source.size + info.size }

/-- The part of `push` at a destination. -/
def PqDest.push (dest : PqDest P) (sKey : PublicKey) (info : PqPacketInfo P) : PqDest P :=
  { dest with
    sources := upsert PqSource.key dest.sources sKey { key := sKey } fun source => source.push info
    size := dest.size + info.size }

namespace PacketQueue

/-- `heap.Fix(q, idx)`. -/
def fix (q : PacketQueue P) (idx : Nat) : Option (PacketQueue P) :=
  (Heap.fix PqDest.time q.dests idx).map fun dests => { q with dests }

/-- `heap.Remove(q, idx)`.  Its `Pop` subtracts the size of the destination. -/
def remove (q : PacketQueue P) (idx : Nat) : Option (PacketQueue P) :=
  (Heap.remove PqDest.time q.dests idx).bind fun (dests, dest) =>
    (minus q.size dest.size).map fun size => { dests, size }

/-- The loops of `drop`: the index of the first entry of the largest size. -/
def largest {α : Type} (size : α → Nat) (entries : List α) : Nat :=
  (List.range entries.length).foldl
    (fun best idx =>
      if (entries[idx]?).elim 0 size > (entries[best]?).elim 0 size then idx else best)
    0

/-- `drop`, with the packet it frees. -/
def drop (q : PacketQueue P) : Option (PacketQueue P × Option (PqPacketInfo P)) :=
  if q.size = 0 then some (q, none)
  else do
    let dIdx := largest PqDest.size q.dests
    let dest ← q.dests[dIdx]?
    let sIdx := largest PqSource.size dest.sources
    let source ← dest.sources[sIdx]?
    let info ← source.infos[0]?
    let left ← minus source.size info.size
    let source : PqSource P := { source with size := left, infos := source.infos.drop 1 }
    let dest := { dest with sources := dest.sources.set sIdx source }
    let dest ← (if source.size > 0 then dest.fix sIdx else dest.remove sIdx)
    let left ← minus dest.size info.size
    let dest := { dest with size := left }
    let q := { q with dests := q.dests.set dIdx dest }
    let q ← (if dest.size > 0 then q.fix dIdx else q.remove dIdx)
    let left ← minus q.size info.size
    return ({ q with size := left }, some info)

/-- `pop`. -/
def pop (q : PacketQueue P) : Option (PacketQueue P × Option (PqPacketInfo P)) :=
  if q.size > 0 then do
    let dest ← q.dests[0]?
    let source ← dest.sources[0]?
    let info ← source.infos[0]?
    let sourceLeft ← minus source.size info.size
    let destLeft ← minus dest.size info.size
    let left ← minus q.size info.size
    let source : PqSource P := { source with size := sourceLeft }
    let dest := { dest with size := destLeft }
    let q := { q with size := left }
    let dest ←
      (if source.infos.length > 1 then
        PqDest.fix
          { dest with sources := dest.sources.set 0 { source with infos := source.infos.drop 1 } } 0
      else PqDest.remove { dest with sources := dest.sources.set 0 source } 0)
    let q := { q with dests := q.dests.set 0 dest }
    let q ← (if dest.sources.length > 0 then q.fix 0 else q.remove 0)
    return (q, some info)
  else some (q, none)

/-- `peek`.  The outer option is the fault. -/
def peek (q : PacketQueue P) : Option (Option (PqPacketInfo P)) :=
  if q.dests.length > 0 then do
    let dest ← q.dests[0]?
    let source ← dest.sources[0]?
    let info ← source.infos[0]?
    return some info
  else some none

variable [PqPacket P]

/-- What is queued for a packet. -/
def infoFor (packet : P) (now : Nat) : PqPacketInfo P :=
  { packet, size := PqPacket.size packet, time := now }

/-- `push` at the given time. -/
def push (q : PacketQueue P) (packet : P) (now : Nat) : PacketQueue P :=
  let sKey := PqPacket.sourceKey packet
  let dKey := PqPacket.destKey packet
  let info := infoFor packet now
  { dests := upsert PqDest.key q.dests dKey { key := dKey } fun dest => dest.push sKey info
    size := q.size + info.size }

end PacketQueue

/-! ## What a queue holds -/

section Contents

/-- The packets from a source among those to one destination. -/
def infosOf (sources : List (PqSource P)) (sKey : PublicKey) : List (PqPacketInfo P) :=
  (lookup PqSource.key sources sKey).elim [] PqSource.infos

/-- The packets from a source to a destination, in the order they were queued. -/
def PacketQueue.flow (q : PacketQueue P) (dKey sKey : PublicKey) : List (PqPacketInfo P) :=
  (lookup PqDest.key q.dests dKey).elim [] fun dest => infosOf dest.sources sKey

/-- All packets to a destination, source by source. -/
def PacketQueue.packetsTo (q : PacketQueue P) (dKey : PublicKey) : List (PqPacketInfo P) :=
  (lookup PqDest.key q.dests dKey).elim [] fun dest => dest.sources.flatMap PqSource.infos

variable [PqPacket P]

/-- The packet goes from the source to the destination. -/
def PqPacketInfo.Between (dKey sKey : PublicKey) (info : PqPacketInfo P) : Prop :=
  PqPacket.destKey info.packet = dKey ∧ PqPacket.sourceKey info.packet = sKey

instance (dKey sKey : PublicKey) :
    DecidablePred (PqPacketInfo.Between dKey sKey : PqPacketInfo P → Prop) :=
  fun _ => inferInstanceAs (Decidable (_ ∧ _))

/-- A packet was queued with its own size, at an earlier time. -/
structure PqPacketInfo.Valid (now : Nat) (info : PqPacketInfo P) : Prop where
  size_eq : info.size = PqPacket.size info.packet
  time_le : info.time ≤ now

/-- The packets of a source go to the destination, the oldest first, and the size is theirs. -/
structure PqSource.Valid (dKey : PublicKey) (now : Nat) (source : PqSource P) : Prop where
  nonempty : source.infos ≠ []
  size_eq : source.size = (source.infos.map PqPacketInfo.size).sum
  own : ∀ info ∈ source.infos, info.Between dKey source.key
  each : ∀ info ∈ source.infos, info.Valid now
  sorted : source.infos.Pairwise fun first second => first.time ≤ second.time

/-- The sources that have packets for a destination, with the size of these packets. -/
def SourcesValid (dKey : PublicKey) (now : Nat) (sources : List (PqSource P)) (size : Nat) : Prop :=
  Bundle PqSource.key PqSource.time PqSource.size (PqSource.Valid dKey now) sources size

/-- A destination has a packet, and its size is that of its sources. -/
structure PqDest.Valid (now : Nat) (dest : PqDest P) : Prop where
  nonempty : dest.sources ≠ []
  sources : SourcesValid dest.key now dest.sources dest.size

/-- Sizes are exact, nothing is empty, and both heaps are in order. -/
def PacketQueue.Valid (now : Nat) (q : PacketQueue P) : Prop :=
  Bundle PqDest.key PqDest.time PqDest.size (PqDest.Valid now) q.dests q.size

variable {now later : Nat} {dKey : PublicKey}

theorem PqPacketInfo.Valid.size_pos {info : PqPacketInfo P} (valid : info.Valid now) :
    0 < info.size := by
  rw [valid.size_eq]
  exact PqPacket.size_pos info.packet

theorem PqSource.Valid.size_pos {source : PqSource P} (valid : source.Valid dKey now) :
    0 < source.size := by
  obtain ⟨info, rest, isInfos⟩ := List.exists_cons_of_ne_nil valid.nonempty
  have positive := (valid.each info (isInfos ▸ List.mem_cons_self)).size_pos
  rw [valid.size_eq, isInfos, List.map_cons, List.sum_cons]
  omega

theorem PqDest.Valid.size_pos {dest : PqDest P} (valid : dest.Valid now) : 0 < dest.size :=
  (valid.sources.total_pos_iff fun _ => PqSource.Valid.size_pos).mpr valid.nonempty

theorem PqSource.Valid.time_le {source : PqSource P} (valid : source.Valid dKey now) {time : Nat}
    (isTime : source.time = some time) : time ≤ now := by
  obtain ⟨info, isHead, rfl⟩ := Option.map_eq_some_iff.mp isTime
  exact (valid.each info (List.mem_of_head? isHead)).time_le

theorem PqDest.Valid.time_le {dest : PqDest P} (valid : dest.Valid now) {time : Nat}
    (isTime : dest.time = some time) : time ≤ now := by
  obtain ⟨source, isHead, isTime⟩ := Option.bind_eq_some_iff.mp isTime
  exact (valid.sources.each source (List.mem_of_head? isHead)).time_le isTime

theorem PqSource.Valid.mono {source : PqSource P} (valid : source.Valid dKey now)
    (past : now ≤ later) : source.Valid dKey later :=
  { valid with
    each := fun info element =>
      ⟨(valid.each info element).size_eq, (valid.each info element).time_le.trans past⟩ }

theorem PqDest.Valid.mono {dest : PqDest P} (valid : dest.Valid now) (past : now ≤ later) :
    dest.Valid later :=
  { nonempty := valid.nonempty
    sources := Bundle.mono valid.sources fun _ fine => fine.mono past }

theorem PacketQueue.Valid.mono {q : PacketQueue P} (valid : q.Valid now) (past : now ≤ later) :
    q.Valid later :=
  Bundle.mono valid fun _ fine => fine.mono past

end Contents

/-! ## Taking a packet out -/

section Taking

variable [PqPacket P] {now idx : Nat} {dKey : PublicKey} {source : PqSource P} {dest : PqDest P}
  {info : PqPacketInfo P} {rest : List (PqPacketInfo P)} {sources' : List (PqSource P)}
  {q q' : PacketQueue P}

/-- What is left of a source after its first packet was taken. -/
def PqSource.without (source : PqSource P) (info : PqPacketInfo P)
    (rest : List (PqPacketInfo P)) : PqSource P :=
  { key := source.key, infos := rest, size := source.size - info.size }

theorem PqSource.Valid.size_cons (valid : source.Valid dKey now)
    (isFirst : source.infos = info :: rest) :
    source.size = info.size + (rest.map PqPacketInfo.size).sum := by
  rw [valid.size_eq, isFirst, List.map_cons, List.sum_cons]

theorem PqSource.Valid.without (valid : source.Valid dKey now)
    (isFirst : source.infos = info :: rest) (more : rest ≠ []) :
    (source.without info rest).Valid dKey now := by
  have inside : ∀ other ∈ rest, other ∈ source.infos := fun other element =>
    isFirst ▸ List.mem_cons_of_mem info element
  have sorted := valid.sorted
  rw [isFirst, List.pairwise_cons] at sorted
  refine ⟨more, ?_, fun other element => valid.own other (inside other element),
    fun other element => valid.each other (inside other element), sorted.2⟩
  have sum := valid.size_cons isFirst
  simp only [PqSource.without]
  omega

/-- The first packet of a source was taken, and these sources are left. -/
structure PqDest.Taken (now : Nat) (dest : PqDest P) (info : PqPacketInfo P)
    (sources' : List (PqSource P)) : Prop where
  valid : info.Valid now
  sources : SourcesValid dest.key now sources' (dest.size - info.size)
  size_le : info.size ≤ dest.size
  isDest : PqPacket.destKey info.packet = dest.key
  infosOf_eq : ∀ sKey, infosOf dest.sources sKey =
    (if sKey = PqPacket.sourceKey info.packet then [info] else []) ++ infosOf sources' sKey

theorem PqDest.Valid.taken (valid : dest.Valid now) (present : dest.sources[idx]? = some source)
    (isFirst : source.infos = info :: rest)
    (sources : SourcesValid dest.key now sources' (dest.size - info.size))
    (size_le : info.size ≤ dest.size)
    (looked : ∀ sKey, infosOf sources' sKey =
      if sKey = source.key then rest else infosOf dest.sources sKey) :
    dest.Taken now info sources' := by
  have validSource := valid.sources.each source (List.mem_of_getElem? present)
  have element : info ∈ source.infos := isFirst ▸ List.mem_cons_self
  have between := validSource.own info element
  refine ⟨validSource.each info element, sources, size_le, between.1, fun sKey => ?_⟩
  rw [looked, between.2]
  split
  · rename_i isKey
    rw [isKey, infosOf, lookup_of_getElem? valid.sources.unique present, Option.elim_some, isFirst]
    rfl
  · rfl

theorem PqDest.Valid.fix_without (valid : dest.Valid now)
    (present : dest.sources[idx]? = some source) (isFirst : source.infos = info :: rest)
    (more : rest ≠ []) (size : Nat) :
    ∃ sources', PqDest.fix ⟨dest.key, dest.sources.set idx (source.without info rest), size⟩ idx =
      some ⟨dest.key, sources', size⟩ ∧ dest.Taken now info sources' := by
  have validSource := valid.sources.each source (List.mem_of_getElem? present)
  have validLeft := validSource.without isFirst more
  have sum := validSource.size_cons isFirst
  obtain ⟨second, others, isRest⟩ := List.exists_cons_of_ne_nil more
  have isTime : (source.without info rest).time = some second.time := by
    rw [PqSource.time, PqSource.without, isRest]
    rfl
  have smaller : source.size = (source.without info rest).size + info.size := by
    simp only [PqSource.without]
    omega
  obtain ⟨sources', fixed, bundle, size_le, looked⟩ :=
    valid.sources.fix present validLeft rfl isTime smaller
  refine ⟨sources', ?_, valid.taken present isFirst bundle size_le fun sKey => ?_⟩
  · rw [PqDest.fix, fixed, Option.map_some]
  · rw [infosOf, looked]
    split
    · rfl
    · rfl

theorem PqDest.Valid.remove_without (valid : dest.Valid now)
    (present : dest.sources[idx]? = some source) (isFirst : source.infos = [info])
    {junk : PqSource P} (empty : junk.size = 0) (size : Nat) :
    ∃ sources', PqDest.remove ⟨dest.key, dest.sources.set idx junk, size⟩ idx =
      some ⟨dest.key, sources', size⟩ ∧ dest.Taken now info sources' := by
  have validSource := valid.sources.each source (List.mem_of_getElem? present)
  have sum : source.size = info.size := validSource.size_cons isFirst
  obtain ⟨sources', removed, bundle, size_le, looked⟩ := valid.sources.remove present junk
  rw [sum] at bundle size_le
  refine ⟨sources', ?_, valid.taken present isFirst bundle size_le fun sKey => ?_⟩
  · simp only [PqDest.remove, removed, Option.bind_some, empty, minus_zero, Option.map_some]
  · rw [infosOf, looked]
    split
    · rfl
    · rfl

/-- The step at a destination, whichever test decides between `Fix` and `Remove`. -/
theorem PqDest.Valid.shrink (valid : dest.Valid now) (present : dest.sources[idx]? = some source)
    (isFirst : source.infos = info :: rest) (junk : PqSource P) {more : Prop}
    (decides : more ↔ rest ≠ []) (empty : rest = [] → junk.size = 0) (size : Nat) :
    ∃ sources',
      (∀ [Decidable more],
        (if more then
            PqDest.fix ⟨dest.key, dest.sources.set idx (source.without info rest), size⟩ idx
          else PqDest.remove ⟨dest.key, dest.sources.set idx junk, size⟩ idx) =
          some ⟨dest.key, sources', size⟩) ∧ dest.Taken now info sources' := by
  by_cases last : rest = []
  · subst last
    obtain ⟨sources', removed, taken⟩ := valid.remove_without present isFirst (empty rfl) size
    refine ⟨sources', ?_, taken⟩
    intro decided
    rw [if_neg (fun isMore => decides.mp isMore rfl), removed]
  · obtain ⟨sources', fixed, taken⟩ := valid.fix_without present isFirst last size
    refine ⟨sources', ?_, taken⟩
    intro decided
    rw [if_pos (decides.mpr last), fixed]

/-- What is left of a queue after a packet was taken out: it was the first of its flow, and
all other flows are as they were. -/
structure PacketQueue.Removed (now : Nat) (q : PacketQueue P) (info : PqPacketInfo P)
    (q' : PacketQueue P) : Prop where
  fine : info.Valid now
  valid : q'.Valid now
  size_eq : q.size = q'.size + info.size
  flow_eq : ∀ dKey sKey, q.flow dKey sKey =
    (if info.Between dKey sKey then [info] else []) ++ q'.flow dKey sKey

theorem PacketQueue.Removed.size_le (removed : q.Removed now info q') : info.size ≤ q.size := by
  have sum := removed.size_eq
  omega

theorem PqDest.Taken.removed (taken : dest.Taken now info sources') (valid : q.Valid now)
    (present : q.dests[idx]? = some dest) {dests' : List (PqDest P)}
    (valid' : PacketQueue.Valid now ⟨dests', q.size - info.size⟩) (size_le : info.size ≤ q.size)
    (looked : ∀ dKey sKey, (⟨dests', q.size - info.size⟩ : PacketQueue P).flow dKey sKey =
      if dKey = dest.key then infosOf sources' sKey else q.flow dKey sKey) :
    q.Removed now info ⟨dests', q.size - info.size⟩ := by
  refine ⟨taken.valid, valid', (Nat.sub_add_cancel size_le).symm, fun dKey sKey => ?_⟩
  have between : info.Between dKey sKey ↔
      dKey = dest.key ∧ sKey = PqPacket.sourceKey info.packet := by
    rw [PqPacketInfo.Between, taken.isDest, eq_comm, @eq_comm _ _ sKey]
  rw [looked, if_congr between rfl rfl]
  by_cases isKey : dKey = dest.key
  · rw [if_pos isKey, isKey, PacketQueue.flow, lookup_of_getElem? valid.unique present,
      Option.elim_some, taken.infosOf_eq]
    simp only [true_and]
  · rw [if_neg isKey, if_neg fun both => isKey both.1, List.nil_append]

theorem PqDest.Taken.fix (taken : dest.Taken now info sources') (valid : q.Valid now)
    (present : q.dests[idx]? = some dest) (more : sources' ≠ []) (size : Nat) :
    ∃ dests', PacketQueue.fix
        ⟨q.dests.set idx ⟨dest.key, sources', dest.size - info.size⟩, size⟩ idx =
          some ⟨dests', size⟩ ∧
      q.Removed now info ⟨dests', q.size - info.size⟩ := by
  let left : PqDest P := { dest with sources := sources', size := dest.size - info.size }
  have validLeft : left.Valid now := ⟨more, taken.sources⟩
  obtain ⟨source, others, isSources⟩ := List.exists_cons_of_ne_nil more
  have smaller : dest.size = left.size + info.size := (Nat.sub_add_cancel taken.size_le).symm
  have validSource := taken.sources.each source (isSources ▸ List.mem_cons_self)
  obtain ⟨first, infos, isInfos⟩ := List.exists_cons_of_ne_nil validSource.nonempty
  have isTime : left.time = some first.time := by
    simp only [left, PqDest.time, PqSource.time, isSources, isInfos, List.head?_cons,
      Option.bind_some, Option.map_some]
  obtain ⟨dests', fixed, bundle, size_le, looked⟩ :=
    Bundle.fix valid present validLeft rfl isTime smaller
  refine ⟨dests', ?_, taken.removed valid present bundle size_le fun dKey sKey => ?_⟩
  · rw [PacketQueue.fix, fixed, Option.map_some]
  · rw [PacketQueue.flow, looked]
    split
    · rfl
    · rfl

theorem PqDest.Taken.remove (taken : dest.Taken now info []) (valid : q.Valid now)
    (present : q.dests[idx]? = some dest) (junk : PqDest P) (empty : junk.size = 0) (size : Nat) :
    ∃ dests', PacketQueue.remove ⟨q.dests.set idx junk, size⟩ idx = some ⟨dests', size⟩ ∧
      q.Removed now info ⟨dests', q.size - info.size⟩ := by
  have sum : dest.size = info.size := by
    have none := taken.sources.total_eq
    have size_le := taken.size_le
    simp only [List.map_nil, List.sum_nil] at none
    omega
  obtain ⟨dests', removed, bundle, size_le, looked⟩ := Bundle.remove valid present junk
  rw [sum] at bundle size_le
  refine ⟨dests', ?_, taken.removed valid present bundle size_le fun dKey sKey => ?_⟩
  · simp only [PacketQueue.remove, removed, Option.bind_some, empty, minus_zero, Option.map_some]
  · rw [PacketQueue.flow, looked]
    split
    · rfl
    · rfl

/-- The step at the queue. -/
theorem PqDest.Taken.shrink (taken : dest.Taken now info sources') (valid : q.Valid now)
    (present : q.dests[idx]? = some dest) {more : Prop} (decides : more ↔ sources' ≠ [])
    (size : Nat) :
    ∃ dests',
      (∀ [Decidable more],
        (if more then
            PacketQueue.fix ⟨q.dests.set idx ⟨dest.key, sources', dest.size - info.size⟩, size⟩ idx
          else
            PacketQueue.remove
              ⟨q.dests.set idx ⟨dest.key, sources', dest.size - info.size⟩, size⟩ idx) =
          some ⟨dests', size⟩) ∧ q.Removed now info ⟨dests', q.size - info.size⟩ := by
  by_cases last : sources' = []
  · subst last
    obtain ⟨dests', removed, gone⟩ := taken.remove valid present
      ⟨dest.key, [], dest.size - info.size⟩ taken.sources.total_eq size
    refine ⟨dests', ?_, gone⟩
    intro decided
    rw [if_neg (fun isMore => decides.mp isMore rfl), removed]
  · obtain ⟨dests', fixed, gone⟩ := taken.fix valid present last size
    refine ⟨dests', ?_, gone⟩
    intro decided
    rw [if_pos (decides.mpr last), fixed]

end Taking

/-! ## Putting a packet in -/

section Putting

variable [PqPacket P] {now : Nat} {dKey sKey : PublicKey} {info : PqPacketInfo P}

theorem PqSource.valid_push {source : PqSource P}
    (size_eq : source.size = (source.infos.map PqPacketInfo.size).sum)
    (own : ∀ other ∈ source.infos, other.Between dKey source.key)
    (each : ∀ other ∈ source.infos, other.Valid now)
    (sorted : source.infos.Pairwise fun first second => first.time ≤ second.time)
    (between : info.Between dKey source.key) (fine : info.Valid now) (isNow : info.time = now) :
    (source.push info).Valid dKey now where
  nonempty := List.append_ne_nil_of_right_ne_nil _ (List.cons_ne_nil info [])
  size_eq := by
    simp only [PqSource.push, List.map_append, List.sum_append, List.map_singleton,
      List.sum_singleton, size_eq]
  own := by
    intro other element
    rcases List.mem_append.mp element with before | last
    · exact own other before
    · rw [List.mem_singleton.mp last]
      exact between
  each := by
    intro other element
    rcases List.mem_append.mp element with before | last
    · exact each other before
    · rw [List.mem_singleton.mp last]
      exact fine
  sorted := by
    refine List.pairwise_append.mpr ⟨sorted, List.pairwise_singleton _ _, ?_⟩
    intro other before last isLast
    rw [List.mem_singleton.mp isLast, isNow]
    exact (each other before).time_le

theorem PqSource.Valid.push {source : PqSource P} (valid : source.Valid dKey now)
    (between : info.Between dKey source.key) (fine : info.Valid now) (isNow : info.time = now) :
    (source.push info).Valid dKey now :=
  valid_push valid.size_eq valid.own valid.each valid.sorted between fine isNow

theorem PqSource.Valid.time_push {source : PqSource P} (valid : source.Valid dKey now) :
    (source.push info).time = source.time := by
  obtain ⟨first, rest, isInfos⟩ := List.exists_cons_of_ne_nil valid.nonempty
  simp only [PqSource.time, PqSource.push, isInfos, List.cons_append, List.head?_cons]

theorem PqSource.valid_push_new (between : info.Between dKey sKey) (fine : info.Valid now)
    (isNow : info.time = now) : (PqSource.push { key := sKey } info).Valid dKey now :=
  valid_push rfl (List.forall_mem_nil _) (List.forall_mem_nil _) .nil between fine isNow

omit [PqPacket P] in
theorem infosOf_getD (sources : List (PqSource P)) (sKey : PublicKey) :
    ((lookup PqSource.key sources sKey).getD { key := sKey }).infos = infosOf sources sKey := by
  rw [infosOf]
  cases lookup PqSource.key sources sKey with
  | none => rfl
  | some source => rfl

omit [PqPacket P] in
theorem infosOf_push {dest : PqDest P} (unique : Unique PqSource.key dest.sources)
    (other : PublicKey) :
    infosOf (dest.push sKey info).sources other =
      infosOf dest.sources other ++ if other = sKey then [info] else [] := by
  rw [infosOf, PqDest.push, lookup_upsert unique sKey { key := sKey }
    (fun source => source.push info) rfl fun _ _ => rfl]
  split
  · rename_i isKey
    rw [Option.elim_some, PqSource.push, infosOf_getD, isKey]
  · rw [List.append_nil, infosOf]

theorem PqDest.valid_push {dest : PqDest P}
    (valid : SourcesValid dest.key now dest.sources dest.size)
    (between : info.Between dest.key sKey) (fine : info.Valid now) (isNow : info.time = now) :
    (dest.push sKey info).Valid now where
  nonempty := upsert_ne_nil PqSource.key dest.sources sKey { key := sKey } fun source =>
    source.push info
  sources := by
    apply valid.upsert sKey { key := sKey } (fun source => source.push info) rfl
      (congrArg some isNow) (Nat.zero_add _) (PqSource.valid_push_new between fine isNow)
    · exact fun source element _ => (valid.each source element).time_le
    · exact fun source element => ⟨rfl, (valid.each source element).time_push, rfl⟩
    · rintro source element rfl
      exact (valid.each source element).push between fine isNow

theorem PqDest.Valid.time_push {dest : PqDest P} (valid : dest.Valid now) :
    (dest.push sKey info).time = dest.time := by
  obtain ⟨first, rest, isSources⟩ := List.exists_cons_of_ne_nil valid.nonempty
  have validFirst := valid.sources.each first (isSources ▸ List.mem_cons_self)
  rw [PqDest.time, PqDest.time, PqDest.push]
  rcases head?_upsert isSources PqSource.key sKey { key := sKey } (fun source => source.push info)
    with same | changed
  · rw [same, isSources, List.head?_cons]
  · rw [changed, isSources, List.head?_cons, Option.bind_some, Option.bind_some,
      validFirst.time_push]

end Putting

/-! ## The operations -/

namespace PacketQueue

section Operations

theorem largest_spec {α : Type} (size : α → Nat) {entries : List α} (nonempty : entries ≠ []) :
    ∃ entry, entries[largest size entries]? = some entry ∧
      ∀ other ∈ entries, size other ≤ size entry := by
  let sizeAt := fun idx : Nat => (entries[idx]?).elim 0 size
  -- Invariant of the loop: the best index so far is in range, and no earlier entry is larger.
  have loop : ∀ n, n ≤ entries.length →
      (List.range n).foldl (fun best idx => if sizeAt idx > sizeAt best then idx else best) 0 <
          entries.length ∧
        ∀ idx < n, sizeAt idx ≤ sizeAt ((List.range n).foldl
          (fun best idx => if sizeAt idx > sizeAt best then idx else best) 0) := by
    intro n inside
    induction n with
    | zero =>
        exact ⟨List.length_pos_iff.mpr nonempty, fun idx none => absurd none (Nat.not_lt_zero idx)⟩
    | succ n ih =>
        obtain ⟨bound, best⟩ := ih (Nat.le_of_succ_le inside)
        rw [List.range_succ, List.foldl_append, List.foldl_cons, List.foldl_nil]
        split
        · rename_i larger
          refine ⟨inside, fun idx before => ?_⟩
          rcases Nat.lt_succ_iff_lt_or_eq.mp before with earlier | rfl
          · exact (best idx earlier).trans larger.le
          · exact le_rfl
        · rename_i notLarger
          refine ⟨bound, fun idx before => ?_⟩
          rcases Nat.lt_succ_iff_lt_or_eq.mp before with earlier | rfl
          · exact best idx earlier
          · exact Nat.not_lt.mp notLarger
  obtain ⟨bound, best⟩ := loop entries.length le_rfl
  have present : entries[largest size entries]? = some entries[largest size entries] :=
    List.getElem?_eq_getElem bound
  refine ⟨entries[largest size entries], present, fun other element => ?_⟩
  obtain ⟨idx, inside, rfl⟩ := List.mem_iff_getElem.mp element
  have le := best idx inside
  change sizeAt idx ≤ sizeAt (largest size entries) at le
  simp only [sizeAt, present, List.getElem?_eq_getElem inside, Option.elim_some] at le
  exact le

variable [PqPacket P] {now idx : Nat} {q : PacketQueue P}

theorem Valid.dests_ne_nil (valid : q.Valid now) (loaded : 0 < q.size) : q.dests ≠ [] :=
  (Bundle.total_pos_iff valid fun _ => PqDest.Valid.size_pos).mp loaded

omit [PqPacket P] in
theorem drop_of_empty (empty : q.size = 0) : q.drop = some (q, none) :=
  if_pos empty

omit [PqPacket P] in
theorem pop_of_empty (empty : q.size = 0) : q.pop = some (q, none) :=
  if_neg (by omega)

/-- `drop` takes the first packet of a largest source of a largest destination. -/
theorem drop_spec (valid : q.Valid now) (loaded : 0 < q.size) :
    ∃ q' info dest source rest, q.drop = some (q', some info) ∧ q.Removed now info q' ∧
      dest ∈ q.dests ∧ source ∈ dest.sources ∧ source.infos = info :: rest ∧
      (∀ other ∈ q.dests, other.size ≤ dest.size) ∧
      ∀ other ∈ dest.sources, other.size ≤ source.size := by
  obtain ⟨dest, isDest, largestDest⟩ := largest_spec PqDest.size (valid.dests_ne_nil loaded)
  have validDest := valid.each dest (List.mem_of_getElem? isDest)
  obtain ⟨source, isSource, largestSource⟩ := largest_spec PqSource.size validDest.nonempty
  have validSource := validDest.sources.each source (List.mem_of_getElem? isSource)
  obtain ⟨info, rest, isInfos⟩ := List.exists_cons_of_ne_nil validSource.nonempty
  have validInfo := validSource.each info (isInfos ▸ List.mem_cons_self)
  have size := validSource.size_cons isInfos
  have isInfo : source.infos[0]? = some info := by rw [isInfos, List.getElem?_cons_zero]
  have sourceLeft : minus source.size info.size = some (source.size - info.size) :=
    minus_eq (by omega)
  have moreInfos : (source.without info rest).size > 0 ↔ rest ≠ [] := by
    constructor
    · rintro positive rfl
      simp only [PqSource.without, size, List.map_nil, List.sum_nil] at positive
      omega
    · intro more
      exact (validSource.without isInfos more).size_pos
  obtain ⟨sources', shrunk, taken⟩ := validDest.shrink isSource isInfos (source.without info rest)
    moreInfos
    (fun last => Nat.eq_zero_of_not_pos fun positive => moreInfos.mp positive last) dest.size
  have destLeft : minus dest.size info.size = some (dest.size - info.size) := minus_eq taken.size_le
  have moreSources : dest.size - info.size > 0 ↔ sources' ≠ [] :=
    taken.sources.total_pos_iff fun _ => PqSource.Valid.size_pos
  obtain ⟨dests', freed, removed⟩ := taken.shrink valid isDest moreSources q.size
  have left : minus q.size info.size = some (q.size - info.size) := minus_eq removed.size_le
  refine ⟨⟨dests', q.size - info.size⟩, info, dest, source, rest, ?_, removed,
    List.mem_of_getElem? isDest, List.mem_of_getElem? isSource, isInfos, largestDest, largestSource⟩
  rw [drop, if_neg (by omega)]
  simp only [isDest, isSource, isInfo, sourceLeft, Option.bind_eq_bind, Option.bind_some]
  simp only [PqSource.without] at shrunk
  rw [isInfos, List.drop_one, List.tail_cons]
  rw [shrunk, Option.bind_some]
  simp only [destLeft, Option.bind_some]
  rw [freed, Option.bind_some]
  simp only [left, Option.bind_some, Option.pure_def]

/-- `pop` takes the first packet of the first source of the first destination. -/
theorem pop_spec (valid : q.Valid now) (loaded : 0 < q.size) :
    ∃ q' info dest source rest, q.pop = some (q', some info) ∧ q.Removed now info q' ∧
      q.dests[0]? = some dest ∧ dest.sources[0]? = some source ∧ source.infos = info :: rest := by
  obtain ⟨dest, dests, isDests⟩ := List.exists_cons_of_ne_nil (valid.dests_ne_nil loaded)
  have isDest : q.dests[0]? = some dest := by rw [isDests, List.getElem?_cons_zero]
  have validDest := valid.each dest (List.mem_of_getElem? isDest)
  obtain ⟨source, sources, isSources⟩ := List.exists_cons_of_ne_nil validDest.nonempty
  have isSource : dest.sources[0]? = some source := by rw [isSources, List.getElem?_cons_zero]
  have validSource := validDest.sources.each source (List.mem_of_getElem? isSource)
  obtain ⟨info, rest, isInfos⟩ := List.exists_cons_of_ne_nil validSource.nonempty
  have isInfo : source.infos[0]? = some info := by rw [isInfos, List.getElem?_cons_zero]
  have size := validSource.size_cons isInfos
  have sourceLeft : minus source.size info.size = some (source.size - info.size) :=
    minus_eq (by omega)
  have moreInfos : source.infos.length > 1 ↔ rest ≠ [] := by
    rw [isInfos, List.length_cons, ← List.length_pos_iff]
    omega
  obtain ⟨sources', shrunk, taken⟩ := validDest.shrink isSource isInfos
    { source with size := source.size - info.size } moreInfos
    (fun last => by simp [size, last]) (dest.size - info.size)
  have destLeft : minus dest.size info.size = some (dest.size - info.size) := minus_eq taken.size_le
  obtain ⟨dests', freed, removed⟩ :=
    taken.shrink valid isDest List.length_pos_iff (q.size - info.size)
  have left : minus q.size info.size = some (q.size - info.size) := minus_eq removed.size_le
  refine ⟨⟨dests', q.size - info.size⟩, info, dest, source, rest, ?_, removed, isDest, isSource,
    isInfos⟩
  rw [pop, if_pos loaded]
  simp only [isDest, isSource, isInfo, sourceLeft, destLeft, left, Option.bind_eq_bind,
    Option.bind_some]
  simp only [PqSource.without] at shrunk
  simp only [isInfos, List.drop_one, List.tail_cons] at shrunk ⊢
  rw [shrunk, Option.bind_some, freed, Option.bind_some, Option.pure_def]

theorem push_spec {later : Nat} (valid : q.Valid now) (past : now ≤ later) (packet : P) :
    (q.push packet later).Valid later ∧
      ∀ dKey sKey, (q.push packet later).flow dKey sKey =
        q.flow dKey sKey ++ if (infoFor packet later).Between dKey sKey then [infoFor packet later]
          else [] := by
  have validLater := valid.mono past
  have fine : (infoFor packet later).Valid later := ⟨rfl, le_rfl⟩
  let change : PqDest P → PqDest P :=
    fun dest => dest.push (PqPacket.sourceKey packet) (infoFor packet later)
  have new : (change { key := PqPacket.destKey packet }).Valid later :=
    PqDest.valid_push .empty ⟨rfl, rfl⟩ fine rfl
  constructor
  · apply Bundle.upsert validLater (PqPacket.destKey packet)
      { key := PqPacket.destKey packet } change rfl rfl (Nat.zero_add _) new
    · exact fun dest element _ => (validLater.each dest element).time_le
    · exact fun dest element => ⟨rfl, (validLater.each dest element).time_push, rfl⟩
    · intro dest element isKey
      exact PqDest.valid_push (validLater.each dest element).sources ⟨isKey.symm, rfl⟩ fine rfl
  · intro dKey sKey
    rw [flow, flow, push, lookup_upsert valid.unique (PqPacket.destKey packet)
      { key := PqPacket.destKey packet } change rfl fun _ _ => rfl]
    by_cases isDest : dKey = PqPacket.destKey packet
    · subst isDest
      have between : (infoFor packet later).Between (PqPacket.destKey packet) sKey ↔
          sKey = PqPacket.sourceKey packet := by
        rw [eq_comm]
        exact and_iff_right rfl
      rw [if_pos rfl, Option.elim_some, if_congr between rfl rfl]
      cases looked : lookup PqDest.key q.dests (PqPacket.destKey packet) with
      | none =>
          have unique :
              Unique PqSource.key ({ key := PqPacket.destKey packet } : PqDest P).sources :=
            List.nodup_nil
          exact infosOf_push unique sKey
      | some dest =>
          have element := ((lookup_eq_some_iff valid.unique).mp looked).1
          exact infosOf_push (valid.each dest element).sources.unique sKey
    · rw [if_neg isDest, if_neg fun between => isDest between.1.symm, List.append_nil]

theorem Valid.mem_flow_iff (valid : q.Valid now) {dKey sKey : PublicKey} {info : PqPacketInfo P} :
    info ∈ q.flow dKey sKey ↔
      ∃ dest ∈ q.dests, dest.key = dKey ∧ ∃ source ∈ dest.sources, source.key = sKey ∧
        info ∈ source.infos := by
  constructor
  · intro element
    rw [flow] at element
    cases isDest : lookup PqDest.key q.dests dKey with
    | none =>
        rw [isDest] at element
        cases element
    | some dest =>
        obtain ⟨inside, isKey⟩ := (lookup_eq_some_iff valid.unique).mp isDest
        rw [isDest, Option.elim_some, infosOf] at element
        cases isSource : lookup PqSource.key dest.sources sKey with
        | none =>
            rw [isSource] at element
            cases element
        | some source =>
            rw [isSource] at element
            have unique := (valid.each dest inside).sources.unique
            obtain ⟨within, isKey'⟩ := (lookup_eq_some_iff unique).mp isSource
            exact ⟨dest, inside, isKey, source, within, isKey', element⟩
  · rintro ⟨dest, inside, isKey, source, within, isKey', element⟩
    have unique := (valid.each dest inside).sources.unique
    rw [flow, (lookup_eq_some_iff valid.unique).mpr ⟨inside, isKey⟩, Option.elim_some, infosOf,
      (lookup_eq_some_iff unique).mpr ⟨within, isKey'⟩]
    exact element

/-- The first packet of the first source of the first destination is the oldest of all. -/
theorem Valid.oldest {dest : PqDest P} {source : PqSource P} {info other : PqPacketInfo P}
    {rest : List (PqPacketInfo P)} (valid : q.Valid now) (isDest : q.dests[0]? = some dest)
    (isSource : dest.sources[0]? = some source) (isInfos : source.infos = info :: rest)
    {dKey sKey : PublicKey} (element : other ∈ q.flow dKey sKey) : info.time ≤ other.time := by
  obtain ⟨dest', inside, -, source', within, -, queued⟩ := valid.mem_flow_iff.mp element
  have validDest := valid.each dest' inside
  have validSource := validDest.sources.each source' within
  obtain ⟨first, infos, isInfos'⟩ := List.exists_cons_of_ne_nil validSource.nonempty
  have sourceTime : source.time = some info.time := by
    rw [PqSource.time, isInfos]
    rfl
  have sourceTime' : source'.time = some first.time := by
    rw [PqSource.time, isInfos']
    rfl
  have destTime : dest.time = some info.time := by
    rw [PqDest.time, List.head?_eq_getElem?, isSource, Option.bind_some, sourceTime]
  obtain ⟨time, destTime'⟩ := valid.heap.exists_key inside
  calc
    info.time ≤ time := by
      apply valid.heap.head_le _ inside destTime'
      rw [List.head?_eq_getElem?, isDest, Option.bind_some, destTime]
    _ ≤ first.time := validDest.sources.heap.head_le destTime' within sourceTime'
    _ ≤ other.time := by
      have sorted := validSource.sorted
      rw [isInfos'] at queued sorted
      rcases List.mem_cons.mp queued with rfl | later
      · exact le_rfl
      · exact (List.pairwise_cons.mp sorted).1 other later

/-- The size of a destination is that of its packets. -/
theorem Valid.sum_packetsTo {dest : PqDest P} (valid : q.Valid now) (inside : dest ∈ q.dests) :
    ((q.packetsTo dest.key).map PqPacketInfo.size).sum = dest.size := by
  have sources := (valid.each dest inside).sources
  rw [packetsTo, (lookup_eq_some_iff valid.unique).mpr ⟨inside, rfl⟩, Option.elim_some,
    sources.total_eq, List.map_flatMap, List.flatMap_def, List.sum_flatten, List.map_map]
  refine congrArg List.sum (List.map_congr_left fun source within => ?_)
  exact (sources.each source within).size_eq.symm

theorem Valid.sum_packetsTo_le {dest : PqDest P} (valid : q.Valid now) (inside : dest ∈ q.dests)
    (largest : ∀ other ∈ q.dests, other.size ≤ dest.size) (dKey : PublicKey) :
    ((q.packetsTo dKey).map PqPacketInfo.size).sum ≤
      ((q.packetsTo dest.key).map PqPacketInfo.size).sum := by
  rw [valid.sum_packetsTo inside]
  cases looked : lookup PqDest.key q.dests dKey with
  | none =>
      rw [packetsTo, looked]
      exact Nat.zero_le _
  | some other =>
      obtain ⟨element, rfl⟩ := (lookup_eq_some_iff valid.unique).mp looked
      rw [valid.sum_packetsTo element]
      exact largest other element

theorem Valid.flow_of_mem {dest : PqDest P} {source : PqSource P} (valid : q.Valid now)
    (inside : dest ∈ q.dests) (within : source ∈ dest.sources) :
    q.flow dest.key source.key = source.infos := by
  have unique := (valid.each dest inside).sources.unique
  rw [flow, (lookup_eq_some_iff valid.unique).mpr ⟨inside, rfl⟩, Option.elim_some, infosOf,
    (lookup_eq_some_iff unique).mpr ⟨within, rfl⟩, Option.elim_some]

theorem Valid.sum_flow_le {dest : PqDest P} {source : PqSource P} (valid : q.Valid now)
    (inside : dest ∈ q.dests) (within : source ∈ dest.sources)
    (largest : ∀ other ∈ dest.sources, other.size ≤ source.size) (sKey : PublicKey) :
    ((q.flow dest.key sKey).map PqPacketInfo.size).sum ≤
      ((q.flow dest.key source.key).map PqPacketInfo.size).sum := by
  have sources := (valid.each dest inside).sources
  rw [valid.flow_of_mem inside within, ← (sources.each source within).size_eq, flow,
    (lookup_eq_some_iff valid.unique).mpr ⟨inside, rfl⟩, Option.elim_some, infosOf]
  cases looked : lookup PqSource.key dest.sources sKey with
  | none => exact Nat.zero_le _
  | some other =>
      have element := ((lookup_eq_some_iff sources.unique).mp looked).1
      rw [Option.elim_some, ← (sources.each other element).size_eq]
      exact largest other element

end Operations

end PacketQueue

end Uqda.Network
