import Uqda.Network.Messages
import Uqda.Network.Queue
import Uqda.Transition.Core

/-!
# Runs of the packet queue

Pushes, pops and drops in any order.  No operation faults, the packets of every flow leave the
queue in the order in which they entered it, and `pop` and `drop` choose as they should in every
state that can be reached.
-/

namespace Uqda.Network

open Uqda.Transition

variable {P : Type}

theorem Traffic.size_pos (tr : Traffic) : 0 < tr.size := by
  rw [Traffic.size]
  omega

/-- `PacketConn` queues traffic for its reader. -/
instance : PqPacket Traffic where
  size := Traffic.size
  sourceKey := Traffic.source
  destKey := Traffic.dest
  size_pos := Traffic.size_pos

/-- What is done to a queue.  Time does not run backwards. -/
inductive QueueEvent (P : Type)
  | push (packet : P) (elapsed : Nat)
  | pop
  | drop

/-- A queue, with all that was put in and all that was taken out. -/
structure QueueLog (P : Type) where
  queue : PacketQueue P := {}
  now : Nat := 0
  pushed : List (PqPacketInfo P) := []
  taken : List (PqPacketInfo P) := []

variable [PqPacket P]

/-- One operation.  There is no next state if the code would panic. -/
def QueueLog.next : Step (QueueLog P) (QueueEvent P)
  | log, .push packet elapsed =>
      some
        { log with
          queue := log.queue.push packet (log.now + elapsed)
          now := log.now + elapsed
          pushed := log.pushed ++ [PacketQueue.infoFor packet (log.now + elapsed)] }
  | log, .pop =>
      log.queue.pop.map fun (queue, info) => { log with queue, taken := log.taken ++ info.toList }
  | log, .drop =>
      log.queue.drop.map fun (queue, info) => { log with queue, taken := log.taken ++ info.toList }

/-- The packets of one flow, as a list. -/
def ofFlow (dKey sKey : PublicKey) (infos : List (PqPacketInfo P)) : List (PqPacketInfo P) :=
  infos.filter fun info => info.Between dKey sKey

/-- Every flow's packets come out in the order they went in, and the size is what is left. -/
structure QueueLog.Balanced (log : QueueLog P) : Prop where
  valid : log.queue.Valid log.now
  flow_eq : ∀ dKey sKey,
    ofFlow dKey sKey log.pushed = ofFlow dKey sKey log.taken ++ log.queue.flow dKey sKey
  size_eq : (log.pushed.map PqPacketInfo.size).sum =
    (log.taken.map PqPacketInfo.size).sum + log.queue.size

variable {log : QueueLog P}

theorem ofFlow_append (dKey sKey : PublicKey) (infos infos' : List (PqPacketInfo P)) :
    ofFlow dKey sKey (infos ++ infos') = ofFlow dKey sKey infos ++ ofFlow dKey sKey infos' :=
  List.filter_append infos infos'

theorem ofFlow_singleton (dKey sKey : PublicKey) (info : PqPacketInfo P) :
    ofFlow dKey sKey [info] = if info.Between dKey sKey then [info] else [] := by
  simp only [ofFlow, List.filter_cons, List.filter_nil, decide_eq_true_eq]

omit [PqPacket P] in
theorem sum_size_concat (infos : List (PqPacketInfo P)) (info : PqPacketInfo P) :
    ((infos ++ [info]).map PqPacketInfo.size).sum =
      (infos.map PqPacketInfo.size).sum + info.size := by
  rw [List.map_append, List.sum_append, List.map_singleton, List.sum_singleton]

theorem QueueLog.Balanced.push (balanced : log.Balanced) (packet : P) (elapsed : Nat) :
    ∃ log', log.next (.push packet elapsed) = some log' ∧ log'.Balanced := by
  obtain ⟨valid, flow⟩ :=
    PacketQueue.push_spec balanced.valid (Nat.le_add_right log.now elapsed) packet
  refine ⟨_, rfl, valid, fun dKey sKey => ?_, ?_⟩
  · rw [ofFlow_append, ofFlow_singleton, balanced.flow_eq, flow, List.append_assoc]
  · rw [sum_size_concat, balanced.size_eq, Nat.add_assoc]
    rfl

/-- The step for both ways to take a packet out. -/
theorem QueueLog.Balanced.removed {queue : PacketQueue P} {info : PqPacketInfo P}
    (balanced : log.Balanced) (removed : log.queue.Removed log.now info queue) :
    QueueLog.Balanced { log with queue, taken := log.taken ++ [info] } := by
  refine ⟨removed.valid, fun dKey sKey => ?_, ?_⟩
  · rw [ofFlow_append, ofFlow_singleton, balanced.flow_eq, removed.flow_eq, List.append_assoc]
  · rw [sum_size_concat, balanced.size_eq, removed.size_eq]
    simp only
    omega

theorem QueueLog.Balanced.next (balanced : log.Balanced) (event : QueueEvent P) :
    ∃ log', log.next event = some log' ∧ log'.Balanced := by
  cases event with
  | push packet elapsed => exact balanced.push packet elapsed
  | pop =>
      rcases Nat.eq_zero_or_pos log.queue.size with empty | loaded
      · refine ⟨log, ?_, balanced⟩
        rw [QueueLog.next, PacketQueue.pop_of_empty empty, Option.map_some]
        simp only [Option.toList_none, List.append_nil]
      · obtain ⟨queue, info, -, -, -, popped, removed, -⟩ :=
          PacketQueue.pop_spec balanced.valid loaded
        refine ⟨_, ?_, balanced.removed removed⟩
        rw [QueueLog.next, popped]
        rfl
  | drop =>
      rcases Nat.eq_zero_or_pos log.queue.size with empty | loaded
      · refine ⟨log, ?_, balanced⟩
        rw [QueueLog.next, PacketQueue.drop_of_empty empty, Option.map_some]
        simp only [Option.toList_none, List.append_nil]
      · obtain ⟨queue, info, -, -, -, dropped, removed, -⟩ :=
          PacketQueue.drop_spec balanced.valid loaded
        refine ⟨_, ?_, balanced.removed removed⟩
        rw [QueueLog.next, dropped]
        rfl

theorem QueueLog.Balanced.run (balanced : log.Balanced) (events : List (QueueEvent P)) :
    ∃ log', run QueueLog.next log events = some log' ∧ log'.Balanced := by
  induction events generalizing log with
  | nil => exact ⟨log, rfl, balanced⟩
  | cons event events ih =>
      obtain ⟨middle, step, stillBalanced⟩ := balanced.next event
      obtain ⟨target, reached, atEnd⟩ := ih stillBalanced
      exact ⟨target, run_cons_eq_some_iff.mpr ⟨middle, step, reached⟩, atEnd⟩

theorem QueueLog.balanced_empty : QueueLog.Balanced ({} : QueueLog P) where
  valid := .empty
  flow_eq _ _ := rfl
  size_eq := rfl

/-- Whatever is done to an empty queue, in any order, no index is out of range and no size
wraps around; of every flow, what came out followed by what is still queued is what went in. -/
theorem QueueLog.run_conserves (events : List (QueueEvent P)) :
    ∃ log : QueueLog P, run QueueLog.next {} events = some log ∧
      (∀ dKey sKey,
        ofFlow dKey sKey log.pushed = ofFlow dKey sKey log.taken ++ log.queue.flow dKey sKey) ∧
      (log.pushed.map PqPacketInfo.size).sum =
        (log.taken.map PqPacketInfo.size).sum + log.queue.size := by
  obtain ⟨log, reached, balanced⟩ := QueueLog.balanced_empty.run events
  exact ⟨log, reached, balanced.flow_eq, balanced.size_eq⟩

/-- In every state that can be reached, `pop` and `peek` find a packet that is the oldest of
all, and `drop` the oldest packet of a largest flow to a destination with the largest queue. -/
theorem QueueLog.run_serves {events : List (QueueEvent P)} {log : QueueLog P}
    (reached : run QueueLog.next {} events = some log) (loaded : 0 < log.queue.size) :
    (∃ queue info, log.queue.pop = some (queue, some info) ∧ log.queue.peek = some (some info) ∧
      ∀ dKey sKey, ∀ other ∈ log.queue.flow dKey sKey, info.time ≤ other.time) ∧
    ∃ queue info rest, log.queue.drop = some (queue, some info) ∧
      log.queue.flow (PqPacket.destKey info.packet) (PqPacket.sourceKey info.packet) =
        info :: rest ∧
      (∀ dKey, ((log.queue.packetsTo dKey).map PqPacketInfo.size).sum ≤
        ((log.queue.packetsTo (PqPacket.destKey info.packet)).map PqPacketInfo.size).sum) ∧
      ∀ sKey, ((log.queue.flow (PqPacket.destKey info.packet) sKey).map PqPacketInfo.size).sum ≤
        ((log.queue.flow (PqPacket.destKey info.packet)
          (PqPacket.sourceKey info.packet)).map PqPacketInfo.size).sum := by
  obtain ⟨log', reached', balanced⟩ := QueueLog.balanced_empty.run events
  obtain rfl : log = log' := Option.some.inj (reached.symm.trans reached')
  have valid := balanced.valid
  constructor
  · obtain ⟨queue, info, dest, source, rest, popped, -, isDest, isSource, isInfos⟩ :=
      PacketQueue.pop_spec valid loaded
    refine ⟨queue, info, popped, ?_, fun _ _ _ => valid.oldest isDest isSource isInfos⟩
    have isInfo : source.infos[0]? = some info := by rw [isInfos, List.getElem?_cons_zero]
    rw [PacketQueue.peek, if_pos (List.length_pos_iff.mpr (valid.dests_ne_nil loaded))]
    simp only [isDest, isSource, isInfo, Option.bind_eq_bind, Option.bind_some, Option.pure_def]
  · obtain ⟨queue, info, dest, source, rest, dropped, -, inside, within, isInfos, largestDest,
      largestSource⟩ := PacketQueue.drop_spec valid loaded
    have validSource := (valid.each dest inside).sources.each source within
    obtain ⟨isDest, isSource⟩ := validSource.own info (isInfos ▸ List.mem_cons_self)
    refine ⟨queue, info, rest, dropped, ?_, ?_, ?_⟩
    · rw [isDest, isSource, valid.flow_of_mem inside within, isInfos]
    · rw [isDest]
      exact valid.sum_packetsTo_le inside largestDest
    · rw [isDest, isSource]
      exact valid.sum_flow_le inside within largestSource

/-- Two packets from different sources. -/
theorem QueueLog.run_serves_two :
    ∃ log : QueueLog Traffic,
      run QueueLog.next {}
        [.push ⟨[], [], .replicate 32 1, .replicate 32 2, 0, [7]⟩ 3,
          .push ⟨[], [], .replicate 32 3, .replicate 32 2, 0, []⟩ 2] = some log ∧
      (∃ queue info, log.queue.pop = some (queue, some info) ∧
        ∀ dKey sKey, ∀ other ∈ log.queue.flow dKey sKey, info.time ≤ other.time) ∧
      ∃ queue info, log.queue.drop = some (queue, some info) ∧
        ∀ dKey, ((log.queue.packetsTo dKey).map PqPacketInfo.size).sum ≤
          ((log.queue.packetsTo info.packet.dest).map PqPacketInfo.size).sum := by
  have reached : run QueueLog.next ({} : QueueLog Traffic)
      [.push ⟨[], [], .replicate 32 1, .replicate 32 2, 0, [7]⟩ 3,
        .push ⟨[], [], .replicate 32 3, .replicate 32 2, 0, []⟩ 2] = some _ := rfl
  obtain ⟨⟨queue, info, popped, -, oldest⟩, rest, packet, -, dropped, -, largest, -⟩ :=
    QueueLog.run_serves reached (by decide)
  exact ⟨_, reached, ⟨queue, info, popped, oldest⟩, rest, packet, dropped, largest⟩

end Uqda.Network
