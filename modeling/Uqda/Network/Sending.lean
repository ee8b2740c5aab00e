import Uqda.Network.Framing
import Uqda.Network.QueueRuns

/-!
# Sending to a peer

The embedding of the sending half of `third_party/ironwood/network/peers.go`.  A peer and its
writer are two actors that work off their inboxes in order.  Traffic is queued unless the writer
is ready for it, and after each write the writer asks the peer for more, with a callback that
does nothing if something else was written in the meantime.

A packet that is too large is discarded by the writer without a write, so it asks for nothing:
the writer wakes up again only when something else is written.
-/

namespace Uqda.Network

open Uqda.Transition

/-- The types of `pqPacket` that a peer queues. -/
inductive QueuedPacket
  | traffic (tr : Traffic)
  | pathLookup (lookup : PathLookup)
  | pathNotify (notify : PathNotify)
  | pathBroken (broken : PathBroken)
  deriving DecidableEq

namespace QueuedPacket

/-- The message that the writer is to send. -/
def message : QueuedPacket → Message
  | traffic tr => .traffic tr
  | pathLookup lookup => .pathLookup lookup
  | pathNotify notify => .pathNotify notify
  | pathBroken broken => .pathBroken broken

/-- `sourceKey` of the packet's type. -/
def sourceKey : QueuedPacket → PublicKey
  | traffic tr => tr.source
  | pathLookup lookup => lookup.source
  | pathNotify notify => notify.source
  | pathBroken broken => broken.source

/-- `destKey` of the packet's type. -/
def destKey : QueuedPacket → PublicKey
  | traffic tr => tr.dest
  | pathLookup lookup => lookup.dest
  | pathNotify notify => notify.dest
  | pathBroken broken => broken.dest

theorem size_pos (packet : QueuedPacket) : 0 < packet.message.body.size := by
  cases packet with
  | traffic tr => exact tr.size_pos
  | pathLookup lookup =>
      simp only [message, Message.body, PathLookup.size]
      omega
  | pathNotify notify =>
      simp only [message, Message.body, PathNotify.size]
      omega
  | pathBroken broken =>
      simp only [message, Message.body, PathBroken.size]
      omega

instance : PqPacket QueuedPacket where
  size packet := packet.message.body.size
  sourceKey := sourceKey
  destKey := destKey
  size_pos := size_pos

end QueuedPacket

/-! ## The two actors -/

/-- A queued packet as it was accepted. -/
abbrev QueuedInfo := PqPacketInfo QueuedPacket

/-- What is handed to the writer: a packet of the queue, or a message of the protocol. -/
inductive Outgoing
  | queued (info : QueuedInfo)
  | direct (message : Message)

/-- The message that is encoded. -/
def Outgoing.message : Outgoing → Message
  | queued info => info.packet.message
  | direct message => message

/-- The packet, if it comes from the queue. -/
def Outgoing.info? : Outgoing → Option QueuedInfo
  | queued info => some info
  | direct _ => none

/-- What the peer's actor is asked to do. -/
inductive PeerAction
  | push (packet : QueuedPacket)
  | direct (message : Message)
  | pop

/-- What the writer's actor is asked to do. -/
inductive WriterAction
  | sendPacket (item : Outgoing)
  | keepAlive
  | more (seq : Nat)
  | flush

/-- The packet that the task is to write, if it comes from the queue. -/
def WriterAction.info? : WriterAction → Option QueuedInfo
  | sendPacket item => item.info?
  | _ => none

/-- A peer and its writer with their inboxes and the bytes on the connection.  The last fields
record what was written and what became of the packets that `push` accepted. -/
structure Peer where
  ready : Bool := false
  queue : PacketQueue QueuedPacket := {}
  seq : Nat := 0
  inbox : List PeerAction := []
  writerInbox : List WriterAction := []
  now : Nat := 0
  wbuf : Bytes := []
  written : List Outgoing := []
  accepted : List QueuedInfo := []
  taken : List QueuedInfo := []
  handed : List QueuedInfo := []
  dropped : List QueuedInfo := []

/-- The message passes the check of `sendPacket`. -/
def Message.Fits (limit : UInt64) (message : Message) : Prop :=
  ¬ UInt64.ofNat (message.body.size + 1) > limit

instance (limit : UInt64) (message : Message) : Decidable (message.Fits limit) :=
  inferInstanceAs (Decidable (¬ _))

/-- The loop of `push` that drops any excess.  It does not end if the fuel runs out. -/
def dropExcess (limit : UInt64) :
    Nat → PacketQueue QueuedPacket → Option (PacketQueue QueuedPacket × List QueuedInfo)
  | 0, q => if q.size > limit.toNat then none else some (q, [])
  | fuel + 1, q =>
      if q.size > limit.toNat then do
        let (q, info) ← q.drop
        let (q, infos) ← dropExcess limit fuel q
        return (q, info.toList ++ infos)
      else some (q, [])

namespace Peer

/-- `peer._push`. -/
def push (limit : UInt64) (p : Peer) (packet : QueuedPacket) : Option Peer :=
  let info := PacketQueue.infoFor packet p.now
  if p.ready then
    some
      { p with
        writerInbox := p.writerInbox ++ [.sendPacket (.queued info)]
        ready := false
        accepted := p.accepted ++ [info]
        taken := p.taken ++ [info]
        handed := p.handed ++ [info] }
  else do
    let queue := p.queue.push packet p.now
    let (queue, infos) ← dropExcess limit queue.size queue
    return { p with
      queue
      accepted := p.accepted ++ [info]
      taken := p.taken ++ infos
      dropped := p.dropped ++ infos }

/-- `peer.pop`, as the actor executes it. -/
def pop (p : Peer) : Option Peer :=
  p.queue.pop.map fun (queue, info?) =>
    match info? with
    | some info =>
        { p with
          queue
          writerInbox := p.writerInbox ++ [.sendPacket (.queued info)]
          taken := p.taken ++ [info]
          handed := p.handed ++ [info] }
    | none => { p with queue, ready := true, writerInbox := p.writerInbox ++ [.flush] }

/-- The peer's actor takes up its next task. -/
def act (limit : UInt64) (p : Peer) : Option Peer :=
  match p.inbox with
  | [] => none
  | .push packet :: inbox => push limit { p with inbox } packet
  | .direct message :: inbox =>
      some { p with inbox, writerInbox := p.writerInbox ++ [.sendPacket (.direct message)] }
  | .pop :: inbox => pop { p with inbox }

/-- `peerWriter._write`. -/
def write (p : Peer) (item : Outgoing) (bs : Bytes) : Peer :=
  { p with
    wbuf := p.wbuf ++ bs
    written := p.written ++ [item]
    seq := p.seq + 1
    writerInbox := p.writerInbox ++ [.more (p.seq + 1)] }

/-- The writer's actor takes up its next task.  There is no result if the encoder panics. -/
def writerAct (limit : UInt64) (p : Peer) : Option Peer :=
  match p.writerInbox with
  | [] => none
  | .sendPacket item :: writerInbox =>
      if item.message.Fits limit then
        (sendPacket limit item.message).map (write { p with writerInbox } item)
      else some { p with writerInbox }
  | .keepAlive :: writerInbox =>
      some (write { p with writerInbox } (.direct .keepAlive)
        [0x01, WirePacketType.wireKeepAlive.byte])
  | .more seq :: writerInbox =>
      some (if seq = p.seq then { p with writerInbox, inbox := p.inbox ++ [.pop] }
        else { p with writerInbox })
  | .flush :: writerInbox => some { p with writerInbox }

end Peer

/-- What happens to a peer: others ask it to send, time passes, and the two actors work. -/
inductive SendEvent
  | sendQueued (packet : QueuedPacket)
  | sendDirect (message : Message)
  | keepAlive
  | elapse (time : Nat)
  | act
  | writerAct
  deriving DecidableEq

/-- One event.  An actor works only if it has a task. -/
def Peer.next (limit : UInt64) : Step Peer SendEvent
  | p, .sendQueued packet => some { p with inbox := p.inbox ++ [.push packet] }
  | p, .sendDirect message => some { p with inbox := p.inbox ++ [.direct message] }
  | p, .keepAlive => some { p with writerInbox := p.writerInbox ++ [.keepAlive] }
  | p, .elapse time => some { p with now := p.now + time }
  | p, .act => p.act limit
  | p, .writerAct => p.writerAct limit

/-- A new peer: `router.addPeer` sends it a request. -/
def Peer.start (req : RouterSigReq) : Peer := { inbox := [.direct (.sigReq req)] }

/-! ## What the actors can do -/

theorem Message.Fits.sendPacket {limit : UInt64} {message : Message} (fits : message.Fits limit) :
    sendPacket limit message = some message.frame := by
  rw [sendPacket_eq, if_neg fits]

namespace Peer

variable {limit : UInt64} {p p' : Peer}

theorem act_cases (acted : p.act limit = some p') :
    (∃ packet inbox, p.inbox = .push packet :: inbox ∧ p.ready = true ∧
      p' = { p with
        inbox
        writerInbox := p.writerInbox ++
          [.sendPacket (.queued (PacketQueue.infoFor packet p.now))]
        ready := false
        accepted := p.accepted ++ [PacketQueue.infoFor packet p.now]
        taken := p.taken ++ [PacketQueue.infoFor packet p.now]
        handed := p.handed ++ [PacketQueue.infoFor packet p.now] }) ∨
    (∃ packet inbox queue infos, p.inbox = .push packet :: inbox ∧ p.ready = false ∧
      dropExcess limit (p.queue.push packet p.now).size (p.queue.push packet p.now) =
        some (queue, infos) ∧
      p' = { p with
        inbox
        queue
        accepted := p.accepted ++ [PacketQueue.infoFor packet p.now]
        taken := p.taken ++ infos
        dropped := p.dropped ++ infos }) ∨
    (∃ message inbox, p.inbox = .direct message :: inbox ∧
      p' = { p with inbox, writerInbox := p.writerInbox ++ [.sendPacket (.direct message)] }) ∨
    (∃ inbox queue info, p.inbox = .pop :: inbox ∧ p.queue.pop = some (queue, some info) ∧
      p' = { p with
        inbox
        queue
        writerInbox := p.writerInbox ++ [.sendPacket (.queued info)]
        taken := p.taken ++ [info]
        handed := p.handed ++ [info] }) ∨
    ∃ inbox queue, p.inbox = .pop :: inbox ∧ p.queue.pop = some (queue, none) ∧
      p' = { p with inbox, queue, ready := true, writerInbox := p.writerInbox ++ [.flush] } := by
  rw [act] at acted
  split at acted
  · cases acted
  · rename_i packet inbox isInbox
    rw [push] at acted
    split at acted
    · rename_i ready
      cases acted
      exact .inl ⟨packet, inbox, isInbox, ready, rfl⟩
    · rename_i busy
      obtain ⟨⟨queue, infos⟩, dropped, isTarget⟩ := Option.bind_eq_some_iff.mp acted
      cases isTarget
      exact .inr (.inl ⟨packet, inbox, queue, infos, isInbox, Bool.eq_false_iff.mpr busy, dropped,
        rfl⟩)
  · rename_i message inbox isInbox
    cases acted
    exact .inr (.inr (.inl ⟨message, inbox, isInbox, rfl⟩))
  · rename_i inbox isInbox
    obtain ⟨⟨queue, info?⟩, popped, isTarget⟩ := Option.map_eq_some_iff.mp acted
    cases info? with
    | some info =>
        cases isTarget
        exact .inr (.inr (.inr (.inl ⟨inbox, queue, info, isInbox, popped, rfl⟩)))
    | none =>
        cases isTarget
        exact .inr (.inr (.inr (.inr ⟨inbox, queue, isInbox, popped, rfl⟩)))

theorem writerAct_cases (acted : p.writerAct limit = some p') :
    (∃ item writerInbox, (p.writerInbox = .sendPacket item :: writerInbox ∧
        item.message.Fits limit ∨
        p.writerInbox = .keepAlive :: writerInbox ∧ item = .direct .keepAlive) ∧
      p' = write { p with writerInbox } item item.message.frame) ∨
    (∃ item writerInbox, p.writerInbox = .sendPacket item :: writerInbox ∧
      ¬ item.message.Fits limit ∧ p' = { p with writerInbox }) ∨
    (∃ writerInbox, p.writerInbox = .more p.seq :: writerInbox ∧
      p' = { p with writerInbox, inbox := p.inbox ++ [.pop] }) ∨
    ∃ action writerInbox, p.writerInbox = action :: writerInbox ∧ action.info? = none ∧
      ((∃ seq, action = .more seq ∧ seq ≠ p.seq) ∨ action = .flush) ∧
      p' = { p with writerInbox } := by
  rw [writerAct] at acted
  split at acted
  · cases acted
  · rename_i item writerInbox isInbox
    split at acted
    · rename_i fits
      rw [fits.sendPacket] at acted
      cases acted
      exact .inl ⟨item, writerInbox, .inl ⟨isInbox, fits⟩, rfl⟩
    · rename_i large
      cases acted
      exact .inr (.inl ⟨item, writerInbox, isInbox, large, rfl⟩)
  · rename_i writerInbox isInbox
    cases acted
    exact .inl ⟨.direct .keepAlive, writerInbox, .inr ⟨isInbox, rfl⟩, rfl⟩
  · rename_i seq writerInbox isInbox
    cases acted
    split
    · rename_i current
      subst current
      exact .inr (.inr (.inl ⟨writerInbox, isInbox, rfl⟩))
    · rename_i stale
      exact .inr (.inr (.inr ⟨.more seq, writerInbox, isInbox, rfl, .inl ⟨seq, rfl, stale⟩, rfl⟩))
  · rename_i writerInbox isInbox
    cases acted
    exact .inr (.inr (.inr ⟨.flush, writerInbox, isInbox, rfl, .inr rfl, rfl⟩))

end Peer

/-! ## Order -/

theorem PacketQueue.Valid.flow_of_empty {P : Type} [PqPacket P] {now : Nat} {q : PacketQueue P}
    (valid : q.Valid now) (empty : q.size = 0) (dKey sKey : PublicKey) : q.flow dKey sKey = [] := by
  have none : q.dests = [] := by
    by_contra some
    have loaded := (Heap.Bundle.total_pos_iff valid fun _ => PqDest.Valid.size_pos).mpr some
    omega
  rw [PacketQueue.flow, none]
  rfl

theorem dropExcess_of_le {limit : UInt64} {q : PacketQueue QueuedPacket}
    (within : q.size ≤ limit.toNat) (fuel : Nat) : dropExcess limit fuel q = some (q, []) := by
  cases fuel with
  | zero => rw [dropExcess, if_neg (Nat.not_lt.mpr within)]
  | succ fuel => rw [dropExcess, if_neg (Nat.not_lt.mpr within)]

/-- The loop ends, within the limit.  What it drops was at the front of its flow. -/
theorem dropExcess_spec {limit : UInt64} {now fuel : Nat} {q : PacketQueue QueuedPacket}
    (valid : q.Valid now) (enough : q.size ≤ fuel) :
    ∃ q' infos, dropExcess limit fuel q = some (q', infos) ∧ q'.Valid now ∧
      q'.size ≤ limit.toNat ∧ q'.size ≤ q.size ∧
      ∀ dKey sKey, q.flow dKey sKey = ofFlow dKey sKey infos ++ q'.flow dKey sKey := by
  induction fuel generalizing q with
  | zero =>
      have within : q.size ≤ limit.toNat := by omega
      exact ⟨q, [], dropExcess_of_le within 0, valid, within, le_rfl, fun _ _ => rfl⟩
  | succ fuel ih =>
      by_cases excess : q.size > limit.toNat
      · obtain ⟨left, info, -, -, -, dropped, removed, -⟩ :=
          PacketQueue.drop_spec valid (Nat.zero_lt_of_lt excess)
        have sum := removed.size_eq
        have positive := removed.fine.size_pos
        obtain ⟨q', infos, ended, valid', within, smaller, flow⟩ := ih removed.valid (by omega)
        refine ⟨q', info :: infos, ?_, valid', within, by omega, fun dKey sKey => ?_⟩
        · rw [dropExcess, if_pos excess]
          simp only [dropped, ended, Option.bind_eq_bind, Option.bind_some, Option.pure_def,
            Option.toList_some, List.singleton_append]
        · rw [removed.flow_eq, flow, ← List.append_assoc, ← ofFlow_singleton, ← ofFlow_append,
            List.singleton_append]
      · have within : q.size ≤ limit.toNat := Nat.not_lt.mp excess
        exact ⟨q, [], dropExcess_of_le within (fuel + 1), valid, within, le_rfl, fun _ _ => rfl⟩

namespace Peer

variable {limit : UInt64} {p p' : Peer}

/-- The packets that were written, in order. -/
def writtenInfos (p : Peer) : List QueuedInfo := p.written.filterMap Outgoing.info?

/-- The packets that wait in the writer's inbox. -/
def waitingInfos (p : Peer) : List QueuedInfo := p.writerInbox.filterMap WriterAction.info?

/-- The packets among these that are not too large. -/
def fitting (limit : UInt64) (infos : List QueuedInfo) : List QueuedInfo :=
  infos.filter fun info => info.packet.message.Fits limit

/-- Where the accepted packets are: of each flow first those that were taken out of the queue,
in order, then those in the queue.  What was taken out was handed to the writer or dropped, and
what was handed to the writer was written in order if it fits.  On the connection are the frames
of what was written. -/
structure Ordered (limit : UInt64) (p : Peer) : Prop where
  valid : p.queue.Valid p.now
  bounded : p.queue.size ≤ limit.toNat
  readyEmpty : p.ready = true → p.queue.size = 0
  flow_eq : ∀ dKey sKey,
    ofFlow dKey sKey p.accepted = ofFlow dKey sKey p.taken ++ p.queue.flow dKey sKey
  handed_sublist : p.handed.Sublist p.taken
  taken_perm : p.taken.Perm (p.handed ++ p.dropped)
  written_eq : fitting limit p.handed = p.writtenInfos ++ fitting limit p.waitingInfos
  wbuf_eq : p.wbuf = (p.written.map fun item => item.message.frame).flatten

theorem fitting_append (infos infos' : List QueuedInfo) :
    fitting limit (infos ++ infos') = fitting limit infos ++ fitting limit infos' :=
  List.filter_append infos infos'

theorem waitingInfos_concat (p : Peer) (action : WriterAction) :
    (p.writerInbox ++ [action]).filterMap WriterAction.info? =
      p.waitingInfos ++ action.info?.toList := by
  rw [List.filterMap_append, waitingInfos]
  congr 1

/-- A task for the writer that is no packet of the queue. -/
theorem Ordered.other (ordered : Ordered limit p) {action : WriterAction}
    (isOther : action.info? = none) :
    fitting limit p.handed = p.writtenInfos ++
      fitting limit ((p.writerInbox ++ [action]).filterMap WriterAction.info?) := by
  rw [waitingInfos_concat, isOther, Option.toList_none, List.append_nil, ordered.written_eq]

/-- Handing a packet to the writer. -/
theorem Ordered.hand (ordered : Ordered limit p) (info : QueuedInfo) :
    (p.handed ++ [info]).Sublist (p.taken ++ [info]) ∧
      (p.taken ++ [info]).Perm (p.handed ++ [info] ++ p.dropped) ∧
      fitting limit (p.handed ++ [info]) = p.writtenInfos ++ fitting limit
        ((p.writerInbox ++ [WriterAction.sendPacket (.queued info)]).filterMap
          WriterAction.info?) := by
  refine ⟨ordered.handed_sublist.append (.refl [info]), ?_, ?_⟩
  · calc
      (p.taken ++ [info]).Perm (p.handed ++ p.dropped ++ [info]) :=
        ordered.taken_perm.append_right [info]
      _ |>.Perm (p.handed ++ [info] ++ p.dropped) := by
        rw [List.append_assoc, List.append_assoc]
        exact List.perm_append_comm.append_left p.handed
  · rw [waitingInfos_concat, fitting_append, fitting_append, ordered.written_eq, List.append_assoc]
    rfl

/-- A packet was queued and the excess dropped. -/
theorem Ordered.of_dropExcess {packet : QueuedPacket} {queue : PacketQueue QueuedPacket}
    {infos : List QueuedInfo} (ordered : Ordered limit p)
    (dropped : dropExcess limit (p.queue.push packet p.now).size (p.queue.push packet p.now) =
      some (queue, infos)) :
    queue.Valid p.now ∧ queue.size ≤ limit.toNat ∧
      queue.size ≤ p.queue.size + PqPacket.size packet ∧
      ∀ dKey sKey, p.queue.flow dKey sKey ++ ofFlow dKey sKey [PacketQueue.infoFor packet p.now] =
        ofFlow dKey sKey infos ++ queue.flow dKey sKey := by
  obtain ⟨valid, flow⟩ := PacketQueue.push_spec ordered.valid le_rfl packet
  obtain ⟨queue', infos', ended, valid', within, smaller, left⟩ := dropExcess_spec valid le_rfl
  obtain ⟨rfl, rfl⟩ : queue' = queue ∧ infos' = infos := by
    simpa using ended.symm.trans dropped
  refine ⟨valid', within, smaller, fun dKey sKey => ?_⟩
  rw [ofFlow_singleton, ← flow, left]

theorem Ordered.removed_of_pop {queue : PacketQueue QueuedPacket} {info : QueuedInfo}
    (ordered : Ordered limit p) (popped : p.queue.pop = some (queue, some info)) :
    p.queue.Removed p.now info queue := by
  have loaded : 0 < p.queue.size := by
    by_contra none
    rw [PacketQueue.pop_of_empty (by omega)] at popped
    cases popped
  obtain ⟨queue', info', -, -, -, popped', removed, -⟩ := PacketQueue.pop_spec ordered.valid loaded
  obtain ⟨rfl, rfl⟩ : queue' = queue ∧ info' = info := by
    simpa using popped'.symm.trans popped
  exact removed

theorem Ordered.empty_of_pop {queue : PacketQueue QueuedPacket} (ordered : Ordered limit p)
    (popped : p.queue.pop = some (queue, none)) : p.queue.size = 0 ∧ p.queue = queue := by
  have empty : p.queue.size = 0 := by
    by_contra some
    obtain ⟨queue', info', -, -, -, popped', -⟩ :=
      PacketQueue.pop_spec ordered.valid (Nat.pos_of_ne_zero some)
    rw [popped] at popped'
    cases popped'
  exact ⟨empty, by simpa using (PacketQueue.pop_of_empty empty).symm.trans popped⟩

theorem Ordered.act (ordered : Ordered limit p) (acted : p.act limit = some p') :
    Ordered limit p' := by
  rcases act_cases acted with ⟨packet, inbox, -, ready, rfl⟩ |
    ⟨packet, inbox, queue, infos, -, busy, dropped, rfl⟩ | ⟨message, inbox, -, rfl⟩ |
    ⟨inbox, queue, info, -, popped, rfl⟩ | ⟨inbox, queue, -, popped, rfl⟩
  · have empty := ordered.readyEmpty ready
    obtain ⟨sublist, perm, written⟩ := ordered.hand (PacketQueue.infoFor packet p.now)
    refine ⟨ordered.valid, ordered.bounded, fun _ => empty, fun dKey sKey => ?_, sublist, perm,
      written, ordered.wbuf_eq⟩
    rw [ofFlow_append, ofFlow_append, ordered.flow_eq, ordered.valid.flow_of_empty empty,
      List.append_nil, List.append_nil]
  · obtain ⟨valid, within, -, flow⟩ := ordered.of_dropExcess dropped
    refine ⟨valid, within, fun ready => absurd ready (by simp [busy]), fun dKey sKey => ?_,
      ordered.handed_sublist.trans (List.sublist_append_left _ _), ?_, ordered.written_eq,
      ordered.wbuf_eq⟩
    · rw [ofFlow_append, ofFlow_append, ordered.flow_eq, List.append_assoc, List.append_assoc, flow]
    · rw [← List.append_assoc]
      exact ordered.taken_perm.append_right infos
  · exact ⟨ordered.valid, ordered.bounded, ordered.readyEmpty, ordered.flow_eq,
      ordered.handed_sublist, ordered.taken_perm, ordered.other rfl, ordered.wbuf_eq⟩
  · have removed := ordered.removed_of_pop popped
    obtain ⟨sublist, perm, written⟩ := ordered.hand info
    have sum := removed.size_eq
    have bounded := ordered.bounded
    refine ⟨removed.valid, by simp only; omega, fun ready => ?_, fun dKey sKey => ?_, sublist, perm,
      written, ordered.wbuf_eq⟩
    · have empty := ordered.readyEmpty ready
      change queue.size = 0
      omega
    · rw [ofFlow_append, ofFlow_singleton, ordered.flow_eq, removed.flow_eq, List.append_assoc]
  · obtain ⟨empty, rfl⟩ := ordered.empty_of_pop popped
    exact ⟨ordered.valid, ordered.bounded, fun _ => empty, ordered.flow_eq, ordered.handed_sublist,
      ordered.taken_perm, ordered.other rfl, ordered.wbuf_eq⟩

theorem fitting_waitingInfos {action : WriterAction} {writerInbox : List WriterAction}
    (isInbox : p.writerInbox = action :: writerInbox) :
    fitting limit p.waitingInfos = fitting limit action.info?.toList ++
      fitting limit (writerInbox.filterMap WriterAction.info?) := by
  rw [← fitting_append, waitingInfos, isInbox, ← List.singleton_append, List.filterMap_append]
  rfl

/-- What the writer writes for a task. -/
theorem fitting_waitingInfos_of_write {item : Outgoing} {writerInbox : List WriterAction}
    (isInbox : p.writerInbox = .sendPacket item :: writerInbox ∧ item.message.Fits limit ∨
      p.writerInbox = .keepAlive :: writerInbox ∧ item = .direct .keepAlive) :
    fitting limit p.waitingInfos =
      item.info?.toList ++ fitting limit (writerInbox.filterMap WriterAction.info?) := by
  rcases isInbox with ⟨isInbox, fits⟩ | ⟨isInbox, rfl⟩
  · rw [fitting_waitingInfos isInbox]
    cases item with
    | queued info =>
        have kept : fitting limit [info] = [info] := List.filter_eq_self.mpr (by
          simpa [Outgoing.message] using fits)
        exact congrArg (· ++ _) kept
    | direct message => rfl
  · rw [fitting_waitingInfos isInbox]
    rfl

theorem Ordered.writerAct (ordered : Ordered limit p) (acted : p.writerAct limit = some p') :
    Ordered limit p' := by
  rcases writerAct_cases acted with ⟨item, writerInbox, isInbox, rfl⟩ |
    ⟨item, writerInbox, isInbox, large, rfl⟩ | ⟨writerInbox, isInbox, rfl⟩ |
    ⟨action, writerInbox, isInbox, isOther, -, rfl⟩
  · refine { ordered with written_eq := ?_, wbuf_eq := ?_ }
    have written : (p.written ++ [item]).filterMap Outgoing.info? =
        p.writtenInfos ++ item.info?.toList := by
      rw [List.filterMap_append, writtenInfos]
      congr 1
    simp only [write, waitingInfos, writtenInfos, written, List.filterMap_append, fitting_append]
    rw [ordered.written_eq, fitting_waitingInfos_of_write isInbox, List.append_assoc]
    congr 2
    exact (List.append_nil _).symm
    simp only [write, ordered.wbuf_eq, List.map_append, List.map_singleton, List.flatten_append,
      List.flatten_singleton]
  · refine { ordered with written_eq := ?_ }
    rw [ordered.written_eq, fitting_waitingInfos isInbox]
    congr 1
    cases item with
    | queued info =>
        have discarded : fitting limit [info] = [] := List.filter_eq_nil_iff.mpr (by
          simpa [Outgoing.message] using large)
        exact congrArg (· ++ _) discarded
    | direct message => rfl
  · refine { ordered with written_eq := ?_ }
    rw [ordered.written_eq, fitting_waitingInfos isInbox]
    rfl
  · refine { ordered with written_eq := ?_ }
    rw [ordered.written_eq, fitting_waitingInfos isInbox, isOther]
    rfl

theorem Ordered.next {event : SendEvent} (ordered : Ordered limit p)
    (step : p.next limit event = some p') : Ordered limit p' := by
  cases event with
  | sendQueued packet =>
      cases step
      exact { ordered with }
  | sendDirect message =>
      cases step
      exact { ordered with }
  | keepAlive =>
      cases step
      exact { ordered with written_eq := ordered.other rfl }
  | elapse time =>
      cases step
      exact { ordered with valid := ordered.valid.mono (Nat.le_add_right p.now time) }
  | act => exact ordered.act step
  | writerAct => exact ordered.writerAct step

theorem ordered_start (limit : UInt64) (req : RouterSigReq) : Ordered limit (start req) where
  valid := .empty
  bounded := Nat.zero_le _
  readyEmpty _ := rfl
  flow_eq _ _ := rfl
  handed_sublist := .refl []
  taken_perm := .refl []
  written_eq := rfl
  wbuf_eq := rfl

/-- No task of the peer's actor faults. -/
theorem Ordered.exists_act (ordered : Ordered limit p) (busy : p.inbox ≠ []) :
    ∃ p', p.act limit = some p' := by
  obtain ⟨action, inbox, isInbox⟩ := List.exists_cons_of_ne_nil busy
  rw [Peer.act, isInbox]
  cases action with
  | push packet =>
      simp only [Peer.push]
      split
      · exact ⟨_, rfl⟩
      · obtain ⟨valid, -⟩ := PacketQueue.push_spec ordered.valid le_rfl packet
        obtain ⟨queue', infos', ended, -⟩ := @dropExcess_spec limit _ _ _ valid le_rfl
        simp only [ended, Option.bind_eq_bind, Option.bind_some]
        exact ⟨_, rfl⟩
  | direct message => exact ⟨_, rfl⟩
  | pop =>
      simp only [Peer.pop]
      rcases Nat.eq_zero_or_pos p.queue.size with empty | loaded
      · rw [PacketQueue.pop_of_empty empty]
        exact ⟨_, rfl⟩
      · obtain ⟨queue', info', -, -, -, popped, -⟩ := PacketQueue.pop_spec ordered.valid loaded
        rw [popped]
        exact ⟨_, rfl⟩

/-- No task of the writer's actor faults. -/
theorem exists_writerAct (busy : p.writerInbox ≠ []) : ∃ p', p.writerAct limit = some p' := by
  obtain ⟨action, writerInbox, isInbox⟩ := List.exists_cons_of_ne_nil busy
  rw [Peer.writerAct, isInbox]
  cases action with
  | sendPacket item =>
      dsimp only
      split
      · rename_i fits
        rw [fits.sendPacket]
        exact ⟨_, rfl⟩
      · exact ⟨_, rfl⟩
  | keepAlive => exact ⟨_, rfl⟩
  | more seq => exact ⟨_, rfl⟩
  | flush => exact ⟨_, rfl⟩

theorem Ordered.written_sublist (ordered : Ordered limit p) :
    p.writtenInfos.Sublist p.taken := by
  have front : p.writtenInfos.Sublist (fitting limit p.handed) := by
    rw [ordered.written_eq]
    exact List.sublist_append_left _ _
  exact (front.trans List.filter_sublist).trans ordered.handed_sublist

/-- Whatever a peer is asked to send, and however its two actors are scheduled, no task of either
faults, the queue stays within the limit, on the connection are the frames of what was written,
and the packets of a flow are written in the order in which they were accepted, each at most
once. -/
theorem run_order {req : RouterSigReq} {events : List SendEvent}
    (reached : run (next limit) (start req) events = some p) :
    (p.inbox ≠ [] → ∃ p', p.act limit = some p') ∧
      (p.writerInbox ≠ [] → ∃ p', p.writerAct limit = some p') ∧ p.queue.size ≤ limit.toNat ∧
      p.wbuf = (p.written.map fun item => item.message.frame).flatten ∧
      ∀ dKey sKey, (ofFlow dKey sKey p.writtenInfos).Sublist (ofFlow dKey sKey p.accepted) := by
  have ordered : Ordered limit p := invariant_of_run reached (ordered_start limit req) .next
  refine ⟨ordered.exists_act, exists_writerAct, ordered.bounded, ordered.wbuf_eq,
    fun dKey sKey => ?_⟩
  rw [ordered.flow_eq]
  exact (ordered.written_sublist.filter _).trans (List.sublist_append_left _ _)

/-- A lookup from the first key to the second or back. -/
def lookupAlong (there : Bool) (path : List PeerPort) : QueuedPacket :=
  if there then .pathLookup ⟨.replicate 32 1, .replicate 32 2, path⟩
  else .pathLookup ⟨.replicate 32 2, .replicate 32 1, path⟩

/-- Two lookups of one flow and one of another are queued before anything is written. -/
def threeLookups : List SendEvent :=
  [.sendQueued (lookupAlong true [1]), .sendQueued (lookupAlong true [2]),
    .sendQueued (lookupAlong false [3]), .act, .act, .act, .act]

/-- The tasks that are left then: the request and two lookups are written. -/
def threeLookupsWork : List SendEvent :=
  [.writerAct, .writerAct, .act, .writerAct, .writerAct, .act, .writerAct, .writerAct, .act,
    .writerAct]

/-- The queue has room for two of three lookups, so the first one is dropped. -/
theorem run_order_three :
    ∃ p, run (next 150) (start ⟨1, 2⟩) (threeLookups ++ threeLookupsWork) = some p ∧
      p.writtenInfos.map (fun info => info.packet) =
        [lookupAlong true [2], lookupAlong false [3]] ∧
      p.queue.size ≤ (150 : UInt64).toNat ∧
      p.wbuf = (p.written.map fun item => item.message.frame).flatten ∧
      ∀ dKey sKey, (ofFlow dKey sKey p.writtenInfos).Sublist (ofFlow dKey sKey p.accepted) := by
  have sent : (run (next 150) (start ⟨1, 2⟩) (threeLookups ++ threeLookupsWork)).map
      (fun p => p.writtenInfos.map fun info => info.packet) =
        some [lookupAlong true [2], lookupAlong false [3]] := by
    decide +kernel
  obtain ⟨p, reached, written⟩ := Option.map_eq_some_iff.mp sent
  exact ⟨p, reached, written, (run_order reached).2.2⟩

end Peer

/-! ## Progress -/

/-- The task of the peer's actor hands something to the writer or makes it ready. -/
def PeerAction.Wakes : PeerAction → Prop
  | push _ => False
  | direct _ => True
  | pop => True

/-- The task of the writer's actor leads to a request for more. -/
def WriterAction.Wakes (seq : Nat) : WriterAction → Prop
  | sendPacket _ => True
  | keepAlive => True
  | more written => written = seq
  | flush => False

/-- What is to be sent is not too large. -/
def PeerAction.Fits (limit : UInt64) : PeerAction → Prop
  | push packet => packet.message.Fits limit
  | direct message => message.Fits limit
  | pop => True

/-- What is to be written is not too large. -/
def WriterAction.Fits (limit : UInt64) : WriterAction → Prop
  | sendPacket item => item.message.Fits limit
  | _ => True

/-- What the peer is asked to send is not too large. -/
def SendEvent.Fits (limit : UInt64) : SendEvent → Prop
  | sendQueued packet => packet.message.Fits limit
  | sendDirect message => message.Fits limit
  | _ => True

instance (limit : UInt64) (event : SendEvent) : Decidable (event.Fits limit) :=
  match event with
  | .sendQueued packet => inferInstanceAs (Decidable (packet.message.Fits limit))
  | .sendDirect message => inferInstanceAs (Decidable (message.Fits limit))
  | .keepAlive | .elapse _ | .act | .writerAct => .isTrue trivial

namespace Peer

variable {limit : UInt64} {p p' : Peer}

/-- The writer is ready for traffic, or some task will ask for more. -/
def Live (p : Peer) : Prop :=
  p.ready = true ∨ (∃ action ∈ p.inbox, action.Wakes) ∨ ∃ action ∈ p.writerInbox, action.Wakes p.seq

/-- Nothing that is on its way is too large. -/
structure Small (limit : UInt64) (p : Peer) : Prop where
  inbox : ∀ action ∈ p.inbox, action.Fits limit
  writerInbox : ∀ action ∈ p.writerInbox, action.Fits limit
  queue : ∀ dKey sKey, ∀ info ∈ p.queue.flow dKey sKey, info.packet.message.Fits limit
  handed : ∀ info ∈ p.handed, info.packet.message.Fits limit

theorem Live.act (live : p.Live) (acted : p.act limit = some p') : p'.Live := by
  rcases act_cases acted with ⟨packet, inbox, -, -, rfl⟩ |
    ⟨packet, inbox, queue, infos, isInbox, -, -, rfl⟩ | ⟨message, inbox, -, rfl⟩ |
    ⟨inbox, queue, info, -, -, rfl⟩ | ⟨inbox, queue, -, -, rfl⟩
  · exact .inr (.inr ⟨_, List.mem_concat_self, trivial⟩)
  · rcases live with ready | ⟨action, element, wakes⟩ | writing
    · exact .inl ready
    · rw [isInbox] at element
      rcases List.mem_cons.mp element with rfl | later
      · exact wakes.elim
      · exact .inr (.inl ⟨action, later, wakes⟩)
    · exact .inr (.inr writing)
  · exact .inr (.inr ⟨_, List.mem_concat_self, trivial⟩)
  · exact .inr (.inr ⟨_, List.mem_concat_self, trivial⟩)
  · exact .inl rfl

theorem Live.writerAct (live : p.Live) (small : Small limit p)
    (acted : p.writerAct limit = some p') : p'.Live := by
  rcases writerAct_cases acted with ⟨item, writerInbox, isInbox, rfl⟩ |
    ⟨item, writerInbox, isInbox, large, rfl⟩ | ⟨writerInbox, isInbox, rfl⟩ |
    ⟨action, writerInbox, isInbox, -, stale, rfl⟩
  · exact .inr (.inr ⟨_, List.mem_concat_self, rfl⟩)
  · have fits := small.writerInbox (.sendPacket item) (isInbox ▸ List.mem_cons_self)
    exact absurd fits large
  · exact .inr (.inl ⟨_, List.mem_concat_self, trivial⟩)
  · rcases live with ready | asking | ⟨other, element, wakes⟩
    · exact .inl ready
    · exact .inr (.inl asking)
    · rw [isInbox] at element
      rcases List.mem_cons.mp element with rfl | later
      · rcases stale with ⟨seq, rfl, old⟩ | rfl
        · exact absurd wakes old
        · exact wakes.elim
      · exact .inr (.inr ⟨other, later, wakes⟩)

theorem forall_mem_concat {α : Type} {holds : α → Prop} {list : List α} {last : α}
    (each : ∀ item ∈ list, holds item) (atLast : holds last) :
    ∀ item ∈ list ++ [last], holds item :=
  List.forall_mem_append.mpr ⟨each, List.forall_mem_singleton.mpr atLast⟩

theorem Small.act (small : Small limit p) (ordered : Ordered limit p)
    (acted : p.act limit = some p') : Small limit p' := by
  have rest : ∀ {action inbox}, p.inbox = action :: inbox →
      action.Fits limit ∧ ∀ other ∈ inbox, other.Fits limit := by
    intro action inbox isInbox
    exact List.forall_mem_cons.mp (isInbox ▸ small.inbox)
  rcases act_cases acted with ⟨packet, inbox, isInbox, -, rfl⟩ |
    ⟨packet, inbox, queue, infos, isInbox, -, dropped, rfl⟩ | ⟨message, inbox, isInbox, rfl⟩ |
    ⟨inbox, queue, info, isInbox, popped, rfl⟩ | ⟨inbox, queue, isInbox, popped, rfl⟩
  · obtain ⟨fits, others⟩ := rest isInbox
    exact ⟨others, forall_mem_concat small.writerInbox fits, small.queue,
      forall_mem_concat small.handed fits⟩
  · obtain ⟨fits, others⟩ := rest isInbox
    obtain ⟨-, -, -, flow⟩ := ordered.of_dropExcess dropped
    refine ⟨others, small.writerInbox, fun dKey sKey info element => ?_, small.handed⟩
    have within := List.mem_append_right (ofFlow dKey sKey infos) element
    rw [← flow] at within
    rcases List.mem_append.mp within with old | new
    · exact small.queue dKey sKey info old
    · rw [List.mem_singleton.mp (List.mem_of_mem_filter new)]
      exact fits
  · obtain ⟨fits, others⟩ := rest isInbox
    exact ⟨others, forall_mem_concat small.writerInbox fits, small.queue, small.handed⟩
  · obtain ⟨-, others⟩ := rest isInbox
    have removed := ordered.removed_of_pop popped
    have fits : info.packet.message.Fits limit := by
      apply small.queue (PqPacket.destKey info.packet) (PqPacket.sourceKey info.packet)
      rw [removed.flow_eq, if_pos ⟨rfl, rfl⟩]
      exact List.mem_cons_self
    refine ⟨others, forall_mem_concat small.writerInbox fits, fun dKey sKey other element => ?_,
      forall_mem_concat small.handed fits⟩
    apply small.queue dKey sKey
    rw [removed.flow_eq]
    exact List.mem_append_right _ element
  · obtain ⟨-, others⟩ := rest isInbox
    obtain ⟨-, rfl⟩ := ordered.empty_of_pop popped
    exact ⟨others, forall_mem_concat small.writerInbox trivial, small.queue, small.handed⟩

theorem Small.writerAct (small : Small limit p) (acted : p.writerAct limit = some p') :
    Small limit p' := by
  have rest : ∀ {action writerInbox}, p.writerInbox = action :: writerInbox →
      ∀ other ∈ writerInbox, other.Fits limit := by
    intro action writerInbox isInbox
    exact (List.forall_mem_cons.mp (isInbox ▸ small.writerInbox)).2
  rcases writerAct_cases acted with ⟨item, writerInbox, ⟨isInbox, -⟩ | ⟨isInbox, -⟩, rfl⟩ |
    ⟨item, writerInbox, isInbox, -, rfl⟩ | ⟨writerInbox, isInbox, rfl⟩ |
    ⟨action, writerInbox, isInbox, -, -, rfl⟩
  · exact ⟨small.inbox, forall_mem_concat (rest isInbox) trivial, small.queue, small.handed⟩
  · exact ⟨small.inbox, forall_mem_concat (rest isInbox) trivial, small.queue, small.handed⟩
  · exact ⟨small.inbox, rest isInbox, small.queue, small.handed⟩
  · exact ⟨forall_mem_concat small.inbox trivial, rest isInbox, small.queue, small.handed⟩
  · exact ⟨small.inbox, rest isInbox, small.queue, small.handed⟩

/-- The invariant as long as nothing too large is to be sent. -/
structure Awake (limit : UInt64) (p : Peer) : Prop where
  ordered : Ordered limit p
  small : Small limit p
  live : p.Live

theorem Awake.next {event : SendEvent} (fits : event.Fits limit) (awake : Awake limit p)
    (step : p.next limit event = some p') : Awake limit p' := by
  refine ⟨awake.ordered.next step, ?_, ?_⟩
  · have small := awake.small
    cases event with
    | sendQueued packet =>
        cases step
        exact ⟨forall_mem_concat small.inbox fits, small.writerInbox, small.queue, small.handed⟩
    | sendDirect message =>
        cases step
        exact ⟨forall_mem_concat small.inbox fits, small.writerInbox, small.queue, small.handed⟩
    | keepAlive =>
        cases step
        exact ⟨small.inbox, forall_mem_concat small.writerInbox trivial, small.queue, small.handed⟩
    | elapse time =>
        cases step
        exact ⟨small.inbox, small.writerInbox, small.queue, small.handed⟩
    | act => exact small.act awake.ordered step
    | writerAct => exact small.writerAct step
  · cases event with
    | sendQueued packet =>
        cases step
        rcases awake.live with ready | ⟨other, element, wakes⟩ | writing
        · exact .inl ready
        · exact .inr (.inl ⟨other, List.mem_append_left _ element, wakes⟩)
        · exact .inr (.inr writing)
    | sendDirect message =>
        cases step
        exact .inr (.inl ⟨_, List.mem_concat_self, trivial⟩)
    | keepAlive =>
        cases step
        exact .inr (.inr ⟨_, List.mem_concat_self, trivial⟩)
    | elapse time =>
        cases step
        exact awake.live
    | act => exact awake.live.act step
    | writerAct => exact awake.live.writerAct awake.small step

end Peer

/-! ## Draining -/

/-- A bound on the tasks that a task leads to. -/
def PeerAction.weight : PeerAction → Nat
  | push packet => 3 * PqPacket.size packet + 5
  | direct _ => 5
  | pop => 2

/-- A bound on the tasks that a task of the writer leads to. -/
def WriterAction.weight : WriterAction → Nat
  | sendPacket _ => 4
  | keepAlive => 4
  | more _ => 3
  | flush => 1

namespace Peer

variable {limit : UInt64} {p p' : Peer}

/-- A bound on the tasks that the actors have to do if they are asked for nothing else. -/
def rank (p : Peer) : Nat :=
  3 * p.queue.size + (p.inbox.map PeerAction.weight).sum +
    (p.writerInbox.map WriterAction.weight).sum

theorem sum_weight_concat {α : Type} (weight : α → Nat) (list : List α) (last : α) :
    ((list ++ [last]).map weight).sum = (list.map weight).sum + weight last := by
  rw [List.map_append, List.sum_append, List.map_singleton, List.sum_singleton]

theorem Ordered.rank_act (ordered : Ordered limit p) (acted : p.act limit = some p') :
    p'.rank < p.rank := by
  rcases act_cases acted with ⟨packet, inbox, isInbox, -, rfl⟩ |
    ⟨packet, inbox, queue, infos, isInbox, -, dropped, rfl⟩ | ⟨message, inbox, isInbox, rfl⟩ |
    ⟨inbox, queue, info, isInbox, popped, rfl⟩ | ⟨inbox, queue, isInbox, popped, rfl⟩
  · simp only [rank, isInbox, sum_weight_concat, List.map_cons, List.sum_cons, PeerAction.weight,
      WriterAction.weight]
    omega
  · obtain ⟨-, -, smaller, -⟩ := ordered.of_dropExcess dropped
    simp only [rank, isInbox, List.map_cons, List.sum_cons, PeerAction.weight]
    omega
  · simp only [rank, isInbox, sum_weight_concat, List.map_cons, List.sum_cons, PeerAction.weight,
      WriterAction.weight]
    omega
  · have removed := ordered.removed_of_pop popped
    have sum := removed.size_eq
    have positive := removed.fine.size_pos
    simp only [rank, isInbox, sum_weight_concat, List.map_cons, List.sum_cons, PeerAction.weight,
      WriterAction.weight]
    omega
  · obtain ⟨-, rfl⟩ := ordered.empty_of_pop popped
    simp only [rank, isInbox, sum_weight_concat, List.map_cons, List.sum_cons, PeerAction.weight,
      WriterAction.weight]
    omega

theorem rank_writerAct (acted : p.writerAct limit = some p') : p'.rank < p.rank := by
  rcases writerAct_cases acted with ⟨item, writerInbox, ⟨isInbox, -⟩ | ⟨isInbox, -⟩, rfl⟩ |
    ⟨item, writerInbox, isInbox, -, rfl⟩ | ⟨writerInbox, isInbox, rfl⟩ |
    ⟨action, writerInbox, isInbox, -, ⟨seq, rfl, -⟩ | rfl, rfl⟩
  all_goals
    simp only [rank, write, isInbox, sum_weight_concat, List.map_cons, List.sum_cons,
      PeerAction.weight, WriterAction.weight]
    omega

theorem Awake.start {req : RouterSigReq} (fits : (Message.sigReq req).Fits limit) :
    Awake limit (start req) where
  ordered := ordered_start limit req
  small := ⟨List.forall_mem_singleton.mpr fits, List.forall_mem_nil _,
    fun _ _ => List.forall_mem_nil _, List.forall_mem_nil _⟩
  live := .inr (.inl ⟨_, List.mem_cons_self, trivial⟩)

/-- An idle peer has written or dropped all that it accepted, and is ready for more. -/
theorem Awake.drained (awake : Awake limit p) (noTask : p.inbox = [])
    (noWriterTask : p.writerInbox = []) :
    p.ready = true ∧ p.queue.size = 0 ∧
      ∀ dKey sKey, (ofFlow dKey sKey p.accepted).Perm
        (ofFlow dKey sKey p.writtenInfos ++ ofFlow dKey sKey p.dropped) := by
  have ready : p.ready = true := by
    rcases awake.live with ready | ⟨action, element, -⟩ | ⟨action, element, -⟩
    · exact ready
    · rw [noTask] at element
      cases element
    · rw [noWriterTask] at element
      cases element
  have ordered := awake.ordered
  have empty := ordered.readyEmpty ready
  refine ⟨ready, empty, fun dKey sKey => ?_⟩
  have allFit : fitting limit p.handed = p.handed :=
    List.filter_eq_self.mpr fun info element => decide_eq_true (awake.small.handed info element)
  have written : p.handed = p.writtenInfos := by
    rw [← allFit, ordered.written_eq, waitingInfos, noWriterTask]
    exact List.append_nil _
  rw [ordered.flow_eq, ordered.valid.flow_of_empty empty, List.append_nil, ← ofFlow_append,
    ← written]
  exact ordered.taken_perm.filter _

/-- Each task that the actors work off lowers the rank. -/
theorem Awake.work {work : List SendEvent} (awake : Awake limit p)
    (actors : ∀ event ∈ work, event = .act ∨ event = .writerAct)
    (worked : run (Peer.next limit) p work = some p') :
    work.length + p'.rank ≤ p.rank ∧ Awake limit p' := by
  induction work generalizing p with
  | nil =>
      cases worked
      exact ⟨Nat.le_of_eq (Nat.zero_add _), awake⟩
  | cons event work ih =>
      obtain ⟨actor, others⟩ := List.forall_mem_cons.mp actors
      obtain ⟨middle, step, rest⟩ := run_cons_eq_some_iff.mp worked
      have lower : middle.rank < p.rank ∧ event.Fits limit := by
        rcases actor with rfl | rfl
        · exact ⟨awake.ordered.rank_act step, trivial⟩
        · exact ⟨rank_writerAct step, trivial⟩
      obtain ⟨bound, awake'⟩ := ih (awake.next lower.2 step) others rest
      refine ⟨?_, awake'⟩
      rw [List.length_cons]
      omega

/-- As long as nothing too large is to be sent, a peer never stalls: left alone, its actors come
to an end, in whatever order they work, and then all packets that were accepted have been
written or dropped and the writer is ready for more. -/
theorem run_drains {req : RouterSigReq} {events work : List SendEvent}
    (first : (Message.sigReq req).Fits limit) (fits : ∀ event ∈ events, event.Fits limit)
    (reached : run (next limit) (start req) events = some p)
    (actors : ∀ event ∈ work, event = .act ∨ event = .writerAct)
    (worked : run (next limit) p work = some p') :
    work.length + p'.rank ≤ p.rank ∧
      ((∃ p'', p'.act limit = some p'') ∨ (∃ p'', p'.writerAct limit = some p'') ∨
        p'.ready = true ∧ p'.queue.size = 0 ∧
          ∀ dKey sKey, (ofFlow dKey sKey p'.accepted).Perm
            (ofFlow dKey sKey p'.writtenInfos ++ ofFlow dKey sKey p'.dropped)) := by
  have awake : Awake limit p :=
    (throughout_of_permitted fits (Awake.start first) fun fits => Awake.next fits).last reached
  obtain ⟨bound, awake'⟩ := awake.work actors worked
  refine ⟨bound, ?_⟩
  by_cases noTask : p'.inbox = []
  · by_cases noWriterTask : p'.writerInbox = []
    · exact .inr (.inr (awake'.drained noTask noWriterTask))
    · exact .inr (.inl (exists_writerAct noWriterTask))
  · exact .inl (awake'.ordered.exists_act noTask)

/-- Of three packets that are queued one is dropped and two are written, and then the peer is
idle. -/
theorem run_drains_three :
    ∃ p p', run (next 150) (start ⟨1, 2⟩) threeLookups = some p ∧
      run (next 150) p threeLookupsWork = some p' ∧
      (p'.accepted.length, p'.writtenInfos.length, p'.dropped.length) = (3, 2, 1) ∧
      p'.ready = true ∧ p'.queue.size = 0 ∧
        ∀ dKey sKey, (ofFlow dKey sKey p'.accepted).Perm
          (ofFlow dKey sKey p'.writtenInfos ++ ofFlow dKey sKey p'.dropped) := by
  have counted : (run (next 150) (start ⟨1, 2⟩) (threeLookups ++ threeLookupsWork)).map (fun p =>
      ((p.act 150).isSome, (p.writerAct 150).isSome, p.accepted.length, p.writtenInfos.length,
        p.dropped.length)) = some (false, false, 3, 2, 1) := by
    decide +kernel
  obtain ⟨p', ended, counts⟩ := Option.map_eq_some_iff.mp counted
  obtain ⟨p, reached, worked⟩ := run_append_eq_some_iff.mp ended
  simp only [Prod.mk.injEq, Option.isSome_eq_false_iff, Option.isNone_iff_eq_none] at counts
  obtain ⟨noTask, noWriterTask, counts⟩ := counts
  refine ⟨p, p', reached, worked, by simpa using counts, ?_⟩
  obtain ⟨-, ⟨p'', acted⟩ | ⟨p'', acted⟩ | drained⟩ :=
    run_drains (by decide) (by decide) reached (by decide) worked
  · rw [noTask] at acted
    cases acted
  · rw [noWriterTask] at acted
    cases acted
  · exact drained

end Peer

/-! ## Packets that are too large -/

/-- `PacketConn.MTU`: the largest payload that `WriteTo` takes. -/
def PacketConn.mtu (limit : UInt64) : UInt64 :=
  let tr : Traffic := ⟨[], [], .replicate 32 0, .replicate 32 0, ~~~ 0, []⟩
  limit - (UInt64.ofNat tr.size + 1)

namespace Peer

variable {limit : UInt64} {p : Peer}

/-- The limit leaves room for a header without ports. -/
theorem toNat_mtu (room : 77 ≤ limit.toNat) : (PacketConn.mtu limit).toNat = limit.toNat - 77 := by
  have overhead :
      UInt64.ofNat (Traffic.size ⟨[], [], .replicate 32 0, .replicate 32 0, ~~~ 0, []⟩) + 1 =
        77 := by decide
  simp only [PacketConn.mtu, overhead]
  exact UInt64.toNat_sub_of_le limit 77 (UInt64.le_iff_toNat_le.mpr room)

/-- A payload of the largest size fits only with short paths: the ports and the watermark share
the ten bytes that are set aside for the watermark. -/
theorem fits_traffic_iff {tr : Traffic} (room : 77 ≤ limit.toNat)
    (small : tr.size + 1 < 2 ^ 64) (full : tr.payload.length = (PacketConn.mtu limit).toNat) :
    (Message.traffic tr).Fits limit ↔
      wireSizePath tr.path + wireSizePath tr.from + wireSizeUint tr.watermark ≤ 12 := by
  have size : tr.size = wireSizePath tr.path + wireSizePath tr.from + 32 + 32 +
    wireSizeUint tr.watermark + tr.payload.length := rfl
  rw [toNat_mtu room] at full
  have bufSize : (UInt64.ofNat ((Message.traffic tr).body.size + 1)).toNat = tr.size + 1 :=
    toNat_bufSize small
  rw [Message.Fits, gt_iff_lt, UInt64.lt_iff_toNat_lt, bufSize]
  omega

/-- A packet that is too large stops the queue: once the writer has discarded it, both actors
are idle and whatever is queued next stays there, until something else is written.  A payload
that `WriteTo` accepts can be such a packet. -/
theorem run_stalls {req : RouterSigReq} {events : List SendEvent} {tr : Traffic}
    {packet : QueuedPacket} (reached : run (next limit) (start req) events = some p)
    (noTask : p.inbox = []) (noWriterTask : p.writerInbox = []) (ready : p.ready = true)
    (room : 77 ≤ limit.toNat) (small : tr.size + 1 < 2 ^ 64)
    (full : tr.payload.length = (PacketConn.mtu limit).toNat)
    (long : 12 < wireSizePath tr.path + wireSizePath tr.from + wireSizeUint tr.watermark)
    (fits : PqPacket.size packet ≤ limit.toNat) :
    ∃ p', run (next limit) p
        [.sendQueued (.traffic tr), .act, .writerAct, .sendQueued packet, .act] = some p' ∧
      p'.inbox = [] ∧ p'.writerInbox = [] ∧ 0 < p'.queue.size := by
  have ordered : Ordered limit p := invariant_of_run reached (ordered_start limit req) .next
  have empty := ordered.readyEmpty ready
  have tooLarge : ¬ (Message.traffic tr).Fits limit := by
    rw [fits_traffic_iff room small full]
    omega
  obtain ⟨isReady, queue, seq, inbox, writerInbox, now, wbuf, written, accepted, taken, handed,
    dropped⟩ := p
  simp only at noTask noWriterTask ready empty
  subst noTask noWriterTask ready
  have pushed : (queue.push packet now).size = PqPacket.size packet := by
    change queue.size + PqPacket.size packet = _
    rw [empty, Nat.zero_add]
  have ended := dropExcess_of_le (pushed.le.trans fits) (queue.push packet now).size
  let info := PacketQueue.infoFor (QueuedPacket.traffic tr) now
  refine ⟨{
    queue := queue.push packet now, seq, now, wbuf, written, dropped
    accepted := accepted ++ [info] ++ [PacketQueue.infoFor packet now]
    taken := taken ++ [info]
    handed := handed ++ [info] }, ?_, rfl, rfl, pushed.symm ▸ PqPacket.size_pos packet⟩
  apply run_cons_eq_some_iff.mpr ⟨_, rfl, _⟩
  apply run_cons_eq_some_iff.mpr ⟨_, rfl, _⟩
  apply run_cons_eq_some_iff.mpr ⟨_, if_neg tooLarge, _⟩
  apply run_cons_eq_some_iff.mpr ⟨_, rfl, _⟩
  apply run_cons_eq_some_iff.mpr ⟨_, _, rfl⟩
  simp only [next, act, Peer.push, List.nil_append, Bool.false_eq_true, if_false, ended,
    Option.bind_eq_bind, Option.bind_some, Option.pure_def, List.append_nil]
  rfl

/-- With the smallest limit even an empty payload is too large for eleven hops. -/
theorem run_stalls_eleven :
    ∃ p p', run (next 77) (start ⟨1, 2⟩) [.act, .writerAct, .writerAct, .act, .writerAct] = some p ∧
      run (next 77) p
        [.sendQueued (.traffic ⟨.replicate 11 1, [], .replicate 32 1, .replicate 32 2, 0, []⟩),
          .act, .writerAct, .sendQueued (.pathLookup ⟨.replicate 32 1, .replicate 32 2, [1]⟩),
          .act] = some p' ∧
      p'.inbox = [] ∧ p'.writerInbox = [] ∧ 0 < p'.queue.size := by
  have reached : run (next 77) (start ⟨1, 2⟩) [.act, .writerAct, .writerAct, .act, .writerAct] =
    some _ := rfl
  have small : Traffic.size ⟨.replicate 11 1, [], .replicate 32 1, .replicate 32 2, 0, []⟩ + 1 <
    2 ^ 64 := by decide
  have fits : PqPacket.size (QueuedPacket.pathLookup ⟨.replicate 32 1, .replicate 32 2, [1]⟩) ≤
    (77 : UInt64).toNat := by decide
  obtain ⟨p', stalled⟩ :=
    run_stalls reached rfl rfl rfl (by decide) small (by decide) (by decide) fits
  exact ⟨_, p', reached, stalled⟩

end Peer

end Uqda.Network
