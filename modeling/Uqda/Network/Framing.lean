import Uqda.Network.Filter

/-!
# Messages on a connection

The two ends of a peering in `third_party/ironwood/network/peers.go`.  `peerWriter.sendPacket`
writes a message as its length, its type byte and its encoding, and drops a message that is
larger than the limit on messages.  `peer.handler` reads lengths and messages in a loop until
something is wrong, and `_handlePacket` tells the types apart.

A stream is what arrives until the connection is closed.  Whether the signatures of a message
are good is a parameter.
-/

namespace Uqda.Network

open Uqda.Wire

/-! ## Messages of all types -/

/-- What the peers send each other. -/
inductive Message
  | dummy
  | keepAlive
  | sigReq (req : RouterSigReq)
  | sigRes (res : RouterSigRes)
  | announce (ann : RouterAnnounce)
  | bloom (b : Bloom)
  | pathLookup (lookup : PathLookup)
  | pathNotify (notify : PathNotify)
  | pathBroken (broken : PathBroken)
  | traffic (tr : Traffic)
  deriving DecidableEq, Repr

/-- `wireEncodeable`. -/
structure WireEncodeable where
  size : Nat
  encode : Bytes → Option Bytes

namespace Message

/-- The type byte that is written in front of the message. -/
def wireType : Message → WirePacketType
  | dummy => .wireDummy
  | keepAlive => .wireKeepAlive
  | sigReq _ => .wireProtoSigReq
  | sigRes _ => .wireProtoSigRes
  | announce _ => .wireProtoAnnounce
  | bloom _ => .wireProtoBloomFilter
  | pathLookup _ => .wireProtoPathLookup
  | pathNotify _ => .wireProtoPathNotify
  | pathBroken _ => .wireProtoPathBroken
  | traffic _ => .wireTraffic

/-- The methods of the message's type.  A keepalive is written without any of them, as the
length 1 and its type byte. -/
def body : Message → WireEncodeable
  | dummy => ⟨0, some⟩
  | keepAlive => ⟨0, some⟩
  | sigReq req => ⟨req.size, req.encode⟩
  | sigRes res => ⟨res.size, res.encode⟩
  | announce ann => ⟨ann.size, ann.encode⟩
  | bloom b => ⟨b.size, b.encode⟩
  | pathLookup lookup => ⟨lookup.size, lookup.encode⟩
  | pathNotify notify => ⟨notify.size, notify.encode⟩
  | pathBroken broken => ⟨broken.size, broken.encode⟩
  | traffic tr => ⟨tr.size, tr.encode⟩

/-- What the encoder appends. -/
def bytes : Message → Bytes
  | dummy => []
  | keepAlive => []
  | sigReq req => req.bytes
  | sigRes res => res.bytes
  | announce ann => ann.bytes
  | bloom b => b.bytes
  | pathLookup lookup => lookup.bytes
  | pathNotify notify => notify.bytes
  | pathBroken broken => broken.bytes
  | traffic tr => tr.bytes

/-- The paths in a message. -/
def paths : Message → List (List PeerPort)
  | pathLookup lookup => [lookup.from]
  | pathNotify notify => [notify.path, notify.info.path]
  | pathBroken broken => [broken.path]
  | traffic tr => [tr.path, tr.from]
  | _ => []

/-- No port in a path of the message is zero. -/
def WellFormed (message : Message) : Prop := ∀ path ∈ message.paths, Ported path

instance (message : Message) : Decidable message.WellFormed :=
  List.decidableBAll Ported message.paths

theorem body_size (message : Message) : message.body.size = message.bytes.length := by
  cases message with
  | dummy => rfl
  | keepAlive => rfl
  | sigReq req => exact req.size_eq
  | sigRes res => exact res.size_eq
  | announce ann => exact ann.size_eq
  | bloom b => exact b.size_eq
  | pathLookup lookup => exact lookup.size_eq
  | pathNotify notify => exact notify.size_eq
  | pathBroken broken => exact broken.size_eq
  | traffic tr => exact tr.size_eq

/-- No encoder panics. -/
theorem body_encode (message : Message) (out : Bytes) :
    message.body.encode out = some (out ++ message.bytes) := by
  cases message with
  | dummy => rw [body, bytes, List.append_nil]
  | keepAlive => rw [body, bytes, List.append_nil]
  | sigReq req => exact req.encode_eq out
  | sigRes res => exact res.encode_eq out
  | announce ann => exact ann.encode_eq out
  | bloom b => exact b.encode_eq out
  | pathLookup lookup => exact lookup.encode_eq out
  | pathNotify notify => exact notify.encode_eq out
  | pathBroken broken => exact broken.encode_eq out
  | traffic tr => exact tr.encode_eq out

end Message

/-! ## Handling one message -/

/-- Why `peer.handler` returns. -/
inductive PeerError
  | readLength (err : VarintError)
  | errOversizedMessage
  | eof
  | unexpectedEOF
  | errEmptyMessage
  | errUnrecognizedMessage
  | errDecode
  | errBadMessage
  deriving DecidableEq, Repr

/-- The cases of the switch in `_handlePacket`. -/
def WirePacketType.ofByte (byte : UInt8) : Option WirePacketType :=
  [wireDummy, wireKeepAlive, wireProtoSigReq, wireProtoSigRes, wireProtoAnnounce,
    wireProtoBloomFilter, wireProtoPathLookup, wireProtoPathNotify, wireProtoPathBroken,
    wireTraffic].find? fun pType => pType.byte == byte

/-- The decoder that `_handlePacket` calls for a type.  The bytes after the type of a dummy or
a keepalive are not looked at. -/
def decodeBody (pType : WirePacketType) (bs : Bytes) : Option Message :=
  match pType with
  | .wireDummy => some .dummy
  | .wireKeepAlive => some .keepAlive
  | .wireProtoSigReq => (RouterSigReq.decode bs).map .sigReq
  | .wireProtoSigRes => (RouterSigRes.decode bs).map .sigRes
  | .wireProtoAnnounce => (RouterAnnounce.decode bs).map .announce
  | .wireProtoBloomFilter => (Bloom.decode bs).map .bloom
  | .wireProtoPathLookup => (PathLookup.decode bs).map .pathLookup
  | .wireProtoPathNotify => (PathNotify.decode bs).map .pathNotify
  | .wireProtoPathBroken => (PathBroken.decode bs).map .pathBroken
  | .wireTraffic => (Traffic.decode bs).map .traffic

/-- The signatures that are checked before a message is handed on. -/
def Message.checked (check : Message → Bool) : Message → Bool
  | message@(.sigRes _) => check message
  | message@(.announce _) => check message
  | _ => true

/-- `peer._handlePacket` up to the call of the handler for the message. -/
def handlePacket (check : Message → Bool) : Bytes → Except PeerError Message
  | [] => .error .errEmptyMessage
  | byte :: bs =>
      match WirePacketType.ofByte byte with
      | none => .error .errUnrecognizedMessage
      | some pType =>
          match decodeBody pType bs with
          | none => .error .errDecode
          | some message => if message.checked check then .ok message else .error .errBadMessage

/-! ## The two loops -/

/-- The largest `int`. -/
def maxInt : UInt64 := 0x7fffffffffffffff

/-- `checkedPeerMessageSize`. -/
def checkedPeerMessageSize (size limit : UInt64) : Option Nat :=
  if size > limit ∨ size > maxInt then none else some size.toNat

/-- The frame of a message: its length, its type byte and its encoding. -/
def Message.frame (message : Message) : Bytes :=
  putUvarint (UInt64.ofNat (message.body.size + 1)) ++ message.wireType.byte :: message.bytes

/-- `peerWriter.sendPacket`: what is written to the connection, which is nothing for a message
that is too large.  `none` is a panic. -/
def sendPacket (limit : UInt64) (message : Message) : Option Bytes :=
  let bufSize := UInt64.ofNat (message.body.size + 1)
  if bufSize > limit then some []
  else message.body.encode (putUvarint bufSize ++ [message.wireType.byte])

/-- What is written for messages that are sent one after the other. -/
def sendPackets (limit : UInt64) : List Message → Option Bytes
  | [] => some []
  | message :: messages => do
      let front ← sendPacket limit message
      let back ← sendPackets limit messages
      return front ++ back

theorem length_lt_of_readUvarint {stream rest : Bytes} {usize : UInt64}
    (read : readUvarint stream = .ok (usize, rest)) : rest.length < stream.length :=
  length_lt_of_wireChopUint (readUvarint_eq_ok_iff.mp read)

/-- The loop of `peer.handler`: the messages that are handed on, and why it returns. -/
def handler (limit : UInt64) (check : Message → Bool) (stream : Bytes) : List Message × PeerError :=
  match _read : readUvarint stream with
  | .error err => ([], .readLength err)
  | .ok (usize, rest) =>
      match checkedPeerMessageSize usize limit with
      | none => ([], .errOversizedMessage)
      | some size =>
          if rest.length < size then ([], if rest.length = 0 then .eof else .unexpectedEOF)
          else
            match handlePacket check (rest.take size) with
            | .error err => ([], err)
            | .ok message =>
                let (messages, err) := handler limit check (rest.drop size)
                (message :: messages, err)
termination_by stream.length
decreasing_by
  have shorter := length_lt_of_readUvarint _read
  rw [List.length_drop]
  omega

/-! ## Messages and their bytes -/

theorem WirePacketType.ofByte_byte (pType : WirePacketType) : ofByte pType.byte = some pType := by
  cases pType <;> rfl

/-- Every decoder reads what its encoder writes. -/
theorem decodeBody_bytes {message : Message} (wellFormed : message.WellFormed) :
    decodeBody message.wireType message.bytes = some message := by
  cases message with
  | dummy => rfl
  | keepAlive => rfl
  | sigReq req =>
      have read : RouterSigReq.decode req.bytes = some req := by
        rw [RouterSigReq.decode, noMore_eq_chopAll, RouterSigReq.chops.chopAll_encode trivial]
      simp only [decodeBody, Message.wireType, Message.bytes, read, Option.map_some]
  | sigRes res =>
      have read : RouterSigRes.decode res.bytes = some res := by
        rw [RouterSigRes.decode, noMore_eq_chopAll, RouterSigRes.chops.chopAll_encode trivial]
      simp only [decodeBody, Message.wireType, Message.bytes, read, Option.map_some]
  | announce ann =>
      have read : RouterAnnounce.decode ann.bytes = some ann := by
        rw [RouterAnnounce.decode, noMore_eq_chopAll, RouterAnnounce.chops.chopAll_encode trivial]
      simp only [decodeBody, Message.wireType, Message.bytes, read, Option.map_some]
  | bloom b =>
      simp only [decodeBody, Message.wireType, Message.bytes, b.decode_bytes, Option.map_some]
  | pathLookup lookup =>
      have ported : Ported lookup.from := wellFormed _ (by simp [Message.paths])
      have read : PathLookup.decode lookup.bytes = some lookup := by
        rw [PathLookup.decode, noMore_eq_chopAll, PathLookup.chops.chopAll_encode ported]
      simp only [decodeBody, Message.wireType, Message.bytes, read, Option.map_some]
  | pathNotify notify =>
      have ported : Ported notify.path ∧ Ported notify.info.path :=
        ⟨wellFormed _ (by simp [Message.paths]), wellFormed _ (by simp [Message.paths])⟩
      have read : PathNotify.decode notify.bytes = some notify := by
        rw [PathNotify.decode_eq, noMore_eq_chopAll, PathNotify.chops.chopAll_encode ported]
      simp only [decodeBody, Message.wireType, Message.bytes, read, Option.map_some]
  | pathBroken broken =>
      have ported : Ported broken.path := wellFormed _ (by simp [Message.paths])
      have read : PathBroken.decode broken.bytes = some broken := by
        rw [PathBroken.decode, noMore_eq_chopAll, PathBroken.chops.chopAll_encode ported]
      simp only [decodeBody, Message.wireType, Message.bytes, read, Option.map_some]
  | traffic tr =>
      have read : Traffic.decode tr.bytes = some tr :=
        Traffic.decode_bytes (wellFormed _ (by simp [Message.paths]))
          (wellFormed _ (by simp [Message.paths]))
      simp only [decodeBody, Message.wireType, Message.bytes, read, Option.map_some]

/-- What a decoder accepts is well-formed, has its type and is not longer when it is written
again. -/
theorem of_decodeBody {pType : WirePacketType} {bs : Bytes} {message : Message}
    (accepted : decodeBody pType bs = some message) :
    message.WellFormed ∧ message.wireType = pType ∧ message.bytes.length ≤ bs.length := by
  cases pType with
  | wireDummy =>
      cases accepted
      exact ⟨by simp [Message.WellFormed, Message.paths], rfl, Nat.zero_le _⟩
  | wireKeepAlive =>
      cases accepted
      exact ⟨by simp [Message.WellFormed, Message.paths], rfl, Nat.zero_le _⟩
  | wireProtoSigReq =>
      obtain ⟨req, read, rfl⟩ := Option.map_eq_some_iff.mp accepted
      rw [RouterSigReq.decode, noMore_eq_chopAll] at read
      exact ⟨by simp [Message.WellFormed, Message.paths], rfl,
        (RouterSigReq.chops.of_chopAll read).2⟩
  | wireProtoSigRes =>
      obtain ⟨res, read, rfl⟩ := Option.map_eq_some_iff.mp accepted
      rw [RouterSigRes.decode, noMore_eq_chopAll] at read
      exact ⟨by simp [Message.WellFormed, Message.paths], rfl,
        (RouterSigRes.chops.of_chopAll read).2⟩
  | wireProtoAnnounce =>
      obtain ⟨ann, read, rfl⟩ := Option.map_eq_some_iff.mp accepted
      rw [RouterAnnounce.decode, noMore_eq_chopAll] at read
      exact ⟨by simp [Message.WellFormed, Message.paths], rfl,
        (RouterAnnounce.chops.of_chopAll read).2⟩
  | wireProtoBloomFilter =>
      obtain ⟨b, read, rfl⟩ := Option.map_eq_some_iff.mp accepted
      exact ⟨by simp [Message.WellFormed, Message.paths], rfl, Bloom.of_decode read⟩
  | wireProtoPathLookup =>
      obtain ⟨lookup, read, rfl⟩ := Option.map_eq_some_iff.mp accepted
      rw [PathLookup.decode, noMore_eq_chopAll] at read
      obtain ⟨ported, shorter⟩ := PathLookup.chops.of_chopAll read
      exact ⟨by simpa [Message.WellFormed, Message.paths] using ported, rfl, shorter⟩
  | wireProtoPathNotify =>
      obtain ⟨notify, read, rfl⟩ := Option.map_eq_some_iff.mp accepted
      rw [PathNotify.decode_eq, noMore_eq_chopAll] at read
      obtain ⟨ported, shorter⟩ := PathNotify.chops.of_chopAll read
      exact ⟨by simpa [Message.WellFormed, Message.paths] using ported, rfl, shorter⟩
  | wireProtoPathBroken =>
      obtain ⟨broken, read, rfl⟩ := Option.map_eq_some_iff.mp accepted
      rw [PathBroken.decode, noMore_eq_chopAll] at read
      obtain ⟨ported, shorter⟩ := PathBroken.chops.of_chopAll read
      exact ⟨by simpa [Message.WellFormed, Message.paths] using ported, rfl, shorter⟩
  | wireTraffic =>
      obtain ⟨tr, read, rfl⟩ := Option.map_eq_some_iff.mp accepted
      obtain ⟨ported, shorter⟩ := Traffic.of_decode read
      exact ⟨by simpa [Message.WellFormed, Message.paths] using ported, rfl, shorter⟩

theorem handlePacket_bytes {check : Message → Bool} {message : Message}
    (wellFormed : message.WellFormed) (signed : message.checked check = true) :
    handlePacket check (message.wireType.byte :: message.bytes) = .ok message := by
  simp only [handlePacket, WirePacketType.ofByte_byte, decodeBody_bytes wellFormed, signed, if_true]

theorem of_handlePacket {check : Message → Bool} {bs : Bytes} {message : Message}
    (handled : handlePacket check bs = .ok message) :
    message.WellFormed ∧ message.checked check = true ∧ message.bytes.length + 1 ≤ bs.length := by
  cases bs with
  | nil => cases handled
  | cons byte bs =>
      simp only [handlePacket] at handled
      split at handled
      · cases handled
      · split at handled
        · cases handled
        · rename_i read
          split at handled
          · rename_i signed
            cases handled
            obtain ⟨wellFormed, -, shorter⟩ := of_decodeBody read
            exact ⟨wellFormed, signed, Nat.succ_le_succ shorter⟩
          · cases handled

/-! ## Streams -/

theorem handler_nil (limit : UInt64) (check : Message → Bool) :
    handler limit check [] = ([], .readLength .eof) := by
  rw [handler]
  rfl

/-- One round of the loop, after the length has been read. -/
theorem handler_of_read {limit usize : UInt64} {check : Message → Bool} {stream rest : Bytes}
    (read : readUvarint stream = .ok (usize, rest)) :
    handler limit check stream =
      match checkedPeerMessageSize usize limit with
      | none => ([], .errOversizedMessage)
      | some size =>
          if rest.length < size then ([], if rest.length = 0 then .eof else .unexpectedEOF)
          else
            match handlePacket check (rest.take size) with
            | .error err => ([], err)
            | .ok message =>
                (message :: (handler limit check (rest.drop size)).1,
                  (handler limit check (rest.drop size)).2) := by
  rw [handler]
  split
  · rename_i err failed
    rw [read] at failed
    cases failed
  · rename_i again
    rw [read] at again
    cases again
    rfl

theorem handler_of_error {limit : UInt64} {err : VarintError} {check : Message → Bool}
    {stream : Bytes} (read : readUvarint stream = .error err) :
    handler limit check stream = ([], .readLength err) := by
  rw [handler]
  split
  · rename_i err' failed
    rw [read] at failed
    cases failed
    rfl
  · rename_i again
    rw [read] at again
    cases again

/-- The length in front of a message that is not too large. -/
theorem toNat_bufSize {message : Message} (fits : message.body.size + 1 < 2 ^ 64) :
    (UInt64.ofNat (message.body.size + 1)).toNat = message.body.size + 1 :=
  UInt64.toNat_ofNat_of_lt' fits

/-- No message panics: a message that is not too large is written as its frame. -/
theorem sendPacket_eq (limit : UInt64) (message : Message) :
    sendPacket limit message =
      some (if UInt64.ofNat (message.body.size + 1) > limit then [] else message.frame) := by
  rw [sendPacket]
  split
  · rfl
  · rw [message.body_encode, Message.frame, List.append_assoc, List.singleton_append]

/-- A message that is not too large is written, and its frame is read back from the front of
any stream. -/
theorem handler_sendPacket {limit : UInt64} {check : Message → Bool} {message : Message}
    (small : limit ≤ maxInt) (fits : message.body.size + 1 ≤ limit.toNat)
    (wellFormed : message.WellFormed) (signed : message.checked check = true) :
    ∃ frame, sendPacket limit message = some frame ∧ ∀ rest,
      handler limit check (frame ++ rest) =
        (message :: (handler limit check rest).1, (handler limit check rest).2) := by
  have bound : message.body.size + 1 < 2 ^ 64 := fits.trans_lt limit.toNat_lt
  have size := toNat_bufSize bound
  have within : ¬ UInt64.ofNat (message.body.size + 1) > limit := by
    rw [gt_iff_lt, UInt64.lt_iff_toNat_lt, size]
    exact Nat.not_lt.mpr fits
  have accepted : checkedPeerMessageSize (UInt64.ofNat (message.body.size + 1)) limit =
      some (message.body.size + 1) := by
    have below : ¬ UInt64.ofNat (message.body.size + 1) > maxInt := by
      rw [gt_iff_lt, UInt64.lt_iff_toNat_lt, size]
      exact Nat.not_lt.mpr (fits.trans (UInt64.le_iff_toNat_le.mp small))
    rw [checkedPeerMessageSize, if_neg (not_or.mpr ⟨within, below⟩), size]
  refine ⟨message.frame, ?_, fun rest => ?_⟩
  · rw [sendPacket_eq, if_neg within]
  · have read := readUvarint_eq_ok_iff.mpr (@(chops_uvarint).chop_encode
      (UInt64.ofNat (message.body.size + 1)) (message.wireType.byte :: message.bytes ++ rest)
      trivial)
    have exact : (message.wireType.byte :: message.bytes).length = message.body.size + 1 := by
      rw [List.length_cons, message.body_size]
    have enough : ¬ (message.wireType.byte :: message.bytes ++ rest).length <
        message.body.size + 1 := by
      rw [List.length_append, exact]
      exact Nat.not_lt.mpr (Nat.le_add_right _ _)
    rw [Message.frame, List.append_assoc, handler_of_read read, accepted]
    simp only [if_neg enough]
    rw [List.take_left' exact, List.drop_left' exact, handlePacket_bytes wellFormed signed]

theorem sendPacket_of_large {limit : UInt64} {message : Message}
    (bound : message.body.size + 1 < 2 ^ 64) (large : limit.toNat < message.body.size + 1) :
    sendPacket limit message = some [] := by
  have larger : UInt64.ofNat (message.body.size + 1) > limit := by
    rw [gt_iff_lt, UInt64.lt_iff_toNat_lt, toNat_bufSize bound]
    exact large
  rw [sendPacket_eq, if_pos larger]

/-- Sending and receiving.  Whatever well-formed messages one end sends, nothing panics, and
the other end hands on exactly those that are not over the limit, in the order in which they
were sent, until the connection is closed between two messages. -/
theorem handler_sendPackets {limit : UInt64} {check : Message → Bool} {messages : List Message}
    (small : limit ≤ maxInt)
    (sent : ∀ message ∈ messages, message.WellFormed ∧ message.checked check = true ∧
      message.body.size + 1 < 2 ^ 64) :
    ∃ stream, sendPackets limit messages = some stream ∧
      handler limit check stream =
        (messages.filter fun message => message.body.size + 1 ≤ limit.toNat,
          .readLength .eof) := by
  induction messages with
  | nil => exact ⟨[], rfl, handler_nil limit check⟩
  | cons message messages ih =>
      obtain ⟨⟨wellFormed, signed, bound⟩, sent⟩ := List.forall_mem_cons.mp sent
      obtain ⟨stream, written, handled⟩ := ih sent
      by_cases fits : message.body.size + 1 ≤ limit.toNat
      · obtain ⟨frame, framed, read⟩ := handler_sendPacket small fits wellFormed signed
        refine ⟨frame ++ stream, ?_, ?_⟩
        · simp only [sendPackets, framed, written, Option.bind_eq_bind, Option.bind_some,
            Option.pure_def]
        · rw [read, handled, List.filter_cons, if_pos (decide_eq_true fits)]
      · refine ⟨stream, ?_, ?_⟩
        · simp only [sendPackets, sendPacket_of_large bound (Nat.not_le.mp fits), written,
            Option.bind_eq_bind, Option.bind_some, Option.pure_def, List.nil_append]
        · rw [handled, List.filter_cons, if_neg (by simpa using fits)]

/-- Three messages over a connection on which the second one is too large. -/
theorem handler_sendPackets_limited :
    ∃ stream, sendPackets 3 [.keepAlive, .sigReq ⟨300, 2⟩, .sigReq ⟨3, 4⟩] = some stream ∧
      handler 3 (fun _ => true) stream =
        ([.keepAlive, .sigReq ⟨300, 2⟩, .sigReq ⟨3, 4⟩].filter fun message =>
          message.body.size + 1 ≤ (3 : UInt64).toNat, .readLength .eof) :=
  handler_sendPackets (by decide) (by decide)

/-! ## Relaying -/

namespace Message

/-- The bound on the distance that is left, for the messages that are routed. -/
def watermark : Message → UInt64
  | pathNotify notify => notify.watermark
  | pathBroken broken => broken.watermark
  | traffic tr => tr.watermark
  | _ => 0

/-- The message with another watermark, as it is passed on to the next hop. -/
def relay (watermark : UInt64) : Message → Message
  | pathNotify notify => pathNotify { notify with watermark := watermark }
  | pathBroken broken => pathBroken { broken with watermark := watermark }
  | traffic tr => traffic { tr with watermark := watermark }
  | message => message

theorem relay_wellFormed {message : Message} (watermark : UInt64)
    (wellFormed : message.WellFormed) : (message.relay watermark).WellFormed := by
  cases message with
  | pathNotify notify => exact wellFormed
  | pathBroken broken => exact wellFormed
  | traffic tr => exact wellFormed
  | _ => exact wellFormed

theorem relay_checked {check : Message → Bool} {message : Message} (watermark : UInt64)
    (signed : message.checked check = true) : (message.relay watermark).checked check = true := by
  cases message with
  | pathNotify notify => rfl
  | pathBroken broken => rfl
  | traffic tr => rfl
  | _ => exact signed

/-- A lower watermark does not take more bytes. -/
theorem relay_size_le {message : Message} {watermark : UInt64}
    (lower : watermark ≤ message.watermark) :
    (message.relay watermark).body.size ≤ message.body.size := by
  have shorter := length_putUvarint_mono lower
  cases message with
  | pathNotify notify =>
      simp only [relay, body, PathNotify.size, wireSizeUint, Message.watermark] at shorter ⊢
      omega
  | pathBroken broken =>
      simp only [relay, body, PathBroken.size, wireSizeUint, Message.watermark] at shorter ⊢
      omega
  | traffic tr =>
      simp only [relay, body, Traffic.size, wireSizeUint, Message.watermark] at shorter ⊢
      omega
  | _ => exact Nat.le_refl _

end Message

/-- Whatever arrives on a connection, what is handed on is well-formed, has good signatures
and is not larger than the limit. -/
theorem of_mem_handler {limit : UInt64} {check : Message → Bool} {stream : Bytes}
    {message : Message} (handed : message ∈ (handler limit check stream).1) :
    message.WellFormed ∧ message.checked check = true ∧
      message.body.size + 1 ≤ limit.toNat := by
  induction size : stream.length using Nat.strongRecOn generalizing stream with
  | ind n ih =>
      cases read : readUvarint stream with
      | error err =>
          rw [handler_of_error read] at handed
          cases handed
      | ok pair =>
          obtain ⟨usize, rest⟩ := pair
          rw [handler_of_read read] at handed
          split at handed
          · cases handed
          · rename_i length accepted
            split at handed
            · cases handed
            · split at handed
              · cases handed
              · rename_i first handled
                rcases List.mem_cons.mp handed with rfl | later
                · obtain ⟨wellFormed, signed, shorter⟩ := of_handlePacket handled
                  refine ⟨wellFormed, signed, ?_⟩
                  rw [checkedPeerMessageSize] at accepted
                  split at accepted
                  · cases accepted
                  · rename_i within
                    cases accepted
                    have limited := UInt64.le_iff_toNat_le.mp
                      (UInt64.not_lt.mp (not_or.mp within).1)
                    rw [List.length_take] at shorter
                    rw [Message.body_size]
                    omega
                · have less := length_lt_of_readUvarint read
                  refine ih _ ?_ later rfl
                  rw [List.length_drop]
                  omega

/-- Relaying.  Whatever a peer sends, each message that is handed on can be passed on with any
watermark that is not higher: it is written to the next connection and read there as it is. -/
theorem handler_relay {limit : UInt64} {check : Message → Bool} {stream : Bytes}
    {message : Message} {watermark : UInt64} (small : limit ≤ maxInt)
    (handed : message ∈ (handler limit check stream).1) (lower : watermark ≤ message.watermark) :
    ∃ frame, sendPacket limit (message.relay watermark) = some frame ∧
      handler limit check frame = ([message.relay watermark], .readLength .eof) := by
  obtain ⟨wellFormed, signed, fits⟩ := of_mem_handler handed
  have shorter := Message.relay_size_le lower
  obtain ⟨frame, framed, read⟩ := handler_sendPacket small ((Nat.succ_le_succ shorter).trans fits)
    (Message.relay_wellFormed watermark wellFormed) (Message.relay_checked watermark signed)
  refine ⟨frame, framed, ?_⟩
  rw [← List.append_nil frame, read, handler_nil]

/-- A notification of a broken path that arrives with watermark 300 and goes on with 2. -/
theorem handler_relay_broken :
    let broken : Message := .pathBroken ⟨[1], 300, Vector.replicate 32 1, Vector.replicate 32 2⟩
    ∃ stream, broken ∈ (handler 131070 (fun _ => true) stream).1 ∧
      ∃ frame, sendPacket 131070 (broken.relay 2) = some frame ∧
        handler 131070 (fun _ => true) frame = ([broken.relay 2], .readLength .eof) := by
  intro broken
  obtain ⟨stream, -, read⟩ := @handler_sendPacket 131070 (fun _ => true) broken (by decide)
    (by decide +kernel) (by decide) (by decide)
  have handed : broken ∈ (handler 131070 (fun _ => true) stream).1 := by
    rw [← List.append_nil stream, read]
    exact List.mem_cons_self
  exact ⟨stream, handed, handler_relay (by decide) handed (by decide)⟩

end Uqda.Network
