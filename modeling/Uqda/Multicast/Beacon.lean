import Uqda.Multicast.Core
import Uqda.Links.Listening

/-!
# Beacons and the links they lead to

The embedding of `src/multicast/advertisement.go`, of the URI that `_announce` listens on
and of `Multicast.listen` in `src/multicast/multicast.go`.

A beacon carries the public key of its sender, the port of a listener and a keyed hash of
the public key.  A node that gets the same hash with the password of its own interface
calls the sender, with the key of the beacon as a pin and its own password as the link
password.  The password passes through the query of a URI on both sides and comes out of
the options as it went in.
-/

namespace Uqda.Multicast

open Uqda.Addressing Uqda.Wire
open Uqda.Handshake (ascii protocolVersionMajor protocolVersionMinor)
open Uqda.Links (OptionKey Url)

/-! ## Advertisements -/

/-- `multicastAdvertisement`. -/
structure Advertisement where
  majorVersion : UInt16
  minorVersion : UInt16
  publicKey : Bytes
  port : UInt16
  hash : Bytes
  deriving DecidableEq

/-- `MarshalBinary`. -/
def Advertisement.marshalBinary (m : Advertisement) : Bytes :=
  bigEndian 2 m.majorVersion.toNat ++ bigEndian 2 m.minorVersion.toNat ++ m.publicKey ++
    bigEndian 2 m.port.toNat ++ bigEndian 2 m.hash.length ++ m.hash

/-- The constant of `UnmarshalBinary`. -/
def headerLen : Nat := publicKeySize + 8

/-- The bytes of `b[start:stop]`. -/
def slice (b : Bytes) (start stop : Nat) : Bytes :=
  (b.drop start).take (stop - start)

/-- `UnmarshalBinary`. -/
def unmarshalBinary (b : Bytes) : Option Advertisement :=
  if b.length < headerLen then none
  else
    let dl := ofBigEndian (slice b (6 + publicKeySize) (8 + publicKeySize))
    if b.length < headerLen + dl then none
    else
      some
        { majorVersion := UInt16.ofNat (ofBigEndian (slice b 0 2))
          minorVersion := UInt16.ofNat (ofBigEndian (slice b 2 4))
          publicKey := slice b 4 (4 + publicKeySize)
          port := UInt16.ofNat (ofBigEndian (slice b (4 + publicKeySize) (6 + publicKeySize)))
          hash := slice b headerLen (headerLen + dl) }

theorem ofNat_ofBigEndian_bigEndian (n : UInt16) :
    UInt16.ofNat (ofBigEndian (bigEndian 2 n.toNat)) = n := by
  rw [ofBigEndian_bigEndian_of_lt n.toNat_lt]
  exact UInt16.ofNat_toNat

section Codec

variable {m : Advertisement} (size : m.publicKey.length = publicKeySize)

include size

theorem length_marshalBinary : m.marshalBinary.length = headerLen + m.hash.length := by
  simp [Advertisement.marshalBinary, headerLen, size]
  omega

/-- Where the fields of an advertisement are. -/
theorem slices_marshalBinary :
    slice m.marshalBinary 0 2 = bigEndian 2 m.majorVersion.toNat ∧
      slice m.marshalBinary 2 4 = bigEndian 2 m.minorVersion.toNat ∧
      slice m.marshalBinary 4 (4 + publicKeySize) = m.publicKey ∧
      slice m.marshalBinary (4 + publicKeySize) (6 + publicKeySize) = bigEndian 2 m.port.toNat ∧
      slice m.marshalBinary (6 + publicKeySize) (8 + publicKeySize) =
        bigEndian 2 m.hash.length ∧
      slice m.marshalBinary headerLen (headerLen + m.hash.length) = m.hash := by
  simp only [publicKeySize] at size
  -- what lies before a field is dropped altogether
  have number : ∀ n count, 2 ≤ count → (bigEndian 2 n).drop count = [] := fun n count past =>
    List.drop_eq_nil_of_le (by simpa using past)
  have key : ∀ count, 32 ≤ count → m.publicKey.drop count = [] := fun count past =>
    List.drop_eq_nil_of_le (size ▸ past)
  refine ⟨?_, ?_, ?_, ?_, ?_, ?_⟩ <;>
    simp [slice, Advertisement.marshalBinary, List.drop_append, size, publicKeySize,
      headerLen, number, key]

/-- An advertisement whose hash has a length of 16 bits is read back. -/
theorem unmarshalBinary_marshalBinary (short : m.hash.length < 65536) :
    unmarshalBinary m.marshalBinary = some m := by
  obtain ⟨major, minor, key, port, count, hash⟩ := slices_marshalBinary size
  have dl : ofBigEndian (bigEndian 2 m.hash.length) = m.hash.length :=
    ofBigEndian_bigEndian_of_lt short
  have length := length_marshalBinary size
  rw [unmarshalBinary, if_neg (by omega)]
  simp only [count, dl, hash, major, minor, key, port, ofNat_ofBigEndian_bigEndian]
  rw [if_neg (by omega)]

end Codec

/-! ## URIs -/

/-- The scheme of both URIs. -/
def tlsScheme : Bytes := ascii ['t', 'l', 's']

/-- The query of the URI that `_announce` listens on. -/
def listenQuery (info : InterfaceInfo) : Values :=
  Values.add (Values.add [] OptionKey.priority.name (formatDecimal info.priority.toNat))
    OptionKey.password.name info.password

/-- The query of the URI that `listen` calls. -/
def callQuery (publicKey : Bytes) (info : InterfaceInfo) : Values :=
  Values.add
    (Values.add (Values.add [] OptionKey.key.name (hexEncode publicKey))
      OptionKey.priority.name (formatDecimal info.priority.toNat))
    OptionKey.password.name info.password

/-- The URI on which `_announce` listens. -/
def listenUrl (host : Bytes) (info : InterfaceInfo) : Url where
  scheme := tlsScheme
  host := host
  rawQuery := (listenQuery info).encode

/-- The URI that `listen` calls. -/
def callUrl (host publicKey : Bytes) (info : InterfaceInfo) : Url where
  scheme := tlsScheme
  host := host
  rawQuery := (callQuery publicKey info).encode

/-- A query with a priority, a password that is not too long and no policy. -/
theorem parseLinkOptions_of_all {values : Values} {priority : UInt8} {password : Bytes}
    (priorities : values.all OptionKey.priority.name = [formatDecimal priority.toNat])
    (passwords : values.all OptionKey.password.name = [password])
    (policies : values.all OptionKey.secure.name = []) (short : password.length ≤ 64) :
    Links.parseLinkOptions values = .ok ⟨password, priority, false⟩ := by
  have readPriority : OptionKey.priority.read values 0 Links.parsePriority = .ok priority := by
    have bounded : priority.toNat ≤ 255 := Nat.le_of_lt_succ priority.toNat_lt
    simp [OptionKey.read, Values.get, priorities, formatDecimal_ne_nil, Links.parsePriority,
      parseDecimal_formatDecimal bounded]
  have readPassword : OptionKey.password.read values [] Links.parsePassword = .ok password := by
    simp only [OptionKey.read, Values.get, passwords, List.headD_cons, Links.parsePassword,
      Nat.not_lt.mpr short, if_false]
    split
    · simp [*]
    · rfl
  have readSecure : OptionKey.secure.read values false Links.parseSecure = .ok false := by
    simp [OptionKey.read, Values.get, policies]
  simp only [Links.parseLinkOptions, readPriority, readPassword, readSecure]
  rfl

/-- The options of the listener: the password of the interface is the link password. -/
theorem parseLinkOptions_listenUrl {host : Bytes} {info : InterfaceInfo}
    (short : info.password.length ≤ 64) :
    Links.parseLinkOptions (listenUrl host info).query =
      .ok ⟨info.password, info.priority, false⟩ := by
  refine parseLinkOptions_of_all ?_ ?_ ?_ short <;>
    simp [Url.query, listenUrl, listenQuery, Values.all_add_self, Values.all_add_of_ne,
      OptionKey.name_ne_of_ne]

/-- The options of the caller: the key of the beacon is the only pin, and the password of
the interface is the link password. -/
theorem dialOptions_callUrl {lib : Links.Library} {host : Bytes} {pin : KeyArray}
    {info : InterfaceInfo} (short : info.password.length ≤ 64) :
    lib.dialOptions (callUrl host pin.toList info) =
      .ok
        { password := info.password
          priority := info.priority
          requireSecure := false
          pinnedEd25519Keys := [pin]
          tlsSNI := lib.tlsSNI (callUrl host pin.toList info)
          maxBackoff := Links.defaultBackoffLimit } := by
  have keys : (callUrl host pin.toList info).query.all OptionKey.key.name =
      [hexEncode pin.toList] := by
    simp [Url.query, callUrl, callQuery, Values.all_add_self, Values.all_add_of_ne,
      OptionKey.name_ne_of_ne]
  have pins : ((callUrl host pin.toList info).query.all OptionKey.key.name).foldlM
      Links.pinKey [] = .ok [pin] := by
    have pinned : Links.pinKey [] (hexEncode pin.toList) = .ok [pin] := by
      simp [Links.pinKey, copyAt_zero_toList]
    rw [keys, List.foldlM_cons, pinned]
    rfl
  have shared : Links.parseLinkOptions (callUrl host pin.toList info).query =
      .ok ⟨info.password, info.priority, false⟩ := by
    refine parseLinkOptions_of_all ?_ ?_ ?_ short <;>
      simp [Url.query, callUrl, callQuery, Values.all_add_self, Values.all_add_of_ne,
        OptionKey.name_ne_of_ne]
  have limit : OptionKey.maxbackoff.read (callUrl host pin.toList info).query
      Links.defaultBackoffLimit lib.parseMaxBackoff = .ok Links.defaultBackoffLimit := by
    simp [OptionKey.read, Values.get, Url.query, callUrl, callQuery, Values.all_add_of_ne,
      OptionKey.name_ne_of_ne]
  rw [Links.Library.dialOptions, pins, shared, limit]
  rfl

/-! ## Receiving a beacon -/

/-- A node that listens for beacons: its key, keyed BLAKE2b-512 and its interfaces. -/
structure Receiver where
  publicKey : Bytes
  blake2b : Bytes → Bytes → Bytes
  interfaces : String → Option InterfaceInfo

/-- The length of the buffer in `Multicast.listen`. -/
def bufferSize : Nat := 2048

/-- One iteration of the loop in `Multicast.listen`: the URI that is called, if there is
one.  The message came in on the interface `zone`; `addressed` says that it was sent to the
multicast group, and `host` prints the address of the sender with a port. -/
def Receiver.listen (receiver : Receiver) (addressed : Bool) (zone : String)
    (host : UInt16 → Bytes) (message : Bytes) : Option Url :=
  if !addressed then none
  else
    match unmarshalBinary (message.take bufferSize) with
    | none => none
    | some adv =>
        if adv.majorVersion ≠ protocolVersionMajor then none
        else if adv.minorVersion ≠ protocolVersionMinor then none
        else if adv.publicKey = receiver.publicKey then none
        else
          match receiver.interfaces zone with
          | none => none
          | some info =>
              if !info.listen then none
              else if info.password.length > 64 then none
              else if adv.publicKey.length ≠ publicKeySize then none
              else if receiver.blake2b info.password adv.publicKey ≠ adv.hash then none
              else some (callUrl (host adv.port) adv.publicKey info)

/-- When a message leads to a call. -/
theorem Receiver.listen_eq_some_iff {receiver : Receiver} {addressed : Bool} {zone : String}
    {host : UInt16 → Bytes} {adv : Advertisement} {message : Bytes} {u : Url}
    (parsed : unmarshalBinary (message.take bufferSize) = some adv) :
    receiver.listen addressed zone host message = some u ↔
      addressed = true ∧ adv.majorVersion = protocolVersionMajor ∧
        adv.minorVersion = protocolVersionMinor ∧ adv.publicKey ≠ receiver.publicKey ∧
          ∃ info, receiver.interfaces zone = some info ∧ info.listen = true ∧
            info.password.length ≤ 64 ∧ adv.publicKey.length = publicKeySize ∧
              receiver.blake2b info.password adv.publicKey = adv.hash ∧
                callUrl (host adv.port) adv.publicKey info = u := by
  unfold Receiver.listen
  rw [parsed]
  cases addressed <;> cases receiver.interfaces zone <;> simp

/-! ## Agreement -/

/-- What is assumed of keyed BLAKE2b-512 for the public key of a node and the passwords that
are in use: no two of them have the same hash of the key, and an advertisement with such a
hash fits the buffer of a receiver. -/
structure CollisionFree (blake2b : Bytes → Bytes → Bytes) (publicKey : Bytes)
    (passwords : Set Bytes) : Prop where
  injective : publicKey.length = publicKeySize → ∀ first ∈ passwords, ∀ second ∈ passwords,
    first.length ≤ 64 → second.length ≤ 64 →
      blake2b first publicKey = blake2b second publicKey → first = second
  fits : publicKey.length = publicKeySize → ∀ password ∈ passwords, password.length ≤ 64 →
    headerLen + (blake2b password publicKey).length ≤ bufferSize

/-- The information has a password that can be a key of the hash, and the hash with it. -/
structure InterfaceInfo.Hashed (info : InterfaceInfo) (blake2b : Bytes → Bytes → Bytes)
    (publicKey : Bytes) : Prop where
  short : info.password.length ≤ 64
  size : publicKey.length = publicKeySize
  hashed : info.hash = blake2b info.password publicKey

/-- The advertisement that `_announce` makes for a listener on the port. -/
def advertisement (publicKey : Bytes) (port : UInt16) (info : InterfaceInfo) : Advertisement where
  majorVersion := protocolVersionMajor
  minorVersion := protocolVersionMinor
  publicKey := publicKey
  port := port
  hash := info.hash

/-- Every node with another key and passwords in use that calls on account of the message
uses the link password and pins the public key. -/
def Leads (lib : Links.Library) (blake2b : Bytes → Bytes → Bytes) (passwords : Set Bytes)
    (message publicKey : Bytes) (password : Bytes) : Prop :=
  ∀ receiver : Receiver, receiver.blake2b = blake2b → receiver.publicKey ≠ publicKey →
    receiver.publicKey.length = publicKeySize →
    (∀ zone, ∀ info ∈ receiver.interfaces zone, info.password ∈ passwords) →
      ∀ addressed zone host u, receiver.listen addressed zone host message = some u →
        ∃ options, lib.dialOptions u = .ok options ∧ options.password = password ∧
          options.pinnedEd25519Keys.map Vector.toList = [publicKey]

/-- There is another public key. -/
theorem exists_publicKey_ne (publicKey : Bytes) :
    ∃ other : Bytes, other ≠ publicKey ∧ other.length = publicKeySize := by
  by_cases zero : publicKey = List.replicate publicKeySize 0
  · refine ⟨List.replicate publicKeySize 1, ?_, List.length_replicate⟩
    rw [zero]
    decide
  · exact ⟨List.replicate publicKeySize 0, Ne.symm zero, List.length_replicate⟩

section Leads

variable {lib : Links.Library} {blake2b : Bytes → Bytes → Bytes} {publicKey password : Bytes}
  {passwords : Set Bytes} {info : InterfaceInfo} {port : UInt16}

/-- An advertisement arrives as a whole and is read back. -/
theorem unmarshalBinary_advertisement (free : CollisionFree blake2b publicKey passwords)
    (made : info.Hashed blake2b publicKey) (inUse : info.password ∈ passwords) :
    (advertisement publicKey port info).marshalBinary.take bufferSize =
        (advertisement publicKey port info).marshalBinary ∧
      unmarshalBinary (advertisement publicKey port info).marshalBinary =
        some (advertisement publicKey port info) := by
  have fits : headerLen + info.hash.length ≤ bufferSize :=
    made.hashed ▸ free.fits made.size _ inUse made.short
  constructor
  · rw [List.take_of_length_le]
    rwa [length_marshalBinary made.size]
  · refine unmarshalBinary_marshalBinary made.size ?_
    change info.hash.length < 65536
    simp only [bufferSize, headerLen] at fits
    omega

/-- A beacon leads to calls with exactly the password of the rule behind its hash. -/
theorem leads_iff (free : CollisionFree blake2b publicKey passwords)
    (made : info.Hashed blake2b publicKey) (inUse : info.password ∈ passwords) :
    Leads lib blake2b passwords (advertisement publicKey port info).marshalBinary publicKey
      password ↔ info.password = password := by
  obtain ⟨whole, parsed⟩ :=
    @unmarshalBinary_advertisement blake2b publicKey passwords info port free made inUse
  rw [← whole] at parsed
  obtain ⟨short, size, hashed⟩ := made
  obtain ⟨pin, rfl⟩ : ∃ pin : KeyArray, pin.toList = publicKey :=
    ⟨⟨publicKey.toArray, size⟩, rfl⟩
  constructor
  · intro leads
    -- a node with the same password on its interface calls
    obtain ⟨other, different, otherSize⟩ := exists_publicKey_ne pin.toList
    let own : InterfaceInfo :=
      { info with listen := true, hash := blake2b info.password other }
    let receiver : Receiver := ⟨other, blake2b, fun _ => some own⟩
    have called : receiver.listen true "" (fun _ => [])
          (advertisement pin.toList port info).marshalBinary =
        some (callUrl [] pin.toList own) :=
      (Receiver.listen_eq_some_iff parsed).mpr
        ⟨rfl, rfl, rfl, different.symm, own, rfl, rfl, short, size, hashed.symm, rfl⟩
    have known : ∀ zone, ∀ info ∈ receiver.interfaces zone, info.password ∈ passwords := by
      rintro zone info ⟨⟩
      exact inUse
    obtain ⟨options, dialed, same, -⟩ :=
      leads receiver rfl different otherSize known _ _ _ _ called
    rw [@dialOptions_callUrl lib [] pin own short] at dialed
    cases dialed
    exact same
  · rintro rfl receiver rfl - - known addressed zone host u called
    obtain ⟨-, -, -, -, own, stored, -, ownShort, -, accepted, rfl⟩ :=
      (Receiver.listen_eq_some_iff parsed).mp called
    have agreed : own.password = info.password :=
      free.injective size _ (known zone own stored) _ inUse ownShort short
        (accepted.trans hashed)
    exact ⟨_, dialOptions_callUrl ownShort, agreed, rfl⟩

end Leads

end Uqda.Multicast
