import Uqda.Handshake.Handler
import Uqda.Wire.Query

/-!
# Peering URIs and their options

The part of `links.add` in `src/core/link.go` before the link table is consulted: the
choice of a dialer by scheme and the options in the query of the URI.  `links.listen`
reads three of the options in the same way.

A pinned key is a hexadecimal string that is copied into an array of 32 bytes.  The copy
drops what is beyond the array and leaves zeros where the string is shorter, so the pins
are the keys that were written only if each has the size of a key.
-/

namespace Uqda.Links

open Uqda.Addressing Uqda.Handshake Uqda.Wire

/-! ## URIs -/

/-- `url.URL`.  The parts that are only printed are in `rest`. -/
structure Url where
  scheme : Bytes
  host : Bytes
  rawQuery : Bytes
  rest : String := ""
  deriving DecidableEq

/-- `u.Query()`. -/
def Url.query (u : Url) : Values :=
  parseQuery u.rawQuery

/-- `urlForLinkInfo`. -/
def urlForLinkInfo (u : Url) : Url :=
  { u with rawQuery := [] }

/-- The functions of the standard library that read URIs and options.  A duration is in
nanoseconds, and `parseIP` says whether its argument is an IP address. -/
structure Library where
  toLower : Bytes → Bytes
  urlString : Url → String
  parseDuration : Bytes → Option Int
  parseIP : Bytes → Bool
  splitHostPort : Bytes → Option Bytes

/-- The members of `links` that are a `linkProtocol`. -/
inductive Protocol where
  | tcp
  | tls
  | socks
  | unix
  | quic
  | ws
  | wss
  deriving DecidableEq, Repr

/-- The switch in `links.dialerFor`. -/
def dialers : List (Bytes × Protocol) :=
  [(ascii ['t', 'c', 'p'], .tcp),
    (ascii ['t', 'l', 's'], .tls),
    (ascii ['s', 'o', 'c', 'k', 's'], .socks),
    (ascii ['s', 'o', 'c', 'k', 's', 't', 'l', 's'], .socks),
    (ascii ['u', 'n', 'i', 'x'], .unix),
    (ascii ['q', 'u', 'i', 'c'], .quic),
    (ascii ['w', 's'], .ws),
    (ascii ['w', 's', 's'], .wss)]

/-- `links.dialerFor`. -/
def Library.dialerFor (lib : Library) (u : Url) : Except LinkError Protocol :=
  match dialers.lookup (lib.toLower u.scheme) with
  | some protocol => .ok protocol
  | none => .error .unrecognisedSchema

/-! ## Options -/

/-- `minimumBackoffLimit`. -/
def minimumBackoffLimit : Int := 5 * 10 ^ 9

/-- `defaultBackoffLimit`. -/
def defaultBackoffLimit : Int := 10 ^ 9 <<< 12

/-- `linkOptions`. -/
structure DialOptions extends PeerOptions where
  tlsSNI : Bytes
  maxBackoff : Int

/-- The keys of the options. -/
inductive OptionKey where
  | key
  | priority
  | password
  | secure
  | maxbackoff
  | sni
  deriving DecidableEq, Repr

/-- The option as it is written in a URI. -/
def OptionKey.name : OptionKey → Bytes
  | .key => ascii ['k', 'e', 'y']
  | .priority => ascii ['p', 'r', 'i', 'o', 'r', 'i', 't', 'y']
  | .password => ascii ['p', 'a', 's', 's', 'w', 'o', 'r', 'd']
  | .secure => ascii ['s', 'e', 'c', 'u', 'r', 'e']
  | .maxbackoff => ascii ['m', 'a', 'x', 'b', 'a', 'c', 'k', 'o', 'f', 'f']
  | .sni => ascii ['s', 'n', 'i']

theorem OptionKey.name_ne_of_ne {first second : OptionKey} (different : first ≠ second) :
    first.name ≠ second.name := by
  revert different
  cases first <;> cases second <;> decide

/-- `if p := u.Query().Get(key); p != ""`: an option that is missing or empty keeps the
default. -/
def OptionKey.read {α : Type} (option : OptionKey) (values : Values) (default : α)
    (parse : Bytes → Except LinkError α) : Except LinkError α :=
  if values.get option.name = [] then .ok default else parse (values.get option.name)

/-- `strconv.ParseUint(p, 10, 8)`. -/
def parsePriority (p : Bytes) : Except LinkError UInt8 :=
  match parseDecimal 255 p with
  | some priority => .ok (UInt8.ofNat priority)
  | none => .error .priorityInvalid

/-- A password is at most `blake2b.Size` bytes long. -/
def parsePassword (p : Bytes) : Except LinkError Bytes :=
  if p.length > 64 then .error .passwordInvalid else .ok p

/-- The policy: whether a transcript-bound handshake is required. -/
def parseSecure (p : Bytes) : Except LinkError Bool :=
  if p = ascii ['r', 'e', 'q', 'u', 'i', 'r', 'e', 'd'] then .ok true
  else if p = ascii ['o', 'p', 'p', 'o', 'r', 't', 'u', 'n', 'i', 's', 't', 'i', 'c'] then .ok false
  else .error .securityInvalid

/-- The options of peers and listeners, in the order in which they are read. -/
def parseLinkOptions (values : Values) : Except LinkError LinkOptions := do
  let priority ← OptionKey.priority.read values 0 parsePriority
  let password ← OptionKey.password.read values [] parsePassword
  let requireSecure ← OptionKey.secure.read values false parseSecure
  return ⟨password, priority, requireSecure⟩

/-- One iteration of the loop over the pinned keys. -/
def pinKey (pinned : List KeyArray) (pubkey : Bytes) : Except LinkError (List KeyArray) :=
  match hexDecode pubkey with
  | none => .error .pinnedKeyInvalid
  | some sigPub => .ok (pinned.insert (copyAt (Vector.replicate publicKeySize 0) 0 sigPub))

/-- The value of `maxbackoff`: a duration that is not too short. -/
def Library.parseMaxBackoff (lib : Library) (p : Bytes) : Except LinkError Int :=
  match lib.parseDuration p with
  | some duration =>
      if duration < minimumBackoffLimit then .error .maxBackoffInvalid else .ok duration
  | none => .error .maxBackoffInvalid

/-- The server name for TLS: the option unless it is an IP address, or else the host. -/
def Library.tlsSNI (lib : Library) (u : Url) : Bytes :=
  let sni := u.query.get OptionKey.sni.name
  if sni ≠ [] ∧ !lib.parseIP sni then sni
  else
    match lib.splitHostPort u.host with
    | some host => if lib.parseIP host then [] else host
    | none => []

/-- The options of `links.add`. -/
def Library.dialOptions (lib : Library) (u : Url) : Except LinkError DialOptions := do
  let pinned ← (u.query.all OptionKey.key.name).foldlM pinKey []
  let options ← parseLinkOptions u.query
  let maxBackoff ← OptionKey.maxbackoff.read u.query defaultBackoffLimit lib.parseMaxBackoff
  return { options with pinnedEd25519Keys := pinned, tlsSNI := lib.tlsSNI u, maxBackoff }

/-- The key of a URI in the link table. -/
def Library.linkInfo (lib : Library) (u : Url) (sintf : String) : LinkInfo :=
  ⟨lib.urlString (urlForLinkInfo u), sintf⟩

/-- `links.add`.  The options of the dial goroutine that it starts are returned beside
the state. -/
def State.addPeer (lib : Library) (state : State) (u : Url) (sintf : String)
    (linkType : LinkType) : Except LinkError DialOptions × State :=
  match lib.dialerFor u, lib.dialOptions u with
  | .error err, _ => (.error err, state)
  | .ok _, .error err => (.error err, state)
  | .ok _, .ok options =>
      match state.table.add (lib.linkInfo u sintf) linkType with
      | .error err => (.error err, state)
      | .ok (table, task) => (.ok options, state.spawn table (.running task))

/-! ## What is rejected -/

theorem OptionKey.read_eq_error {α : Type} {option : OptionKey} {values : Values} {default : α}
    {parse : Bytes → Except LinkError α} {err : LinkError}
    (failed : option.read values default parse = .error err) :
    parse (values.get option.name) = .error err := by
  unfold OptionKey.read at failed
  split at failed
  · cases failed
  · exact failed

theorem parsePriority_eq_error {p : Bytes} {err : LinkError}
    (failed : parsePriority p = .error err) : err = .priorityInvalid := by
  unfold parsePriority at failed
  split at failed <;> cases failed
  rfl

theorem parsePassword_eq_error {p : Bytes} {err : LinkError}
    (failed : parsePassword p = .error err) : err = .passwordInvalid := by
  unfold parsePassword at failed
  split at failed <;> cases failed
  rfl

theorem parseSecure_eq_error {p : Bytes} {err : LinkError}
    (failed : parseSecure p = .error err) : err = .securityInvalid := by
  unfold parseSecure at failed
  split at failed
  · cases failed
  · split at failed <;> cases failed
    rfl

theorem Library.parseMaxBackoff_eq_error {lib : Library} {p : Bytes} {err : LinkError}
    (failed : lib.parseMaxBackoff p = .error err) : err = .maxBackoffInvalid := by
  unfold Library.parseMaxBackoff at failed
  split at failed
  · split at failed <;> cases failed
    rfl
  · cases failed
    rfl

theorem bind_eq_error {α β : Type} {first : Except LinkError α} {second : α → Except LinkError β}
    {err : LinkError} (failed : (first >>= second) = .error err) :
    first = .error err ∨ ∃ value, first = .ok value ∧ second value = .error err := by
  cases first with
  | error other =>
      cases failed
      exact .inl rfl
  | ok value => exact .inr ⟨value, rfl, failed⟩

/-- Each option that peers and listeners share has an error of its own. -/
theorem parseLinkOptions_eq_error {values : Values} {err : LinkError}
    (failed : parseLinkOptions values = .error err) :
    err = .priorityInvalid ∨ err = .passwordInvalid ∨ err = .securityInvalid := by
  unfold parseLinkOptions at failed
  rcases bind_eq_error failed with priority | ⟨_, -, failed⟩
  · exact .inl (parsePriority_eq_error (OptionKey.read_eq_error priority))
  rcases bind_eq_error failed with password | ⟨_, -, failed⟩
  · exact .inr (.inl (parsePassword_eq_error (OptionKey.read_eq_error password)))
  rcases bind_eq_error failed with secure | ⟨_, -, failed⟩
  · exact .inr (.inr (parseSecure_eq_error (OptionKey.read_eq_error secure)))
  · cases failed

/-! ## Pins -/

section Pins

variable {values : List Bytes} {pinned result : List KeyArray}

/-- The array that a pinned key is copied into. -/
def pinOf (sigPub : Bytes) : KeyArray :=
  copyAt (Vector.replicate publicKeySize 0) 0 sigPub

theorem pinOf_toList (key : KeyArray) : pinOf key.toList = key :=
  copyAt_zero_toList ..

/-- The loop stops at the first value that is no hexadecimal string. -/
theorem foldlM_pinKey_eq_error_iff {err : LinkError} :
    values.foldlM pinKey pinned = .error err ↔
      err = .pinnedKeyInvalid ∧ ∃ value ∈ values, hexDecode value = none := by
  induction values generalizing pinned with
  | nil => simp [pure, Except.pure]
  | cons value values ih =>
      cases decoded : hexDecode value with
      | none => simp [pinKey, decoded, bind, Except.bind, eq_comm]
      | some sigPub => simp [pinKey, decoded, bind, Except.bind, ih]

/-- The pins are the copies of what the values decode to. -/
theorem mem_foldlM_pinKey_iff (parsed : values.foldlM pinKey pinned = .ok result)
    {pin : KeyArray} :
    pin ∈ result ↔
      pin ∈ pinned ∨ ∃ value ∈ values, ∃ sigPub, hexDecode value = some sigPub ∧
        pinOf sigPub = pin := by
  induction values generalizing pinned with
  | nil =>
      cases parsed
      simp
  | cons value values ih =>
      obtain ⟨next, pinnedNext, rest⟩ := bind_eq_ok_iff.mp parsed
      cases decoded : hexDecode value with
      | none => simp [pinKey, decoded] at pinnedNext
      | some sigPub =>
          simp only [pinKey, decoded, Except.ok.injEq] at pinnedNext
          subst pinnedNext
          rw [ih rest, List.mem_insert_iff]
          simp only [List.exists_mem_cons_iff, decoded, Option.some.injEq, exists_eq_left']
          rw [or_assoc, ← pinOf, eq_comm, or_left_comm]

/-- Pins of the right size are the keys that were written. -/
theorem exists_pin_iff (parsed : values.foldlM pinKey [] = .ok result)
    (sizes : ∀ value ∈ values, ∀ sigPub, hexDecode value = some sigPub →
      sigPub.length = publicKeySize) {key : Bytes} (size : key.length = publicKeySize) :
    (∃ pin ∈ result, pin.toList = key) ↔ ∃ value ∈ values, hexDecode value = some key := by
  obtain ⟨array, rfl⟩ : ∃ array : KeyArray, array.toList = key := ⟨⟨key.toArray, size⟩, rfl⟩
  constructor
  · rintro ⟨pin, listed, same⟩
    have pinned : pin = array := Vector.toList_inj.mp same
    subst pinned
    rcases (mem_foldlM_pinKey_iff parsed).mp listed with
      none | ⟨value, written, sigPub, decoded, copied⟩
    · cases none
    · obtain ⟨whole, rfl⟩ : ∃ whole : KeyArray, whole.toList = sigPub :=
        ⟨⟨sigPub.toArray, sizes value written sigPub decoded⟩, rfl⟩
      rw [pinOf_toList] at copied
      exact ⟨value, written, copied ▸ decoded⟩
  · rintro ⟨value, written, decoded⟩
    exact ⟨array, (mem_foldlM_pinKey_iff parsed).mpr
      (.inr ⟨value, written, array.toList, decoded, pinOf_toList array⟩), rfl⟩

theorem pinned_ne_nil (parsed : values.foldlM pinKey [] = .ok result) (listed : values ≠ []) :
    result ≠ [] := by
  obtain ⟨value, rest, rfl⟩ := List.exists_cons_of_ne_nil listed
  cases decoded : hexDecode value with
  | none =>
      have failed : (value :: rest).foldlM pinKey [] = .error .pinnedKeyInvalid :=
        foldlM_pinKey_eq_error_iff.mpr ⟨rfl, value, List.mem_cons_self, decoded⟩
      rw [failed] at parsed
      cases parsed
  | some sigPub =>
      exact List.ne_nil_of_mem ((mem_foldlM_pinKey_iff parsed).mpr
        (.inr ⟨value, List.mem_cons_self, sigPub, decoded, rfl⟩))

end Pins

/-! ## Adding a peer -/

section AddPeer

variable {lib : Library} {state : State} {u : Url} {sintf : String} {linkType : LinkType}

/-- The pins are read first, and nothing else fails with their error. -/
theorem Library.dialOptions_eq_pinnedKeyInvalid_iff :
    lib.dialOptions u = .error .pinnedKeyInvalid ↔
      ∃ value ∈ u.query.all OptionKey.key.name, hexDecode value = none := by
  constructor
  · intro failed
    rcases bind_eq_error failed with pins | ⟨pinned, -, failed⟩
    · exact (foldlM_pinKey_eq_error_iff.mp pins).2
    rcases bind_eq_error failed with shared | ⟨options, -, failed⟩
    · rcases parseLinkOptions_eq_error shared with other | other | other <;> cases other
    rcases bind_eq_error failed with backoff | ⟨maxBackoff, -, failed⟩
    · cases lib.parseMaxBackoff_eq_error (OptionKey.read_eq_error backoff)
    · cases failed
  · intro undecodable
    have pins : (u.query.all OptionKey.key.name).foldlM pinKey [] = .error .pinnedKeyInvalid :=
      foldlM_pinKey_eq_error_iff.mpr ⟨rfl, undecodable⟩
    rw [Library.dialOptions, pins]
    rfl

theorem Library.pinned_of_dialOptions {options : DialOptions}
    (parsed : lib.dialOptions u = .ok options) :
    (u.query.all OptionKey.key.name).foldlM pinKey [] = .ok options.pinnedEd25519Keys := by
  obtain ⟨pinned, pins, parsed⟩ := bind_eq_ok_iff.mp parsed
  obtain ⟨shared, -, parsed⟩ := bind_eq_ok_iff.mp parsed
  obtain ⟨maxBackoff, -, parsed⟩ := bind_eq_ok_iff.mp parsed
  cases parsed
  exact pins

/-- A peer is added if its scheme is known, its options are valid and its key is free. -/
theorem State.addPeer_eq_ok_iff {options : DialOptions} :
    (state.addPeer lib u sintf linkType).1 = .ok options ↔
      (∃ protocol, lib.dialerFor u = .ok protocol) ∧ lib.dialOptions u = .ok options ∧
        state.table.stored (lib.linkInfo u sintf) = none := by
  unfold State.addPeer Table.add
  cases lib.dialerFor u <;> cases lib.dialOptions u <;>
    cases state.table.stored (lib.linkInfo u sintf) <;> simp

/-- A peer that is rejected leaves everything as it was. -/
theorem State.addPeer_of_error {err : LinkError}
    (failed : (state.addPeer lib u sintf linkType).1 = .error err) :
    (state.addPeer lib u sintf linkType).2 = state := by
  unfold State.addPeer Table.add at failed ⊢
  cases dialer : lib.dialerFor u <;> cases parsed : lib.dialOptions u <;>
    cases stored : state.table.stored (lib.linkInfo u sintf) <;> simp_all

/-- A peer that is added makes the step of the link table. -/
theorem State.advance_of_addPeer {options : DialOptions}
    (added : (state.addPeer lib u sintf linkType).1 = .ok options) :
    state.advance (.add (lib.linkInfo u sintf) linkType) =
      some (state.addPeer lib u sintf linkType).2 := by
  obtain ⟨⟨protocol, dialer⟩, parsed, absent⟩ := State.addPeer_eq_ok_iff.mp added
  simp [State.advance, State.addPeer, Table.add, dialer, parsed, absent]

theorem State.addPeer_pinnedKeyInvalid_iff :
    (state.addPeer lib u sintf linkType).1 = .error .pinnedKeyInvalid ↔
      (∃ protocol, lib.dialerFor u = .ok protocol) ∧
        ∃ value ∈ u.query.all OptionKey.key.name, hexDecode value = none := by
  rw [← lib.dialOptions_eq_pinnedKeyInvalid_iff]
  unfold State.addPeer Library.dialerFor Table.add
  cases dialers.lookup (lib.toLower u.scheme) <;> cases lib.dialOptions u <;>
    cases state.table.stored (lib.linkInfo u sintf) <;> simp

/-- The pins are exactly the keys that were written, and a value that is not the key of
a node is rejected, for a URI whose values all are such keys and for a URI of a known
scheme with a value that is no hexadecimal string.  These are the only cases: any other
size is accepted and pins a key that was not written. -/
theorem pins_exact_iff (lib : Library) (state : State) (u : Url) (sintf : String)
    (linkType : LinkType) :
    ((∀ options, (state.addPeer lib u sintf linkType).1 = .ok options →
        u.query.all OptionKey.key.name ≠ [] →
        ∀ (admission : Admission) (remoteMeta : VersionMetadata),
          remoteMeta.publicKey.length = publicKeySize →
          verifyTLSPeerIdentity admission.conn remoteMeta.publicKey = .ok () →
          ((admission.finish options.toPeerOptions true remoteMeta).rejection ≠ some .notPinned ↔
            ∃ value ∈ u.query.all OptionKey.key.name,
              hexDecode value = some remoteMeta.publicKey)) ∧
      ((∃ value ∈ u.query.all OptionKey.key.name,
          ∀ key, hexDecode value = some key → key.length ≠ publicKeySize) →
        state.addPeer lib u sintf linkType = (.error .pinnedKeyInvalid, state))) ↔
    ((∀ value ∈ u.query.all OptionKey.key.name,
        ∃ key, hexDecode value = some key ∧ key.length = publicKeySize) ∨
      ((∃ protocol, lib.dialerFor u = .ok protocol) ∧
        ∃ value ∈ u.query.all OptionKey.key.name, hexDecode value = none)) := by
  constructor
  · rintro ⟨-, rejected⟩
    by_cases whole : ∀ value ∈ u.query.all OptionKey.key.name,
        ∃ key, hexDecode value = some key ∧ key.length = publicKeySize
    · exact .inl whole
    · push Not at whole
      exact .inr (State.addPeer_pinnedKeyInvalid_iff.mp (congrArg Prod.fst (rejected whole)))
  · rintro (whole | known)
    · refine ⟨fun options added listed admission remoteMeta size identity => ?_, ?_⟩
      · have pins := lib.pinned_of_dialOptions (State.addPeer_eq_ok_iff.mp added).2.1
        rw [Ne, Admission.finish_notPinned_iff identity, pinned_iff size,
          or_iff_right (pinned_ne_nil pins listed)]
        refine exists_pin_iff pins (fun value written sigPub decoded => ?_) size
        obtain ⟨key, decodedKey, keySize⟩ := whole value written
        cases decoded.symm.trans decodedKey
        exact keySize
      · rintro ⟨value, written, wrong⟩
        obtain ⟨key, decoded, size⟩ := whole value written
        exact absurd size (wrong key decoded)
    · have failed : (state.addPeer lib u sintf linkType).1 = .error .pinnedKeyInvalid :=
        State.addPeer_pinnedKeyInvalid_iff.mpr known
      refine ⟨fun options added => ?_, fun _ => ?_⟩
      · rw [failed] at added
        cases added
      · exact Prod.ext failed (State.addPeer_of_error failed)

end AddPeer

/-- A library that changes no scheme and knows no duration and no address. -/
def plainLibrary : Library where
  toLower := id
  urlString _ := ""
  parseDuration _ := none
  parseIP _ := false
  splitHostPort _ := none

/-- `tcp://?key=aa`. -/
def shortPinUrl : Url where
  scheme := ascii ['t', 'c', 'p']
  host := []
  rawQuery := ascii ['k', 'e', 'y', '=', 'a', 'a']

/-- A pin of one byte is accepted, and it admits the key that continues it with zeros. -/
theorem shortPin_admits :
    shortPinUrl.query.all OptionKey.key.name = [ascii ['a', 'a']] ∧
      hexDecode (ascii ['a', 'a']) = some [0xaa] ∧
        ∃ options, (State.init.addPeer plainLibrary shortPinUrl "" .persistent).1 = .ok options ∧
          (Admission.finish ⟨.persistent, false, .other, []⟩ options.toPeerOptions true
            { publicKey := 0xaa :: List.replicate 31 0 }).rejection = none := by
  refine ⟨by decide, by decide, _, rfl, ?_⟩
  decide

end Uqda.Links
