import Uqda.Wire.Text
import Mathlib.Data.List.Sort

/-!
# Query strings

The form encoding of query strings: pairs of a key and a value, written as `key=value`
with `&` in between, where bytes that are neither letters, digits nor one of `-_.~` are
escaped.  The writer sorts the pairs by key and keeps the order of values with one key.
The reader drops a piece that holds a semicolon or a bad escape.

The values read back for each key are the values written for it, in their order.
-/

namespace Uqda.Wire

open Uqda.Bits

/-! ## Escapes -/

/-- The bytes that are written as they are. -/
def unreserved (byte : UInt8) : Bool :=
  (48 ≤ byte && byte ≤ 57) || (65 ≤ byte && byte ≤ 90) || (97 ≤ byte && byte ≤ 122) ||
    byte == 45 || byte == 95 || byte == 46 || byte == 126

/-- The upper-case digit of a value below sixteen. -/
def hexDigitUpper (value : UInt8) : UInt8 :=
  if value < 10 then value + 48 else value + 55

/-- One byte: a space becomes a plus sign, and a percent sign starts an escape. -/
def escapeByte (byte : UInt8) : List UInt8 :=
  if unreserved byte then [byte]
  else if byte = 32 then [43]
  else [37, hexDigitUpper (byte / 16), hexDigitUpper (byte % 16)]

/-- `url.QueryEscape`. -/
def escape (text : List UInt8) : List UInt8 :=
  text.flatMap escapeByte

/-- The text behind escapes, if each percent sign is followed by two digits. -/
def unescape : List UInt8 → Option (List UInt8)
  | [] => some []
  | 37 :: high :: low :: text =>
      match hexValue high, hexValue low with
      | some first, some second => (unescape text).map fun rest => (first * 16 + second) :: rest
      | _, _ => none
  | byte :: text =>
      if byte = 37 then none
      else (unescape text).map fun rest => (if byte = 43 then 32 else byte) :: rest

/-- The separators of a query: `&`, `;` and `=`. -/
def separator (byte : UInt8) : Bool :=
  byte == 38 || byte == 59 || byte == 61

theorem hexValue_halvesUpper (byte : UInt8) :
    hexValue (hexDigitUpper (byte / 16)) = some (byte / 16) ∧
      hexValue (hexDigitUpper (byte % 16)) = some (byte % 16) := by
  revert byte
  exact forall_octet (by decide +kernel)

theorem unreserved_ne {byte : UInt8} (kept : unreserved byte = true) : byte ≠ 37 ∧ byte ≠ 43 := by
  constructor
  · rintro rfl
    cases kept
  · rintro rfl
    cases kept

theorem unescape_cons {byte : UInt8} (plain : byte ≠ 37) (text : List UInt8) :
    unescape (byte :: text) =
      (unescape text).map fun rest => (if byte = 43 then 32 else byte) :: rest := by
  rw [unescape]
  · rw [if_neg plain]
  · rintro high low tail rfl
    exact absurd rfl plain

theorem unescape_escapeByte (byte : UInt8) (text : List UInt8) :
    unescape (escapeByte byte ++ text) = (unescape text).map fun rest => byte :: rest := by
  unfold escapeByte
  split
  case isTrue kept =>
    obtain ⟨plain, visible⟩ := unreserved_ne kept
    simp [unescape_cons plain, visible]
  case isFalse reserved =>
    split
    case isTrue space =>
      subst space
      simp [unescape_cons (by decide : (43 : UInt8) ≠ 37)]
    case isFalse escaped =>
      obtain ⟨high, low⟩ := hexValue_halvesUpper byte
      simp [unescape, high, low, (hexValue_halves byte).2.2]

@[simp]
theorem unescape_escape (text : List UInt8) : unescape (escape text) = some text := by
  induction text with
  | nil => rfl
  | cons byte text ih =>
      change unescape (escapeByte byte ++ escape text) = _
      rw [unescape_escapeByte, ih]
      rfl

theorem separator_escapeByte (byte : UInt8) :
    (escapeByte byte).all fun written => !separator written := by
  revert byte
  exact forall_octet (by decide +kernel)

/-- Escaped text holds no separator. -/
theorem not_separator_of_mem_escape {text : List UInt8} {byte : UInt8}
    (written : byte ∈ escape text) : separator byte = false := by
  obtain ⟨origin, -, origins⟩ := List.mem_flatMap.mp written
  simpa using List.all_eq_true.mp (separator_escapeByte origin) byte origins

/-! ## Pairs -/

/-- The pairs of a query, in order. -/
abbrev Values := List (List UInt8 × List UInt8)

/-- The values of a key, in order. -/
def Values.all (values : Values) (key : List UInt8) : List (List UInt8) :=
  (values.filter fun pair => pair.1 == key).map Prod.snd

/-- The first value of a key, or nothing. -/
def Values.get (values : Values) (key : List UInt8) : List UInt8 :=
  (values.all key).headD []

/-- One more value of a key. -/
def Values.add (values : Values) (key value : List UInt8) : Values :=
  values ++ [(key, value)]

@[simp]
theorem Values.all_nil (key : List UInt8) : Values.all [] key = [] :=
  rfl

theorem Values.all_cons (pair : List UInt8 × List UInt8) (values : Values) (key : List UInt8) :
    Values.all (pair :: values) key =
      if pair.1 = key then pair.2 :: Values.all values key else Values.all values key := by
  by_cases same : pair.1 = key <;> simp [Values.all, same]

theorem Values.all_add_self (values : Values) (key value : List UInt8) :
    (Values.add values key value).all key = Values.all values key ++ [value] := by
  simp [Values.all, Values.add]

theorem Values.all_add_of_ne {key other : List UInt8} (different : key ≠ other) (values : Values)
    (value : List UInt8) : (Values.add values key value).all other = Values.all values other := by
  simp [Values.all, Values.add, different]

/-- A key and a value with an equals sign between them. -/
def encodePair (pair : List UInt8 × List UInt8) : List UInt8 :=
  escape pair.1 ++ 61 :: escape pair.2

/-- The pair in a piece between two `&`.  A piece without `=` is a key without a value. -/
def parsePair (piece : List UInt8) : Option (List UInt8 × List UInt8) :=
  if 59 ∈ piece then none
  else if piece = [] then none
  else
    match unescape (piece.takeWhile (· != 61)),
        unescape ((piece.dropWhile (· != 61)).drop 1) with
    | some key, some value => some (key, value)
    | _, _ => none

/-- The pairs sorted by key. -/
def Values.sorted (values : Values) : Values :=
  values.insertionSort fun first second => first.1 ≤ second.1

/-- `Values.Encode`: the pairs by key, with `&` between them. -/
def Values.encode (values : Values) : List UInt8 :=
  [(38 : UInt8)].intercalate (values.sorted.map encodePair)

/-- `url.ParseQuery`, which leaves out the pieces that it cannot read. -/
def parseQuery (query : List UInt8) : Values :=
  (query.splitOn 38).filterMap parsePair

theorem parsePair_encodePair (pair : List UInt8 × List UInt8) :
    parsePair (encodePair pair) = some pair := by
  have noEquals : ∀ byte ∈ escape pair.1, (byte != 61) = true := by
    intro byte written
    have plain := not_separator_of_mem_escape written
    simp only [separator, Bool.or_eq_false_iff] at plain
    simp [bne, plain.2]
  have noSemicolon : (59 : UInt8) ∉ encodePair pair := by
    intro written
    simp only [encodePair, List.mem_append, List.mem_cons] at written
    rcases written with inKey | equals | inValue
    · exact absurd (not_separator_of_mem_escape inKey) (by decide)
    · exact absurd equals (by decide)
    · exact absurd (not_separator_of_mem_escape inValue) (by decide)
  have front : (encodePair pair).takeWhile (· != 61) = escape pair.1 := by
    rw [encodePair, List.takeWhile_append_of_pos noEquals]
    simp
  have back : (encodePair pair).dropWhile (· != 61) = 61 :: escape pair.2 := by
    rw [encodePair, List.dropWhile_append_of_pos noEquals]
    simp
  rw [parsePair, if_neg noSemicolon, if_neg (by simp [encodePair]), front, back]
  simp

/-- A query that is written reads back as its pairs, sorted. -/
theorem parseQuery_encode (values : Values) : parseQuery values.encode = values.sorted := by
  unfold parseQuery Values.encode
  cases pairs : values.sorted with
  | nil => rfl
  | cons pair rest =>
      rw [List.splitOn_intercalate]
      · rw [List.filterMap_map]
        have inverse : parsePair ∘ encodePair = some := by
          funext other
          exact parsePair_encodePair other
        rw [inverse, List.filterMap_some]
      · intro piece written
        obtain ⟨other, -, rfl⟩ := List.mem_map.mp written
        simp only [encodePair, List.mem_append, List.mem_cons, not_or]
        refine ⟨fun inKey => ?_, by decide, fun inValue => ?_⟩
        · exact absurd (not_separator_of_mem_escape inKey) (by decide)
        · exact absurd (not_separator_of_mem_escape inValue) (by decide)
      · simp

/-- A pair is inserted in front of the pairs with its key. -/
theorem Values.all_orderedInsert (pair : List UInt8 × List UInt8) (values : Values)
    (key : List UInt8) :
    Values.all (values.orderedInsert (fun first second => first.1 ≤ second.1) pair) key =
      Values.all (pair :: values) key := by
  induction values with
  | nil => rfl
  | cons other values ih =>
      rw [List.orderedInsert_cons]
      split
      case isTrue before => rfl
      case isFalse behind =>
        -- a pair that is passed over has another key
        have different : other.1 ≠ pair.1 := by
          intro same
          exact behind (same ▸ List.le_refl _)
        rw [Values.all_cons, ih]
        by_cases same : pair.1 = key
        · have skipped : other.1 ≠ key := same ▸ different
          simp [Values.all_cons, same, skipped]
        · simp [Values.all_cons, same]

/-- Sorting keeps the values of each key in their order. -/
theorem Values.all_sorted (values : Values) (key : List UInt8) :
    values.sorted.all key = values.all key := by
  induction values with
  | nil => rfl
  | cons pair values ih =>
      change Values.all (List.orderedInsert _ pair (Values.sorted values)) key = _
      rw [Values.all_orderedInsert, Values.all_cons, ih, Values.all_cons]

@[simp]
theorem all_parseQuery_encode (values : Values) (key : List UInt8) :
    (parseQuery values.encode).all key = values.all key := by
  rw [parseQuery_encode, Values.all_sorted]

end Uqda.Wire
