import Mathlib.Logic.Basic

/-!
# Decoding JSON values into records

What `json.Unmarshal` does with a value that is given a record to fill: a record type is
its name and the fields that a key can set.  A member whose key is no field is skipped,
and of two members with one key the last is kept.  A value of the wrong kind leaves its
field alone and is reported when all members have been read, so that a record is filled
as far as possible also where decoding fails.

The value `null` sets no field.  Given a pointer to a pointer it sets the inner pointer to
nil, and that is the only value which does.
-/

namespace Uqda.Wire

/-- A JSON value.  Numbers are kept as text and members in the order of the text. -/
inductive Json where
  | null
  | bool (value : Bool)
  | number (text : String)
  | string (text : String)
  | array (elements : List Json)
  | object (members : List (String × Json))

/-- The name of a kind of values in errors. -/
def Json.kind : Json → String
  | .null => "null"
  | .bool _ => "bool"
  | .number _ => "number"
  | .string _ => "string"
  | .array _ => "array"
  | .object _ => "object"

variable {σ : Type}

/-- A field of a record: the key of its tag, its type as errors name it, and how a value is
stored in it.  A value of the wrong kind has no result. -/
structure Field (σ : Type) where
  key : String
  type : String
  store : σ → Json → Option σ

/-- A field of type `string`. -/
def stringField (key : String) (write : σ → String → σ) : Field σ where
  key := key
  type := "string"
  store
    | record, .string text => some (write record text)
    | record, .null => some record
    | _, _ => none

/-- A field of type `bool`. -/
def boolField (key : String) (write : σ → Bool → σ) : Field σ where
  key := key
  type := "bool"
  store
    | record, .bool value => some (write record value)
    | record, .null => some record
    | _, _ => none

/-- A field of type `json.RawMessage`, which takes any value and also `null`. -/
def rawField (key : String) (write : σ → Json → σ) : Field σ where
  key := key
  type := "json.RawMessage"
  store record value := some (write record value)

/-- A record type. -/
structure RecordType (σ : Type) where
  package : String
  name : String
  fields : List (Field σ)

/-- The field that a key sets: one of the same name, or else one that differs in case. -/
def RecordType.field (type : RecordType σ) (equalFold : String → String → Bool) (key : String) :
    Option (Field σ) :=
  (type.fields.find? fun field => field.key == key).or
    (type.fields.find? fun field => equalFold field.key key)

/-- One member of an object.  Only the first error is kept. -/
def RecordType.member (type : RecordType σ) (equalFold : String → String → Bool)
    (decoded : σ × Option String) (member : String × Json) : σ × Option String :=
  match type.field equalFold member.1 with
  | none => decoded
  | some field =>
      match field.store decoded.1 member.2 with
      | some record => (record, decoded.2)
      | none =>
          (decoded.1, decoded.2.or (some ("json: cannot unmarshal " ++ member.2.kind ++
            " into Go struct field " ++ type.name ++ "." ++ field.key ++ " of type " ++
            field.type)))

/-- `json.Unmarshal(value, &record)`: the record afterwards and the error. -/
def RecordType.unmarshal (type : RecordType σ) (equalFold : String → String → Bool) (record : σ) :
    Json → σ × Option String
  | .object members => members.foldl (type.member equalFold) (record, none)
  | .null => (record, none)
  | value =>
      (record, some ("json: cannot unmarshal " ++ value.kind ++ " into Go value of type " ++
        type.package ++ "." ++ type.name))

/-- `json.Unmarshal(value, &pointer)` for a pointer to a record. -/
def RecordType.unmarshalPointer (type : RecordType σ) (equalFold : String → String → Bool)
    (record : σ) : Json → Option σ × Option String
  | .null => (none, none)
  | value =>
      let (record, err) := type.unmarshal equalFold record value
      (some record, err)

section Unmarshal

variable {type : RecordType σ} {equalFold : String → String → Bool} {record : σ} {value : Json}

theorem RecordType.unmarshalPointer_of_ne_null (present : value ≠ .null) :
    type.unmarshalPointer equalFold record value =
      (some (type.unmarshal equalFold record value).1,
        (type.unmarshal equalFold record value).2) := by
  cases value with
  | null => exact absurd rfl present
  | bool | number | string | array | object => rfl

/-- Only `null` leaves a nil pointer. -/
theorem RecordType.unmarshalPointer_eq_none_iff :
    ((type.unmarshalPointer equalFold record value).2 = none ∧
      (type.unmarshalPointer equalFold record value).1 = none) ↔ value = .null := by
  by_cases null : value = .null
  · simp [null, RecordType.unmarshalPointer]
  · simp [null, RecordType.unmarshalPointer_of_ne_null]

end Unmarshal

end Uqda.Wire
