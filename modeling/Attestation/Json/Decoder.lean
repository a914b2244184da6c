import Attestation.Json.Basic

/-!
# Taking structured data apart

Small readers from a value to data, with which the readers of larger records are built. A
reader gives none for a value of another form.

A record is written as an object, or as the list of its values in the order of its fields,
where values may be missing at the end.

## Main definitions

* `Json.Decoder`: a reader.
* `Json.Record`: the named values of a record.
* `Json.Record.required`, `Json.Record.optional`, `Json.Record.omittable`,
  `Json.Record.defaulted`: the value of a field, by what a missing one means.
-/

namespace Attestation.Json

/-- A reader of values. -/
abbrev Decoder (α : Type) := Json → Option α

/-- Reads a text. -/
def text : Decoder String
  | .string s => some s
  | _ => none

/-- Reads a truth value. -/
def flag : Decoder Bool
  | .bool b => some b
  | _ => none

/-- Reads an array. -/
def list {α : Type} (item : Decoder α) : Decoder (List α)
  | .array items => items.mapM item
  | _ => none

/-- Reads null as the absence of a value. -/
def nullable {α : Type} (value : Decoder α) : Decoder (Option α)
  | .null => some none
  | j => (value j).map some

/-- Reads anything. -/
def any : Decoder Json := fun j => some j.merged

/-- The named values of a record. -/
structure Record where
  /-- The values with the names of their fields. Fields that the record does not have may be
  among them. -/
  fields : List (String × Json)
  /-- Whether the values were listed without names. -/
  positional : Bool

/-- A list of values as the record with fields of the given names. -/
def Record.ofItems (names : List String) (items : List Json) : Option Record :=
  if items.length ≤ names.length then some ⟨names.zip items, true⟩ else none

/-- Reads a record with fields of the given names. An object may have further fields. -/
def record (names : List String) : Decoder Record
  | .object fields => some ⟨fields, false⟩
  | .array items => Record.ofItems names items
  | _ => none

/-- Reads a record with fields of the given names and no others. -/
def closedRecord (names : List String) : Decoder Record
  | .object fields => if fields.all (names.contains ·.1) then some ⟨fields, false⟩ else none
  | j => record names j

namespace Record

/-- The value of a field, absent or there; none when the field is repeated. -/
def only? (r : Record) (name : String) : Option (Option Json) :=
  match r.fields.filter (·.1 = name) with
  | [] => some none
  | [(_, value)] => some (some value)
  | _ => none

/-- A field that must occur. -/
def required {α : Type} (r : Record) (name : String) (value : Decoder α) : Option α :=
  match r.only? name with
  | some (some j) => value j
  | _ => none

/-- A field that stands for `default` when it is missing. -/
def defaulted {α : Type} (r : Record) (name : String) (default : α) (value : Decoder α) :
    Option α :=
  match r.only? name with
  | some (some j) => value j
  | some none => some default
  | none => none

/-- A field that may be null or missing. -/
def omittable {α : Type} (r : Record) (name : String) (value : Decoder α) :
    Option (Option α) :=
  r.defaulted name none (nullable value)

/-- A field that may be null, and missing where fields have names. -/
def optional {α : Type} (r : Record) (name : String) (value : Decoder α) : Option (Option α) :=
  if r.positional then r.required name (nullable value) else r.omittable name value

end Record

end Attestation.Json
