import Attestation.Json.Basic

/-!
# Settings documents

The values of the text format in which settings are kept, and how the tables of a document grow
while it is read line by line.

## Main definitions

* `Toml.Value`: texts, truth values, arrays and tables. No setting is anything else.
* `Toml.Origin`: how a table came to be, which decides how it may still grow.
* `Toml.Entries.put`: the entries with one more, under a dotted name.
* `Toml.Entries.openTable`: the entries with a table that a header names.
* `Toml.Value.toJson`: the value without the origins of its tables.
-/

namespace Attestation.Toml

/-- How a table came to be. -/
inductive Origin where
  /-- A header names it. -/
  | header
  /-- A header names a table inside it. -/
  | passed
  /-- A dotted name leads through it. -/
  | dotted
  /-- It is written in braces and complete. -/
  | inline
  deriving DecidableEq, Repr, Inhabited

/-- A value. -/
inductive Value where
  | text (value : String)
  | flag (value : Bool)
  | array (items : List Value)
  | table (origin : Origin) (entries : List (String × Value))
  deriving Repr, Inhabited

/-- The named values of a table. -/
abbrev Entries := List (String × Value)

/-- A name with the names of the tables that lead to it. -/
structure Key where
  path : List String
  name : String
  deriving DecidableEq, Repr, Inhabited

namespace Entries

/-- The entries with what `change` makes of the value of a name, where there may be none. -/
def alter (name : String) (change : Option Value → Option Value) : Entries → Option Entries
  | [] => (change none).map fun value => [(name, value)]
  | (other, old) :: more =>
      if other = name then (change (some old)).map fun value => (name, value) :: more
      else (alter name change more).map ((other, old) :: ·)

/-- Changes the table that names lead to and makes the tables that are missing on the way. A
table in braces does not grow, and dotted names do not lead through a table with a header. -/
def descend (dotted : Bool) (change : Entries → Option Entries) : List String → Entries →
    Option Entries
  | [], entries => change entries
  | name :: path, entries =>
      entries.alter name fun
        | none =>
            (descend dotted change path []).map (.table (if dotted then .dotted else .passed))
        | some (.table origin inner) =>
            if origin = .inline || dotted && origin = .header then none
            else (descend dotted change path inner).map (.table origin)
        | some _ => none

/-- The entries with one more. No name is given twice. -/
def put (key : Key) (value : Value) (entries : Entries) : Option Entries :=
  entries.descend true (alter key.name fun old => if old.isNone then some value else none)
    key.path

/-- The entries with the table of a header. A table has one header at most, which may come
behind those of tables inside it. -/
def openTable (key : Key) (entries : Entries) : Option Entries :=
  entries.descend false (alter key.name fun
    | none => some (.table .header [])
    | some (.table .passed inner) => some (.table .header inner)
    | some _ => none) key.path

end Entries

namespace Value

mutual

/-- The value without the origins of its tables. -/
def toJson : Value → Json
  | .text value => .string value
  | .flag value => .bool value
  | .array items => .array (itemsToJson items)
  | .table _ entries => .object (entriesToJson entries)

/-- `toJson` for the items of an array. -/
def itemsToJson : List Value → List Json
  | [] => []
  | item :: more => toJson item :: itemsToJson more

/-- `toJson` for the entries of a table. -/
def entriesToJson : List (String × Value) → List (String × Json)
  | [] => []
  | (name, value) :: more => (name, toJson value) :: entriesToJson more

end

end Value

end Attestation.Toml
