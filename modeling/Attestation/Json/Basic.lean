import Attestation.Json.Number

/-!
# Structured data

The values of the data format in which compiler output and generated configurations are kept.

## Main definitions

* `Json`: a value. The fields of an object keep the order in which they were written.
* `Json.merged`: the value with repeated fields merged, the last one winning at the place of
  the first.
* `Json.field?`, `Json.item?`: looking into a value.

## Design notes

A reader keeps repeated fields apart, because some of its callers must refuse them. Code that
takes a value as a whole looks at `merged` values.
-/

namespace Attestation

/-- A value. -/
inductive Json where
  | null
  | bool (value : Bool)
  | number (value : Json.Number)
  | string (value : String)
  | array (items : List Json)
  | object (fields : List (String × Json))
  deriving Repr, BEq, Inhabited

namespace Json

/-- Puts a field behind the others, or in the place of the field of the same name. -/
def putField (fields : List (String × Json)) (name : String) (value : Json) :
    List (String × Json) :=
  match fields with
  | [] => [(name, value)]
  | (other, old) :: more =>
      if other = name then (name, value) :: more else (other, old) :: putField more name value

mutual

/-- The value with repeated fields merged at every depth. -/
def merged : Json → Json
  | .array items => .array (mergedItems items)
  | .object fields => .object (mergedFields [] fields)
  | other => other

/-- `merged` for the items of an array. -/
def mergedItems : List Json → List Json
  | [] => []
  | item :: more => merged item :: mergedItems more

/-- The fields `done` followed by further fields, merged. -/
def mergedFields (done : List (String × Json)) : List (String × Json) → List (String × Json)
  | [] => done
  | (name, value) :: more => mergedFields (putField done name (merged value)) more

end

/-- The value of the field of the given name, if this is an object that has one. -/
def field? (name : String) : Json → Option Json
  | .object fields => (fields.find? (·.1 = name)).map (·.2)
  | _ => none

/-- The item at a position, if this is an array that has one. -/
def item? (position : Nat) : Json → Option Json
  | .array items => items[position]?
  | _ => none

/-- The text, if this is one. -/
def text? : Json → Option String
  | .string s => some s
  | _ => none

end Json

end Attestation
