import Attestation.Text.Split

/-!
# Types of struct members

The Solidity types that the members of an attestation struct may have, and what they become in
generated TypeScript.

## Main definitions

* `MemberType`: the types.
* `MemberType.display`: the type as Solidity writes it.
* `MemberType.structName`: the name of a struct type without its namespace.
* `MemberType.plainType`, `MemberType.dtoType`: the type in plain declarations and in DTO
  classes.

## Design notes

Widths are kept as numbers and not as a list of known types, since they come from a compiler
that has checked them.
-/

namespace Attestation

/-- The type of a struct member. -/
inductive MemberType where
  /-- An unsigned integer of so many bits. -/
  | uint (bits : Nat)
  /-- A signed integer of so many bits. -/
  | int (bits : Nat)
  | bool
  /-- Bytes, of a fixed or a varying length. -/
  | bytes (size : Option Nat)
  | address
  | string
  | byte
  /-- An array, of a fixed or a varying length. -/
  | array (element : MemberType) (length : Option Nat)
  /-- A struct, by its qualified name. -/
  | struct (path : String)
  deriving DecidableEq, Repr, Inhabited

namespace MemberType

/-- A length that may be left out. -/
def displayLength : Option Nat → String
  | none => ""
  | some n => toString n

/-- The type as it is written in Solidity. -/
def display : MemberType → String
  | .uint bits => "uint" ++ toString bits
  | .int bits => "int" ++ toString bits
  | .bool => "bool"
  | .bytes size => "bytes" ++ displayLength size
  | .address => "address"
  | .string => "string"
  | .byte => "byte"
  | .array element length => element.display ++ "[" ++ displayLength length ++ "]"
  | .struct path => "struct " ++ path

/-- Whether this is a struct itself. -/
def isStruct : MemberType → Bool
  | .struct _ => true
  | _ => false

/-- The name of a struct without its namespace. -/
def structName : MemberType → Option String
  | .struct path => some (Text.lastPiece '.' path)
  | _ => none

/-- The type in the plain declarations. Numbers and bytes travel as text, and a struct is known
by its simple name. -/
def plainType : MemberType → String
  | .array element _ => "(" ++ element.plainType ++ ")[]"
  | .bool => "boolean"
  | .struct path => Text.lastPiece '.' path
  | _ => "string"

/-- The type in DTO classes, where the name of a struct follows that of the attestation
type. -/
def dtoType (attestationType : String) : MemberType → String
  | .array element _ => element.dtoType attestationType ++ "[]"
  | .bool => "boolean"
  | .struct path => attestationType ++ "_" ++ Text.lastPiece '.' path
  | _ => "string"

/-- The element of an array of arrays, however deep. -/
def innermost : MemberType → MemberType
  | .array element _ => element.innermost
  | other => other

end MemberType

end Attestation
