import Attestation.Failure
import Attestation.Record.Basic
import Attestation.Text.Comment

/-!
# Properties of DTO classes

A struct member as a property with its documentation, validators and an example.

## Main definitions

* `Dto.validators`: the decorators that validate a value of a type.
* `Dto.example?`: a literal of a type.
* `Dto.Field`: a property.
* `Dto.Field.ofMember`: the property for a struct member.

## Design notes

A property is a list of lines above a name with a type.  The validators depend on the type
alone, and the example also on the name of the member, since some members are known
identifiers.
-/

namespace Attestation.Dto

/-- The source whose identifier examples show. -/
def exampleSource : String := "BTC"

/-- A word of zeros. -/
def zeroWord : String := "0x" ++ String.ofList (List.replicate 64 '0')

/-- The options of a decorator that validates each item of an array. -/
def eachOption (each : Bool) : String := if each then "\x7beach: true\x7d" else ""

/-- A decorator that applies a validator class. -/
def applied (validator : String) (each : Bool) : String :=
  if each then "@Validate(" ++ validator ++ ", " ++ eachOption each ++ ")"
  else "@Validate(" ++ validator ++ ")"

/-- The decorators for a value of the type, or for each item when `each` is set. -/
def validators (attestationType : String) (each : Bool) : MemberType → List String
  | .uint _ => [applied "IsUnsignedIntLike" each]
  | .int _ => [applied "IsSignedIntLike" each]
  | .bool => ["@IsBoolean(" ++ eachOption each ++ ")"]
  | .bytes (some 32) => [applied "IsHash32" each]
  | .bytes _ => [applied "Is0xHex" each]
  | .byte => [applied "Is0xHex" each]
  | .address => [applied "IsEVMAddress" each]
  | .string => ["@IsString(" ++ eachOption each ++ ")"]
  | .struct path =>
      ["@ValidateNested(" ++ eachOption each ++ ")",
        "@Type(() => " ++ (MemberType.struct path).dtoType attestationType ++ ")",
        "@IsDefined(" ++ eachOption each ++ ")"]
      ++ (if each then [] else ["@IsNotEmptyObject()"])
      ++ ["@IsObject(" ++ eachOption each ++ ")"]
  | .array element _ => validators attestationType true element

/-- A text between double quotes, as it is. -/
def inQuotes (s : String) : String := "\"" ++ s ++ "\""

/-- A literal for a value of the type; a struct has none, and an array that of its innermost
element. -/
def example? : MemberType → Option String
  | .uint _ => some (inQuotes "123")
  | .int _ => some (inQuotes "123")
  | .bool => some "true"
  | .bytes (some 32) => some (inQuotes zeroWord)
  | .bytes _ => some (inQuotes "0x1234abcd")
  | .address => some (inQuotes "0x5d4BEB38B6b71aaF6e30D0F9FeB6e21a7Ac40b3a")
  | .string => some (inQuotes "Example string")
  | .byte => some (inQuotes "0x12")
  | .struct _ => none
  | .array element _ => example? element

/-- The name whose word is the example of an identifying member. -/
def identifiedName? (attestationType memberName : String) : Option String :=
  if memberName = "attestationType" then some attestationType
  else if memberName = "sourceId" then some exampleSource
  else none

/-- The example for a member of the given name and type. Arrays show one element in brackets,
and identifiers show a word that they can have. -/
def memberExample? (attestationType memberName : String) (type : MemberType) :
    Except Bytes32.TooLong (Option String) :=
  match type with
  | .array _ _ => .ok ((example? type.innermost).map fun e => "[" ++ e ++ "]")
  | .bytes (some 32) =>
      match identifiedName? attestationType memberName with
      | some name => (Bytes32.encode name).map fun word => some (inQuotes word)
      | none => .ok (example? type)
  | _ => .ok (example? type)

/-- A property of a DTO class. -/
structure Field where
  name : String
  type : String
  /-- Documentation and decorators, line by line. -/
  annotations : List String
  deriving DecidableEq, Repr, Inhabited

/-- A comment as it stands in a template literal, which a backtick would end. -/
def descriptionOf (comment : String) : String :=
  String.ofList (comment.toList.map fun c => if c = '`' then '\'' else c)

/-- The decorator that describes a property. -/
def propertyDecorator (comment : String) (shown : Option String) : String :=
  "@ApiProperty(\x7bdescription: `" ++ descriptionOf comment ++ "`"
    ++ (match shown with
      | some e => ", example: " ++ e
      | none => "")
    ++ "\x7d)"

/-- The property for a struct member. -/
def Field.ofMember (attestationType : String) (m : Member) : Except Failure Field := do
  let type ← inContext s!"Member '{m.name}' has an unsupported type"
    (orFail .memberType (MemberType.parse m.type))
  let shown ← orFail .encoding (memberExample? attestationType m.name type)
  return {
    name := m.name
    type := type.dtoType attestationType
    annotations := Text.docLines m.comment ++ validators attestationType false type
      ++ [propertyDecorator m.comment shown] }

end Attestation.Dto
