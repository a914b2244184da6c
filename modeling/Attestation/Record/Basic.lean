import Attestation.Json.Basic
import Attestation.Text.Split

/-!
# Type records

The normalised description of one attestation type: its documentation and its structs. Every
generator works from such a record.

## Main definitions

* `Member`: a member of a struct.
* `StructRecord`: a struct.
* `TypeRecord`: an attestation type.
* `AbiDefinitions`: the shapes of its messages, read from a compiled contract.

## Design notes

A record is what is left of an interface once it has been checked: it names neither the file
nor the compiler, and is all that is kept between two commands.
-/

namespace Attestation

/-- A member of a struct. -/
structure Member where
  name : String
  /-- The type as the compiler writes it. -/
  type : String
  /-- The type without its namespace. -/
  typeSimple : String
  comment : String
  deriving DecidableEq, Repr, Inhabited

/-- The part of a type behind its namespace. -/
def simpleType (type : String) : String := Text.lastPiece '.' type

/-- A struct. -/
structure StructRecord where
  name : String
  description : String
  /-- The text above the struct in generated documentation. -/
  above : String
  /-- The text below the struct in generated documentation. -/
  below : String
  /-- The documentation as it was written. -/
  fullComment : Option String
  /-- The members in the order of their declaration. -/
  params : List Member
  deriving DecidableEq, Repr, Inhabited

/-- The shapes of the request, the response and the proof of an attestation type. -/
structure AbiDefinitions where
  request : Json
  response : Json
  proof : Json
  deriving Repr, Inhabited

/-- An attestation type. -/
structure TypeRecord where
  name : String
  /-- The documentation as it was written. -/
  fullComment : Option String
  description : String
  verification : String
  /-- The policy for the lowest used timestamp. -/
  lut : String
  proof : StructRecord
  request : StructRecord
  response : StructRecord
  requestBody : StructRecord
  responseBody : StructRecord
  /-- The further structs of the request, in the order of their declaration. -/
  requestStructs : List StructRecord
  /-- The further structs of the response, in the order of their declaration. -/
  responseStructs : List StructRecord
  requestAbi : Option Json
  responseAbi : Option Json
  proofAbi : Option Json
  deriving Repr, Inhabited

/-- The record with the shapes of its messages. -/
def TypeRecord.withAbis (record : TypeRecord) (abis : AbiDefinitions) : TypeRecord :=
  { record with
    requestAbi := some abis.request
    responseAbi := some abis.response
    proofAbi := some abis.proof }

end Attestation
