import Attestation.Json.Decoder
import Attestation.Json.Printer
import Attestation.Record.Basic

/-!
# Type records as data

The form in which records are kept in configuration files.

## Main definitions

* `TypeRecord.toJson`, `TypeRecord.ofJson?`: the value for a record, and back.
* `TypeRecord.render`: the text of a configuration file.

## Design notes

A record is written by one command and read by the others, so the two directions stand side by
side.  A field without a value is left out and not written as null; reading a null in its place
gives no value either.
-/

namespace Attestation

/-- A text field. -/
def textField (name value : String) : String × Json := (name, .string value)

/-- A field that is left out when it has no value. -/
def fieldIfAny (name : String) (value : Option Json) : List (String × Json) :=
  match value with
  | some j => [(name, j)]
  | none => []

/-- The value for a member. -/
def Member.toJson (m : Member) : Json :=
  .object [textField "name" m.name, textField "type" m.type,
    textField "typeSimple" m.typeSimple,
    textField "comment" m.comment]

/-- The member that a value describes. -/
def Member.ofJson? : Json.Decoder Member := fun j => do
  let r ← Json.record ["name", "type", "typeSimple", "comment"] j
  return {
    name := ← r.required "name" Json.text
    type := ← r.required "type" Json.text
    typeSimple := ← r.required "typeSimple" Json.text
    comment := ← r.required "comment" Json.text }

/-- The value for a struct. -/
def StructRecord.toJson (s : StructRecord) : Json :=
  .object ([textField "name" s.name, textField "description" s.description,
      textField "above" s.above, textField "below" s.below]
    ++ fieldIfAny "fullComment" (s.fullComment.map .string)
    ++ [("params", .array (s.params.map Member.toJson))])

/-- The struct that a value describes. -/
def StructRecord.ofJson? : Json.Decoder StructRecord := fun j => do
  let r ← Json.record ["name", "description", "above", "below", "fullComment", "params"] j
  return {
    name := ← r.required "name" Json.text
    description := ← r.required "description" Json.text
    above := ← r.required "above" Json.text
    below := ← r.required "below" Json.text
    fullComment := ← r.omittable "fullComment" Json.text
    params := ← r.required "params" (Json.list Member.ofJson?) }

namespace TypeRecord

/-- The value for a record. -/
def toJson (r : TypeRecord) : Json :=
  .object ([textField "name" r.name]
    ++ fieldIfAny "fullComment" (r.fullComment.map .string)
    ++ [textField "description" r.description, textField "verification" r.verification,
      textField "lut" r.lut, ("proof", r.proof.toJson), ("request", r.request.toJson),
      ("response", r.response.toJson), ("requestBody", r.requestBody.toJson),
      ("responseBody", r.responseBody.toJson),
      ("requestStructs", .array (r.requestStructs.map StructRecord.toJson)),
      ("responseStructs", .array (r.responseStructs.map StructRecord.toJson))]
    ++ fieldIfAny "requestAbi" r.requestAbi
    ++ fieldIfAny "responseAbi" r.responseAbi
    ++ fieldIfAny "proofAbi" r.proofAbi)

/-- The names of the fields. -/
def fieldNames : List String :=
  ["name", "fullComment", "description", "verification", "lut", "proof", "request", "response",
    "requestBody", "responseBody", "requestStructs", "responseStructs", "requestAbi",
    "responseAbi",
    "proofAbi"]

/-- The record that a value describes. -/
def ofJson? : Json.Decoder TypeRecord := fun j => do
  let r ← Json.record fieldNames j
  return {
    name := ← r.required "name" Json.text
    fullComment := ← r.omittable "fullComment" Json.text
    description := ← r.required "description" Json.text
    verification := ← r.required "verification" Json.text
    lut := ← r.required "lut" Json.text
    proof := ← r.required "proof" StructRecord.ofJson?
    request := ← r.required "request" StructRecord.ofJson?
    response := ← r.required "response" StructRecord.ofJson?
    requestBody := ← r.required "requestBody" StructRecord.ofJson?
    responseBody := ← r.required "responseBody" StructRecord.ofJson?
    requestStructs := ← r.required "requestStructs" (Json.list StructRecord.ofJson?)
    responseStructs := ← r.required "responseStructs" (Json.list StructRecord.ofJson?)
    requestAbi := ← r.omittable "requestAbi" Json.any
    responseAbi := ← r.omittable "responseAbi" Json.any
    proofAbi := ← r.omittable "proofAbi" Json.any }

/-- The text of the configuration file for a record. -/
def render (r : TypeRecord) : String := r.toJson.pretty

end TypeRecord

end Attestation
