import Attestation.Compiler.SourceUnit
import Attestation.Interface.Doc
import Attestation.Interface.Issue
import Attestation.Record.Basic

/-!
# Reading an interface

A file of one interface becomes the record of its attestation type. Five structs are required.
Any other struct belongs to the body struct that was declared last before it.

## Main definitions

* `StructReading`: the record of a struct with the problems found in it.
* `Slot`: the place of a struct in a record.
* `Extraction`: the record of an interface, if it has all required structs, with all problems.
* `Extraction.ofUnit`: reading a file.
* `Extraction.checked`: the record, if there are no errors.
-/

namespace Attestation

/-- A struct that has been read. -/
structure StructReading where
  record : StructRecord
  issues : List Issue
  deriving Repr, Inhabited

/-- The problems of the documented parameters, given those that came before: repetitions, then
names that are no member. -/
def paramIssues (interface : String) (s : StructDefinition) (seen : List String) :
    List String → List Issue
  | [] => []
  | param :: more =>
      (if seen.contains param then [.repeatedParam interface s.name param]
        else if s.members.any (·.name = param) then []
        else [.unknownParam interface s.name param])
      ++ paramIssues interface s (param :: seen) more

/-- The comment of the first documentation of a name. -/
def commentOf (documented : List (String × String)) (name : String) : Option String :=
  (documented.find? (·.1 = name)).map (·.2)

/-- The record of a member. -/
def memberRecord (documented : List (String × String)) (v : VariableDeclaration) : Member where
  name := Text.trimString v.name
  type := v.type
  typeSimple := simpleType v.type
  comment := (commentOf documented v.name).getD ""

/-- The problems of the members that are not documented. -/
def memberIssues (interface : String) (s : StructDefinition)
    (documented : List (String × String)) :
    List Issue :=
  (s.members.filter fun v => (commentOf documented v.name).isNone).map fun v =>
    .undocumentedMember interface s.name v.name

/-- Reads a struct of an interface. -/
def StructReading.ofDefinition (interface : String) (s : StructDefinition) :
    Except SchemaError StructReading :=
  match Doc.params s.documentation with
  | .error line => .error (.unparsableParam (interface ++ "." ++ s.name) line)
  | .ok documented => .ok {
      record := {
        name := Text.trimString s.name
        description := Doc.tag "notice" s.documentation
        above := Doc.tag "custom:above" s.documentation
        below := Doc.tag "custom:below" s.documentation
        fullComment := s.documentation
        params := s.members.map (memberRecord documented) }
      issues :=
        (if Doc.hasText s.documentation then [] else [.undocumentedStruct interface s.name])
        ++ paramIssues interface s [] (documented.map (·.1))
        ++ memberIssues interface s documented }

/-- The two sides of an attestation type. -/
inductive Side where
  | request | response
  deriving DecidableEq, Repr

/-- The place of a struct in the record. -/
inductive Slot where
  | request | response | proof | requestBody | responseBody
  /-- A further struct of one side, or of none. -/
  | further (side : Option Side)
  deriving DecidableEq, Repr

/-- The required structs. -/
def Slot.required : List (String × Slot) :=
  [("Request", .request), ("Response", .response), ("Proof", .proof),
    ("RequestBody", .requestBody),
    ("ResponseBody", .responseBody)]

/-- The place of a struct of the given name, on the side of the body that came last before
it. -/
def Slot.ofName (side : Option Side) (name : String) : Slot :=
  match Slot.required.find? (·.1 = name) with
  | some (_, slot) => slot
  | none => .further side

/-- The side behind a struct. -/
def Slot.sideAfter (side : Option Side) : Slot → Option Side
  | .requestBody => some .request
  | .responseBody => some .response
  | _ => side

/-- The structs with their places, in the order of their declaration. -/
def place (side : Option Side) : List StructReading → List (Slot × StructReading)
  | [] => []
  | s :: more =>
      let slot := Slot.ofName side s.record.name
      (slot, s) :: place (slot.sideAfter side) more

/-- The structs at a place. -/
def structsAt (slot : Slot) (placed : List (Slot × StructReading)) : List StructRecord :=
  (placed.filter (·.1 = slot)).map (·.2.record)

/-- The struct at a required place; a later one replaces an earlier one. -/
def structAt (slot : Slot) (placed : List (Slot × StructReading)) : Option StructRecord :=
  (structsAt slot placed).getLast?

/-- The problems of a struct, with that of its place behind them. -/
def placedIssues (interface : String) : Slot × StructReading → List Issue
  | (.further none, s) => s.issues ++ [.unassignedStruct interface s.record.name]
  | (_, s) => s.issues

/-- What an interface was found to be. -/
structure Extraction where
  /-- The name of the interface. -/
  interface : String
  /-- Its record, when it has all required structs. -/
  record : Option TypeRecord
  /-- All problems, in the order in which they were found. -/
  issues : List Issue
  deriving Repr, Inhabited

namespace Extraction

/-- The record of a contract whose structs have been placed. -/
def recordOf (c : ContractDefinition) (placed : List (Slot × StructReading)) :
    Option TypeRecord := do
  return {
    name := Doc.tag "custom:name" c.documentation
    fullComment := c.documentation
    description := Doc.tag "notice" c.documentation
    verification := Doc.tag "custom:verification" c.documentation
    lut := Doc.tag "custom:lut" c.documentation
    proof := ← structAt .proof placed
    request := ← structAt .request placed
    response := ← structAt .response placed
    requestBody := ← structAt .requestBody placed
    responseBody := ← structAt .responseBody placed
    requestStructs := structsAt (.further (some .request)) placed
    responseStructs := structsAt (.further (some .response)) placed
    requestAbi := none
    responseAbi := none
    proofAbi := none }

/-- The required structs that are missing. -/
def missing (interface : String) (placed : List (Slot × StructReading)) : List Issue :=
  (Slot.required.filter fun (_, slot) => (structAt slot placed).isNone).map fun (name, _) =>
    .missingStruct interface name

/-- Reads a contract. -/
def ofContract (c : ContractDefinition) : Except SchemaError Extraction := do
  let placed := place none (← c.structs.mapM (StructReading.ofDefinition c.name))
  return {
    interface := c.name
    record := recordOf c placed
    issues :=
      (if Doc.hasText c.documentation then [] else [.undocumentedInterface c.name])
      ++ placed.flatMap (placedIssues c.name)
      ++ missing c.name placed }

/-- Reads the only contract of a file. -/
def ofUnit (u : SourceUnit) : Except SchemaError Extraction :=
  match u.contracts with
  | [] => .error .noInterface
  | [c] => ofContract c
  | first :: second :: _ => .error (.multipleContracts first.name second.name)

/-- How many of the problems are errors. -/
def errorCount (e : Extraction) : Nat := e.issues.countP Issue.isError

/-- Whether any of the problems is an error. -/
def hasErrors (e : Extraction) : Bool := e.issues.any Issue.isError

/-- The record, if there are no errors. -/
def checked (e : Extraction) : Except SchemaError TypeRecord :=
  match e.record with
  | some record =>
      if e.errorCount = 0 then .ok record else .error (.inconsistent e.interface e.errorCount)
  | none => .error (.inconsistent e.interface e.errorCount)

/-- The problems as log events. -/
def events (e : Extraction) : List Log.Event := e.issues.map Issue.event

end Extraction

end Attestation
