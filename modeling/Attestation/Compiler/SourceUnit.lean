import Attestation.Json.Decoder
import Attestation.Text.Blank

/-!
# Source units

The syntax tree of one Solidity file as the compiler reports it, as far as interfaces are read
from it: contract definitions, their structs and the documentation of both.

## Main definitions

* `VariableDeclaration`, `StructDefinition`, `ContractDefinition`, `SourceUnit`: the nodes.
* `SourceUnit.ofJson?`: the tree that a value describes.

## Design notes

A node tells its kind in the field `nodeType`, or, written as a list, in its first item. Nodes
of other kinds count only as nodes, so they are kept without content.
-/

namespace Attestation

/-- A member of a struct. -/
structure VariableDeclaration where
  name : String
  /-- The type as the compiler describes it, if it does. -/
  typeString : Option String
  deriving DecidableEq, Repr, Inhabited

/-- The type without the blanks around it. -/
def VariableDeclaration.type (v : VariableDeclaration) : String :=
  Text.trimString (v.typeString.getD "")

/-- A struct. -/
structure StructDefinition where
  name : String
  documentation : Option String
  members : List VariableDeclaration
  deriving DecidableEq, Repr, Inhabited

/-- A contract, an interface or a library. -/
structure ContractDefinition where
  name : String
  kind : Option String
  documentation : Option String
  /-- The nodes inside; those that are no structs have no content. -/
  nodes : List (Option StructDefinition)
  deriving DecidableEq, Repr, Inhabited

/-- The structs in the order of their declaration. -/
def ContractDefinition.structs (c : ContractDefinition) : List StructDefinition :=
  c.nodes.filterMap id

/-- The tree of one file. -/
structure SourceUnit where
  absolutePath : Option String
  /-- The nodes of the file; those that are no contracts have no content. -/
  nodes : List (Option ContractDefinition)
  deriving DecidableEq, Repr, Inhabited

/-- The contracts in the order of their declaration. -/
def SourceUnit.contracts (u : SourceUnit) : List ContractDefinition := u.nodes.filterMap id

/-- The text of a documentation: an object that holds it, or the bare text. -/
def documentationText : Json.Decoder String
  | .string s => some s
  | j => do (← Json.record ["text"] j).required "text" Json.text

/-- The member that a value describes. -/
def VariableDeclaration.ofJson? : Json.Decoder VariableDeclaration := fun j => do
  let r ← Json.record ["name", "typeDescriptions"] j
  return {
    name := ← r.required "name" Json.text
    typeString := ← r.required "typeDescriptions" fun d => do
      (← Json.record ["typeString"] d).omittable "typeString" Json.text }

/-- A node with its kind taken off: whether it is of the kind in question, and the content as a
record with fields of the given names. A node is an object that names its kind, or a list that
starts with it. -/
def readNode (kind : Json.Decoder Bool) (names : List String) :
    Json → Option (Bool × Option Json.Record)
  | .object fields => do
      let k ← (Json.Record.mk fields false).required "nodeType" kind
      return (k, some ⟨fields, false⟩)
  | .array (first :: items) => do
      let k ← kind first
      return (k, Json.Record.ofItems names items)
  | _ => none

/-- The struct with the given fields. -/
def StructDefinition.ofRecord? (r : Json.Record) : Option StructDefinition := do
  return {
    name := ← r.required "name" Json.text
    documentation := ← r.omittable "documentation" documentationText
    members := ← r.defaulted "members" [] (Json.list VariableDeclaration.ofJson?) }

/-- Whether a node inside a contract is a struct. Its kind is told by name, or by a position in
the list of the known kinds, in which structs come first. -/
def isStructKind : Json.Decoder Bool
  | .string kind => some (kind = "StructDefinition")
  | .number (.integer position) => if position < 0 then none else some (position = 0)
  | _ => none

/-- A node inside a contract. -/
def ContractDefinition.nodeOfJson? : Json.Decoder (Option StructDefinition) := fun j => do
  match ← readNode isStructKind ["name", "documentation", "members"] j with
  | (true, content) => (StructDefinition.ofRecord? (← content)).map some
  | (false, _) => some none

/-- The contract with the given fields. -/
def ContractDefinition.ofRecord? (r : Json.Record) : Option ContractDefinition := do
  return {
    name := ← r.required "name" Json.text
    kind := ← r.omittable "contractKind" Json.text
    documentation := ← r.omittable "documentation" documentationText
    nodes := ← r.defaulted "nodes" [] (Json.list ContractDefinition.nodeOfJson?) }

/-- Whether a node of a file is a contract. -/
def isContractKind : Json.Decoder Bool := fun j => (Json.text j).map (· = "ContractDefinition")

/-- A node of a file. -/
def SourceUnit.nodeOfJson? : Json.Decoder (Option ContractDefinition) := fun j => do
  match ← readNode isContractKind ["name", "contractKind", "documentation", "nodes"] j with
  | (true, content) => (ContractDefinition.ofRecord? (← content)).map some
  | (false, _) => some none

/-- The tree that a value describes. -/
def SourceUnit.ofJson? : Json.Decoder SourceUnit := fun j => do
  let r ← Json.record ["absolutePath", "nodes"] j
  return {
    absolutePath := ← r.omittable "absolutePath" Json.text
    nodes := ← r.defaulted "nodes" [] (Json.list SourceUnit.nodeOfJson?) }

end Attestation
