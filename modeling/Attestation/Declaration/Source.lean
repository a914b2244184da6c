import Attestation.Failure
import Attestation.Record.Basic
import Attestation.Text.Comment

/-!
# Plain declarations

A namespace with one TypeScript interface for each struct of an attestation type.

## Main definitions

* `Declaration.Field`, `Declaration.Interface`: a property and an interface.
* `Declaration.interfaces`: the interfaces of an attestation type.
* `Declaration.source`: the script of an attestation type.
* `Declaration.index`: the script that exports the scripts of all types.
-/

namespace Attestation.Declaration

/-- A property of an interface. -/
structure Field where
  /-- Documentation, line by line. -/
  doc : List String
  name : String
  type : String
  deriving DecidableEq, Repr, Inhabited

/-- An interface. -/
structure Interface where
  /-- Documentation, line by line. -/
  doc : List String
  name : String
  fields : List Field
  deriving DecidableEq, Repr, Inhabited

/-- The property for a struct member. -/
def Field.ofMember (m : Member) : Except UnknownType Field := do
  let type ← MemberType.parse m.type
  return { doc := Text.docLines m.comment, name := m.name, type := type.plainType }

/-- The interface for a struct. -/
def Interface.ofStruct (s : StructRecord) : Except UnknownType Interface := do
  let fields ← s.params.mapM Field.ofMember
  return { doc := Text.docLines s.description, name := s.name, fields := fields }

/-- The structs of a record: request, response and proof, then each body with its further
structs. -/
def structsInOrder (r : TypeRecord) : List StructRecord :=
  [r.request, r.response, r.proof, r.requestBody] ++ r.requestStructs
    ++ r.responseBody :: r.responseStructs

/-- The interfaces of an attestation type. -/
def interfaces (r : TypeRecord) : Except UnknownType (List Interface) :=
  (structsInOrder r).mapM Interface.ofStruct

/-- The lines of a property. -/
def Field.lines (f : Field) : List String :=
  f.doc.map ("        " ++ ·) ++ [s!"        {f.name}: {f.type};"]

/-- The lines of an interface, with an empty line in front. -/
def Interface.lines (i : Interface) : List String :=
  "" :: i.doc.map ("    " ++ ·) ++ [s!"    export interface {i.name} \x7b"]
    ++ i.fields.flatMap Field.lines ++ ["    \x7d"]

/-- The script of an attestation type. -/
def source (name : String) (r : TypeRecord) : Except Failure String := do
  let word ← orFail .encoding (Bytes32.encode name)
  let interfaces ← inContext s!"Attestation type {name}" (orFail .memberType (interfaces r))
  return Text.unlines (
    [s!"export namespace {name} \x7b",
      s!"    export const NAME = \"{name}\";",
      s!"    export const TYPE = \"{word}\";",
      ""]
    ++ interfaces.flatMap Interface.lines
    ++ ["",
      "    export type RequestNoMic = Omit<Request, \"messageIntegrityCode\">;",
      "\x7d"])

/-- The script that exports the scripts of the given types. -/
def index (names : List String) : String :=
  String.join (names.map fun name => s!"export * from \"./{name}\";\n")

end Attestation.Declaration
