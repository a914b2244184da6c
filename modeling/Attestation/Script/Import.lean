import Attestation.NameSet
import Attestation.Text.Split

/-!
# Import statements

One statement that imports from a module.

## Main definitions

* `Import`: a statement.
* `Import.render`: its line.
* `Import.before`: the order of statements in a script.

## Design notes

The names of a statement are a set: their order in a script carries no meaning, and a script
that is written from the same statements is the same script.
-/

namespace Attestation

/-- A statement that imports from a module. -/
structure Import where
  /-- The name of the default import. -/
  default : Option String := none
  /-- The names in braces. -/
  named : NameSet := NameSet.empty
  /-- The name of the module as a whole. -/
  wildcard : Option String := none
  /-- The module. -/
  module : String
  deriving DecidableEq, Repr, Inhabited

namespace Import

/-- The import of some names. -/
def ofNames (module : String) (names : List String) : Import :=
  { named := NameSet.ofList names, module := module }

/-- A module is a path when it starts with a dot or a slash, and a package otherwise. -/
def isPath (i : Import) : Bool :=
  i.module.toList.head? = some '.' || i.module.toList.head? = some '/'

/-- The names in braces, with the comma that separates them from a default import. -/
def renderNamed (i : Import) : String :=
  if i.named.isEmpty then ""
  else (if i.default.isSome then ", " else "")
    ++ "\x7b " ++ Text.join ", " i.named.toList ++ " \x7d "

/-- The statement on one line. -/
def render (i : Import) : String :=
  "import "
    ++ (match i.default with
      | some name => name ++ " "
      | none => "")
    ++ i.renderNamed
    ++ (match i.wildcard with
      | some name => "* as " ++ name ++ " "
      | none => "")
    ++ "from '" ++ i.module ++ "';"

/-- Paths stand before packages, and each group is ordered by module. -/
def before (a b : Import) : Bool :=
  if a.isPath = b.isPath then a.module < b.module else a.isPath

end Import

/-- One line for each statement. -/
def renderImports (imports : List Import) : String := Text.unlines (imports.map Import.render)

end Attestation
