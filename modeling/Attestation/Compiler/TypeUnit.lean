import Attestation.Compiler.BuildInfo
import Attestation.Compiler.TypeName
import Attestation.Interface.Extraction
import Attestation.Workspace.Listing

/-!
# Attestation types of a project

Each file of the interface directory declares an attestation type, and must have been compiled.

## Main definitions

* `TypeUnit`: an attestation type with the syntax tree of its file.
* `TypeUnit.loadAll`: those of a project.
* `TypeUnit.record`: the record of a type, where problems with its interface are logged.
* `typeNames`: the names alone, which do not need a build.

## Design notes

Names are asked for without a build by commands that only need to know which types there are,
so these commands also run in a project that has not been compiled.
-/

namespace Attestation

/-- An attestation type with the syntax tree of its file. -/
structure TypeUnit where
  name : String
  file : String
  tree : SourceUnit
  deriving Repr, Inhabited

namespace TypeUnit

/-- The path of a source as the compiler writes it. -/
def sourcePath (dir : Path) (file : String) : String :=
  if dir.plainText.isEmpty then file else dir.plainText ++ "/" ++ file

/-- The type that a file of the interface directory declares. -/
def find (b : BuildInfo) (dir : Path) (file : String) : Except LoadError TypeUnit :=
  let source := sourcePath dir file
  match b.sources.get? source with
  | some tree => .ok { name := TypeName.ofFile file, file := file, tree := tree }
  | none => .error (.missingSource source)

/-- Types in the order of their names; types of one name keep the order of their files. -/
def sorted (units : List TypeUnit) : List TypeUnit :=
  units.mergeSort fun a b => decide (a.name ≤ b.name)

/-- The attestation types of a project, in the order of their names. -/
def loadAll (s : Settings) : Plan (List TypeUnit) := do
  let build ← BuildInfo.load s
  let dir := s.locations.typeInterfaceDefinitions
  let files ← Plan.filesEnding ".sol" (s.resolve dir)
  return sorted (← Plan.ofExcept (orFail .load (files.mapM (find build dir))))

/-- The record of a type. Problems with its interface are logged before they make it fail. -/
def record (t : TypeUnit) : Plan TypeRecord := do
  let context := s!"Invalid attestation type {t.name}"
  let extraction ← Plan.ofExcept
    (inContext context (orFail .schema (Extraction.ofUnit t.tree)))
  Plan.logAll extraction.events
  Plan.ofExcept (inContext context (orFail .schema extraction.checked))

end TypeUnit

/-- The names of the attestation types of a project, in order. -/
def typeNames (s : Settings) : Plan (List String) := do
  let files ← Plan.filesEnding ".sol" (s.resolve s.locations.typeInterfaceDefinitions)
  return sortedNames (files.map TypeName.ofFile)

end Attestation
