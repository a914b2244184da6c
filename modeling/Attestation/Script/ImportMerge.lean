import Attestation.Script.EditError
import Attestation.Script.Import

/-!
# Merging imports

Statements for the same module become one, which imports all that any of them imports.

## Main definitions

* `Import.combine`: two statements for one module as one.
* `mergeImports`: one statement for each module, in the order of a script.

## Design notes

What a statement imports is a set of names and at most one default import and one namespace, so
the merged statement is determined by what is imported and not by the order of the statements.
-/

namespace Attestation

namespace Import

/-- The name that two statements agree on, where one of them may have none. A later name that
differs is a conflict. -/
def agree (conflict : String → String → EditError) (first second : Option String) :
    Except EditError (Option String) :=
  match first, second with
  | some a, some b => if a = b then .ok (some a) else .error (conflict a b)
  | none, some b => .ok (some b)
  | first, none => .ok first

/-- Two statements for one module as one. -/
def combine (first second : Import) : Except EditError Import := do
  let default ←
    agree (.conflictingDefaultImport second.module) first.default second.default
  let wildcard ←
    agree (.conflictingWildcardImport second.module) first.wildcard second.wildcard
  return {
    default := default
    named := first.named.union second.named
    wildcard := wildcard
    module := first.module }

/-- Puts a statement into its place among ordered ones, or into the one for its module. -/
def insertInto (statement : Import) : List Import → Except EditError (List Import)
  | [] => .ok [statement]
  | other :: more =>
      if other.module = statement.module then do
        return (← other.combine statement) :: more
      else if statement.before other then .ok (statement :: other :: more)
      else do
        return other :: (← insertInto statement more)

end Import

/-- One statement for each module, in the order of a script. -/
def mergeImports (statements : List Import) : Except EditError (List Import) :=
  statements.foldlM (fun merged statement => statement.insertInto merged) []

end Attestation
