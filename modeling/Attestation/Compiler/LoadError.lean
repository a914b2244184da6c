import Attestation.Path.Basic

/-!
# Unusable compiler output

Why the files that the compiler wrote cannot be used.
-/

namespace Attestation

/-- Why compiler output cannot be used. -/
inductive LoadError where
  /-- There is not exactly one build-info file. -/
  | buildInfoCount (dir : Path) (found : Nat)
  /-- A source has not been compiled. -/
  | missingSource (sourcePath : String)
  /-- A contract lacks a function, or the function takes nothing. -/
  | missingAbiEntry (contract function : String)
  deriving DecidableEq, Repr

/-- The text shown to the user. -/
def LoadError.message : LoadError → String
  | .buildInfoCount dir found =>
      s!"Expected exactly one file in {dir.text}, found {found}. Use a clean build"
  | .missingSource sourcePath => s!"Build info has no AST for source '{sourcePath}'"
  | .missingAbiEntry contract function =>
      s!"ABI of {contract} has no '{function}' function with an input parameter"

end Attestation
