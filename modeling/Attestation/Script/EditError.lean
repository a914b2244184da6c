/-!
# Failed edits

Why a generated part cannot be merged into a hand-written script.

## Main definitions

* `EditError`: the causes.
* `EditError.message`: their texts.
-/

namespace Attestation

/-- Why an edit fails. -/
inductive EditError where
  /-- The text that marks the start of an array does not occur. -/
  | anchorNotFound (pattern preview : String)
  /-- Another bracket opens before that of the array. -/
  | expectedOpenBracket (found : Char)
  /-- Something other than an object stands in brackets inside the array. -/
  | expectedObjectClose (found : Char)
  /-- A bracket is closed by one of another kind. -/
  | bracketMismatch (opening closing : Char) (context : String)
  /-- The array is not closed. -/
  | arrayEndNotFound (preview : String)
  /-- A module has two default imports. -/
  | conflictingDefaultImport (module first second : String)
  /-- A module is imported as two namespaces. -/
  | conflictingWildcardImport (module first second : String)
  deriving DecidableEq, Repr

/-- The text shown to the user. -/
def EditError.message : EditError → String
  | .anchorNotFound pattern preview => s!"Could not find array start /{pattern}/ in {preview}"
  | .expectedOpenBracket found => s!"Expected '[' but got '{found}'"
  | .expectedObjectClose found => s!"Expected '\x7d' but got '{found}'"
  | .bracketMismatch opening closing context =>
      s!"Bracket mismatch {opening} {closing} in {context}"
  | .arrayEndNotFound preview => s!"Could not find array end in {preview}"
  | .conflictingDefaultImport module first second =>
      s!"Different default imports for module {module}: {first} and {second}"
  | .conflictingWildcardImport module first second =>
      s!"Different wildcard imports for module {module}: {first} and {second}"

end Attestation
