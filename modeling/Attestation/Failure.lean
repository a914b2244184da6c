import Attestation.Bytes32
import Attestation.Compiler.LoadError
import Attestation.Interface.Issue
import Attestation.MemberType.Parser
import Attestation.Script.EditError
import Attestation.Workspace.IoError

/-!
# Failures

A failure has a cause. On its way to the user it collects what was being done.

## Main definitions

* `Cause`: why something failed.
* `Failure`: a cause with its contexts.
* `Failure.message`: the text shown to the user.

## Design notes

Causes are data and not texts, so that a theorem can say which failure it is about; the text is
made where the failure is shown.
-/

namespace Attestation

/-- Why something failed. -/
inductive Cause where
  | schema (error : SchemaError)
  | edit (error : EditError)
  | memberType (error : UnknownType)
  | encoding (error : Bytes32.TooLong)
  | load (error : LoadError)
  | io (error : IoError)
  /-- A text is not structured data of the expected form. -/
  | json
  /-- A text is not a settings file. -/
  | toml
  /-- Anything else, by its text. -/
  | other (text : String)
  deriving DecidableEq, Repr

/-- The text shown to the user. -/
def Cause.message : Cause → String
  | .schema error => error.message
  | .edit error => error.message
  | .memberType error => error.message
  | .encoding error => error.message
  | .load error => error.message
  | .io error => error.message
  | .json => "invalid JSON"
  | .toml => "invalid TOML"
  | .other text => text

/-- A cause, with what was being done when it arose, outermost first. -/
structure Failure where
  contexts : List String
  cause : Cause
  deriving DecidableEq, Repr

namespace Failure

/-- A cause without any context. -/
def of (cause : Cause) : Failure := ⟨[], cause⟩

/-- The failure seen from further outside. -/
def within (context : String) (f : Failure) : Failure :=
  { f with contexts := context :: f.contexts }

/-- The contexts and the cause, where `causeText` gives the text of the cause. -/
def messageBy (causeText : Cause → String) (f : Failure) : String :=
  Text.join ": " (f.contexts ++ [causeText f.cause])

/-- The text shown to the user. -/
def message (f : Failure) : String := f.messageBy Cause.message

end Failure

/-- A result whose failure is seen from further outside. -/
def inContext {α : Type} (context : String) (result : Except Failure α) : Except Failure α :=
  result.mapError (Failure.within context)

/-- A result whose error becomes the cause of a failure. -/
def orFail {ε α : Type} (cause : ε → Cause) (result : Except ε α) : Except Failure α :=
  result.mapError fun e => Failure.of (cause e)

end Attestation
