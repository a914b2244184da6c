/-!
# Log events

What a run reports about itself, apart from its results.

## Main definitions

* `Log.Level`: how severe an event is.
* `Log.Event`: an event, with named values.
-/

namespace Attestation.Log

/-- How severe an event is, from the finest to the gravest. -/
inductive Level where
  | trace | debug | info | warn | error
  deriving DecidableEq, Repr, Inhabited

namespace Level

/-- Finer levels have smaller ranks. -/
def rank : Level → Nat
  | .trace => 0
  | .debug => 1
  | .info => 2
  | .warn => 3
  | .error => 4

/-- The name of a level in a log. -/
def name : Level → String
  | .trace => "TRACE"
  | .debug => "DEBUG"
  | .info => "INFO"
  | .warn => "WARN"
  | .error => "ERROR"

end Level

/-- A value that an event names. -/
inductive Value where
  /-- A text that is shown as it is. -/
  | shown (text : String)
  /-- A text that is shown in quotes. -/
  | quoted (text : String)
  /-- A number. -/
  | count (n : Nat)
  deriving DecidableEq, Repr, Inhabited

/-- The value as a bare text. -/
def Value.text : Value → String
  | .shown text => text
  | .quoted text => text
  | .count n => toString n

/-- An event. -/
structure Event where
  level : Level
  /-- The part of the program that reports it. -/
  target : String
  message : String
  /-- The named values, in order. -/
  fields : List (String × Value)
  deriving DecidableEq, Repr, Inhabited

end Attestation.Log
