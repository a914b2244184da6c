import Attestation.Environment
import Attestation.Log.Filter
import Attestation.Text.Blank
import Attestation.Text.Unicode.LetterCase

/-!
# Log settings

Environment variables say what is logged and in which format.

## Main definitions

* `Log.Format`: the formats.
* `Log.Config`: the settings.
* `Log.Config.ofEnvironment`: the settings that the environment asks for.
* `Log.Config.filter`: the filter that follows from them, with a warning for each part that
  cannot be read.
-/

namespace Attestation.Log

/-- How events are written. -/
inductive Format where
  /-- One object a line. -/
  | json
  /-- One plain line. -/
  | pretty
  deriving DecidableEq, Repr, Inhabited

/-- The format of the given name; any other name means plain lines. -/
def Format.ofName (name : String) : Format :=
  if Text.toSmall name = "json" then .json else .pretty

/-- The log settings. -/
structure Config where
  level : String := "info"
  format : Format := .pretty
  /-- Further directives. -/
  targetFilter : Option String := none
  deriving DecidableEq, Repr, Inhabited

namespace Config

/-- The settings that the environment asks for. -/
def ofEnvironment (e : Environment) : Config where
  level := (e.get? "ATTGEN_LOG_LEVEL").getD "info"
  format := ((e.get? "ATTGEN_LOG_FORMAT").map Format.ofName).getD .pretty
  targetFilter := e.get? "ATTGEN_LOG_TARGET_FILTER"

/-- The level that is meant; any other text means information. -/
def meantLevel (c : Config) : Level :=
  match Text.toSmall c.level with
  | "trace" => .trace
  | "debug" => .debug
  | "warn" => .warn
  | "error" => .error
  | _ => .info

/-- The further directives as texts. -/
def furtherDirectives (c : Config) : List String :=
  match c.targetFilter with
  | none => []
  | some s =>
      (((List.splitOn ',' s.toList).map Text.trim).filter (!·.isEmpty)).map String.ofList

/-- The filter, where a filter of the environment takes the place of the level, and the
warnings. -/
def filter (c : Config) (e : Environment) : Filter × List String :=
  let base := ((e.get? "RUST_LOG").bind Filter.parse).getD (Filter.ofLevel c.meantLevel)
  c.furtherDirectives.foldl (fun (f, warnings) s =>
    match Directive.parse s with
    | some reading => (f.insertReading reading, warnings)
    | none => (f, warnings ++ ["Warning: Invalid log filter directive: " ++ s])) (base, [])

end Config

end Attestation.Log
