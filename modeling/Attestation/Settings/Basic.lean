import Attestation.Environment
import Attestation.Settings.Locations
import Attestation.Text.Blank
import Attestation.Toml.Parser
import Attestation.Verifier.Options

/-!
# Settings

What a settings file can say, and the settings of a project that follow from it.

## Main definitions

* `SettingsFile`: the content of a settings file.
* `SettingsFile.parse`: reading one.
* `Settings`: the settings of a project.
* `SettingsFile.settings`: those that follow from a file and the environment.

## Design notes

What a file says and what holds in the end are two types.  A file may leave out anything, and
the settings have a value for everything.
-/

namespace Attestation

/-- What a settings file says. -/
structure SettingsFile where
  locations : LocationOverrides := {}
  verifier : Verifier.Overrides := {}
  /-- The command line of the formatter. -/
  prettier : Option String := none
  deriving DecidableEq, Repr, Inhabited

/-- The settings of a project. -/
structure Settings where
  /-- The root that all places are relative to. -/
  root : Path
  locations : Locations
  verifier : Verifier.Overrides
  /-- The command line of the formatter. -/
  prettier : Option String
  deriving DecidableEq, Repr, Inhabited

/-- A place seen from the project root. -/
def Settings.resolve (s : Settings) (place : Path) : Path := s.root.join place

namespace SettingsFile

/-- A section with fields of the given names. A list has the values of the fields in order, and
what it has beyond them does not count. -/
def sectionOf {α : Type} (names : List String) (value : Json.Decoder α) : Json.Decoder α
  | .array items => value (.array (items.take names.length))
  | j => value j

/-- Whether a value is empty, as the content of a preset is. -/
def isEmptyContent : Json → Bool
  | .array [] => true
  | .object [] => true
  | _ => false

/-- The formatter that a section names. -/
def formatter : Json.Decoder (Option String) := fun j => do
  (← Json.closedRecord ["prettier"] j).optional "prettier" Json.text

/-- What a value says. -/
def ofJson? : Json.Decoder SettingsFile := fun j => do
  let r ← Json.closedRecord ["paths", "verifier", "format"] j
  return {
    locations := ← r.defaulted "paths" {}
      (sectionOf LocationOverrides.names LocationOverrides.ofJson?)
    verifier := ← r.defaulted "verifier" {}
      (sectionOf Verifier.Overrides.names (Verifier.Overrides.ofJson? isEmptyContent))
    prettier := ← r.defaulted "format" none (sectionOf ["prettier"] formatter) }

/-- What the text of a file says. -/
def parse (s : String) : Option SettingsFile := do
  ofJson? (Toml.Value.table .header (← Toml.parse s)).toJson

/-- The settings for a root. The environment may name another formatter. -/
def settings (file : SettingsFile) (e : Environment) (root : Path) : Settings where
  root := root
  locations := Locations.overriddenBy {} file.locations
  verifier := file.verifier
  prettier :=
    match e.get? "ATTGEN_PRETTIER_BIN" with
    | some command => if Text.isBlankString command then file.prettier else some command
    | none => file.prettier

end SettingsFile

end Attestation
