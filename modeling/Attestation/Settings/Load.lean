import Attestation.Settings.Basic
import Attestation.Workspace.Plan

/-!
# Loading settings

The settings file of a project lies in its root, unless another file is named. A file that is
named must exist.

## Main definitions

* `SettingsFile.find`: the settings file of a project, if it has one.
* `Settings.load`: the settings of a project.
-/

namespace Attestation

namespace SettingsFile

/-- The usual name of a settings file. -/
def usualName : String := "attestation-gen.toml"

/-- The settings file of a project, if it has one. -/
def find (root : Path) (named : Option Path) : Plan (Option Path) := do
  match named with
  | some path =>
      if ← Plan.exists path then return some path
      else Plan.failWith s!"Config file not found: {path.text}"
  | none =>
      let usual := root.entry usualName
      if ← Plan.exists usual then return some usual else return none

/-- Reads a settings file. -/
def load (path : Path) : Plan SettingsFile := do
  let text ← Plan.readText s!"Failed to read generator config: {path.text}" path
  match parse text with
  | some file => return file
  | none => .fail ⟨[s!"Failed to parse generator config: {path.text}"], .toml⟩

end SettingsFile

/-- The settings of a project. -/
def Settings.load (e : Environment) (root : Path) (named : Option Path) : Plan Settings := do
  match ← SettingsFile.find root named with
  | some path =>
      Plan.log {
        level := .debug
        target := "attestation_gen::config"
        message := "loading generator config"
        fields := [("config", .shown path.text)] }
      return (← SettingsFile.load path).settings e root
  | none => return SettingsFile.settings {} e root

end Attestation
