import Attestation.Compiler.SourceUnit
import Attestation.Json.Parser
import Attestation.NameMap
import Attestation.Settings.Basic
import Attestation.Workspace.Plan

/-!
# Build info

The file in which the compiler describes a whole build, as far as it is used: the syntax tree
of each source.

## Main definitions

* `BuildInfo`: the syntax trees of a build, by source.
* `BuildInfo.load`: reads the only build-info file of a project.

## Design notes

Where several builds have left their files, nothing in these tells which one is current.  So
there has to be exactly one.
-/

namespace Attestation

/-- The syntax trees of a build. -/
structure BuildInfo where
  /-- The trees by the paths of their sources. -/
  sources : NameMap SourceUnit
  deriving Inhabited

namespace BuildInfo

/-- The tree of a source. -/
def treeOf : Json.Decoder SourceUnit := fun j => do
  (← Json.record ["ast"] j).required "ast" SourceUnit.ofJson?

/-- The trees by source. Of two with one name the later one counts. -/
def treesOf : Json.Decoder (NameMap SourceUnit)
  | .object fields =>
      (fields.mapM fun field => (treeOf field.2).map (field.1, ·)).map NameMap.ofList
  | _ => none

/-- The build that a value describes. -/
def ofJson? : Json.Decoder BuildInfo := fun j => do
  let output ← (← Json.record ["output"] j).required "output" (Json.record ["sources"])
  return ⟨← output.defaulted "sources" .empty treesOf⟩

/-- Reads the only build-info file of a project. -/
def load (s : Settings) : Plan BuildInfo := do
  let dir := s.resolve s.locations.buildInfo
  match ← Plan.list s!"Failed to read build info dir {dir.text}" dir with
  | [only] =>
      let path := dir.entry only.name
      let text ← Plan.readText s!"Failed to read build info {path.text}" path
      match (Json.parse text).bind ofJson? with
      | some info => return info
      | none => .fail ⟨[s!"Failed to parse build info {path.text}"], .json⟩
  | entries => .fail (Failure.of (.load (.buildInfoCount dir entries.length)))

/-- The sources in order. -/
def sourceNames (b : BuildInfo) : List String := b.sources.names

end BuildInfo

end Attestation
