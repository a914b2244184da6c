import Attestation.Compiler.TypeUnit
import Attestation.Dto.Source
import Attestation.Workspace.Generated

/-!
# Writing DTO scripts

## Main definitions

* `Dto.fileName`: the file for the script of a type.
* `Dto.writeAll`: writes the scripts of all types of a project.
-/

namespace Attestation.Dto

/-- The file for the script of a type. -/
def fileName (attestationType : String) : String := s!"{attestationType}.dto.ts"

/-- Writes the script of a type. -/
def writeUnit (dir : Path) (t : TypeUnit) : Plan Unit := do
  let record ← t.record
  let text ← Plan.ofExcept (inContext s!"Failed to build DTOs for {t.name}"
    (source t.name record))
  Plan.writeGenerated "DTO" (dir.entry (fileName t.name)) text

/-- Writes the scripts of all types of a project. -/
def writeAll (s : Settings) (outPath : Option Path) : Plan Unit := do
  let units ← TypeUnit.loadAll s
  units.forM (writeUnit (s.resolve (outPath.getD s.locations.dto)))

end Attestation.Dto
