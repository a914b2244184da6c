import Attestation.Declaration.Source
import Attestation.Record.Load
import Attestation.Settings.Basic
import Attestation.Workspace.Format
import Attestation.Workspace.Generated

/-!
# Writing plain declarations

The declarations are made from the records that an earlier run has written.

## Main definitions

* `Declaration.writeAll`: writes the declarations of all types that are meant, and the index of
  all types.
-/

namespace Attestation.Declaration

/-- Writes the declarations of a type, and gives the file. -/
def writeRecord (dir : Path) (entry : String × TypeRecord) : Plan Path := do
  let (name, record) := entry
  let path := dir.entry s!"{name}.ts"
  Plan.writeGenerated "TypeScript types" path (← Plan.ofExcept (source name record))
  return path

/-- Writes the declarations of all types that are meant, and the index of all types. -/
def writeAll (s : Settings) (specific : Option String) (outPath : Option Path) :
    Plan Unit := do
  let dir := s.resolve (outPath.getD s.locations.tsTypes)
  let records ← TypeRecord.loadAll (s.resolve s.locations.configs) none
  let written ← (records.entries.filter fun r => TypeName.isMeant specific r.1).mapM
    (writeRecord dir)
  if written.isEmpty then
    Plan.log (Log.noneMeant "attestation_gen::generator::ts_type"
      "no attestation type configs matched" specific)
  let indexPath := dir.entry "index.ts"
  Plan.writeGenerated "TypeScript index" indexPath (index records.names)
  Plan.format s.prettier (written ++ [indexPath])

end Attestation.Declaration
