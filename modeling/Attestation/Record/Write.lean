import Attestation.Compiler.Abi
import Attestation.Compiler.TypeUnit
import Attestation.Record.Codec
import Attestation.Workspace.Generated

/-!
# Writing records

For each attestation type its record and the shape of its response are written.

## Main definitions

* `TypeRecord.clearDir`: removes what an earlier run left.
* `TypeRecord.writeUnit`: writes the files of a type.
* `TypeRecord.writeAll`: writes the files of all types that are meant.

## Design notes

The directory is only cleared when all types are written.  A run for one type must not remove
the records of the others.  Whether there is something to clear is asked of the path as it is
given.
-/

namespace Attestation.TypeRecord

/-- The part of the program that reports about the records. -/
def logTarget : String := "attestation_gen::generator::configs"

/-- Removes the directory of records before all types are written, so that none remains of a
type that is no longer there. -/
def clearDir (specific : Option String) (dir : Path) : Plan Unit := do
  if specific.isNone then
    if ← Plan.exists dir then
      Plan.removeTree s!"Failed to clear config dir {dir.text}" dir
      Plan.log {
        level := .debug
        target := logTarget
        message := "removed previous configs"
        fields := [("dir", .shown dir.text)] }

/-- Writes the files of a type. The result is what `abis` holds for other types. -/
def writeUnit (dir abiDir : Path) (abis : NameMap AbiDefinitions) (t : TypeUnit) :
    Plan (NameMap AbiDefinitions) := do
  let record ← t.record
  match abis.get? t.name with
  | none => Plan.failWith s!"Could not find ABI for {t.name}"
  | some abi =>
      let file := s!"{t.name}.json"
      Plan.writeGenerated "config" (dir.entry file) (record.withAbis abi).render
      Plan.writeGenerated "ABI" (abiDir.entry file) abi.response.pretty
      return abis.erase t.name

/-- Writes the files of all types that are meant. -/
def writeAll (s : Settings) (specific : Option String) (outPath abiOutPath : Option Path) :
    Plan Unit := do
  let dir := s.resolve (outPath.getD s.locations.configs)
  let abiDir := s.resolve (abiOutPath.getD s.locations.abi)
  let units ← TypeUnit.loadAll s
  let abis ← Abi.loadAll s
  clearDir specific dir
  let meant := units.filter fun t => TypeName.isMeant specific t.name
  let _ ← meant.foldlM (writeUnit dir abiDir) abis
  Plan.log {
    level := .info
    target := logTarget
    message := "attestation type configs written"
    fields := [("generated", .count meant.length)] }
  if meant.isEmpty then
    Plan.log (Log.noneMeant logTarget "no attestation type matched" specific)

end Attestation.TypeRecord
