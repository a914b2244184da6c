import Attestation.Compiler.TypeName
import Attestation.Json.Parser
import Attestation.NameMap
import Attestation.Record.Codec
import Attestation.Workspace.Listing

/-!
# Loading records

Records are kept in a directory, one file for each attestation type.

## Main definitions

* `TypeRecord.load`: reads a record.
* `TypeRecord.loadAll`: the records of a directory, by the names of their files.
-/

namespace Attestation.TypeRecord

/-- The record that a text writes. -/
def parse (text : String) : Option TypeRecord := (Json.parse text).bind ofJson?

/-- Reads a record. -/
def load (path : Path) : Plan TypeRecord := do
  let text ← Plan.readText s!"Failed to read config {path.text}" path
  match parse text with
  | some record => return record
  | none => .fail ⟨[s!"Failed to parse config {path.text}"], .json⟩

/-- Adds the record in a file, if its type is meant. -/
def addFile (dir : Path) (specific : Option String) (found : NameMap TypeRecord)
    (file : String) :
    Plan (NameMap TypeRecord) := do
  let name := Text.dropEnds ".json" file
  if TypeName.isMeant specific name then return found.insert name (← load (dir.entry file))
  else return found

/-- The records of a directory whose types are meant, by the names of their files. -/
def loadAll (dir : Path) (specific : Option String) : Plan (NameMap TypeRecord) := do
  let files ← Plan.filesEnding ".json" dir
  files.foldlM (addFile dir specific) .empty

end Attestation.TypeRecord
