import Attestation.Command
import Attestation.Workspace.Plan

/-!
# Generated files

Every generator writes its files in the same way, and tells the user about each.

## Main definitions

* `Plan.writeGenerated`: writes a generated file.
* `Log.noneMeant`: the event for a type that the user names and the project does not have.

## Design notes

There is one way to write a generated file, with a label for what it is.  So what is printed
and what fails is the same for all of them.
-/

namespace Attestation

/-- Writes a generated file, with the directories that it lies in. -/
def Plan.writeGenerated (label : String) (path : Path) (text : String) : Plan Unit := do
  if let some dir := path.parent then makeDirs s!"Failed to create directory {dir.text}" dir
  write s!"Failed to write {path.text}" path text
  printLine s!"✅ Generated {label} → {Text.quotedPath path.text}"

/-- The event for a run that finds no type to work on. -/
def Log.noneMeant (target message : String) (specific : Option String) : Log.Event where
  level := .warn
  target := target
  message := message
  fields := [("specific", .shown (Command.shownText specific))]

end Attestation
