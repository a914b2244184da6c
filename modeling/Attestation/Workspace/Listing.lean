import Attestation.Text.Search
import Attestation.Workspace.Plan

/-!
# Directory listings

The files of a directory in an order that does not depend on the file system.

## Main definitions

* `sortedNames`: names in increasing order.
* `Plan.filesEnding`: the files of a directory whose names have a given ending.

## Design notes

A file system lists a directory in any order, and what is generated must not depend on it, or
the same project would give different output on different computers.
-/

namespace Attestation

/-- Names in increasing order. -/
def sortedNames (names : List String) : List String :=
  names.mergeSort fun a b => decide (a ≤ b)

theorem sortedNames_perm (names : List String) : (sortedNames names).Perm names :=
  List.mergeSort_perm names _

/-- The names of the files among the entries of a directory, in order, as far as they have the
ending. -/
def fileNames (ending : String) (entries : List DirEntry) : List String :=
  sortedNames ((entries.filter fun e =>
    e.isFile && (Text.dropEndString? ending e.name).isSome).map
    (·.name))

/-- The names of the files of a directory that have an ending, in order. -/
def Plan.filesEnding (ending : String) (dir : Path) : Plan (List String) := do
  return fileNames ending (← Plan.list s!"Failed to read directory {dir.text}" dir)

end Attestation
