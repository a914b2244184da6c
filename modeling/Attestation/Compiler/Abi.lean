import Attestation.Compiler.TypeName
import Attestation.Json.Parser
import Attestation.NameMap
import Attestation.Record.Basic
import Attestation.Settings.Basic
import Attestation.Workspace.Listing

/-!
# Shapes of messages

The temporary contract of an attestation type has functions that take its messages. What the
compiler says about their parameters are the shapes of the messages.

## Main definitions

* `Abi.firstInput`: the first parameter of a function.
* `Abi.ofEntries`: the shapes in what the compiler made of a temporary contract.
* `Abi.loadAll`: the shapes of all types of a project.

## Design notes

A shape is kept as data, without a type of its own: it is only passed on, and what another
version of the compiler adds to it is passed on as well.
-/

namespace Attestation.Abi

/-- What the name of a temporary contract ends with. -/
def ending : String := "Temporary"

/-- The entries that a value says were compiled. -/
def entriesOf : Json.Decoder (List Json) := fun j => do
  (← Json.record ["abi"] j).required "abi" (Json.list Json.any)

/-- The first parameter of a function of a contract. -/
def firstInput (entries : List Json) (contract function : String) : Except LoadError Json :=
  let input := do
    let entry ← entries.find? fun e => (e.field? "name").bind Json.text? = some function
    (← entry.field? "inputs").item? 0
  match input with
  | some j => .ok j
  | none => .error (.missingAbiEntry contract function)

/-- The shapes in the entries of a temporary contract. -/
def ofEntries (entries : List Json) (contract : String) : Except LoadError AbiDefinitions := do
  return {
    request := ← firstInput entries contract "request"
    response := ← firstInput entries contract "response"
    proof := ← firstInput entries contract "proof" }

/-- The shapes in the file that the compiler wrote for a temporary contract. -/
def load (path : Path) (contract : String) : Plan AbiDefinitions := do
  let text ← Plan.readText s!"Failed to read artifact {path.text}" path
  match (Json.parse text).bind entriesOf with
  | some entries => Plan.ofExcept (orFail .load (ofEntries entries contract))
  | none => .fail ⟨[s!"Failed to parse artifact {path.text}"], .json⟩

/-- The event for a file among the temporary contracts that is none. -/
def foreignFile (file : String) : Log.Event where
  level := .warn
  target := "attestation_gen::solc::load"
  message := "ignoring non-temporary contract"
  fields := [("file", .shown file)]

/-- Adds the shapes that belong to a file of temporary contracts. -/
def addFile (compiled : Path) (found : NameMap AbiDefinitions) (file : String) :
    Plan (NameMap AbiDefinitions) := do
  let contract := Text.dropEnds ".sol" file
  match Text.dropEndString? ending contract with
  | none =>
      Plan.log (foreignFile file)
      return found
  | some interface =>
      let abis ← load ((compiled.entry file).entry s!"{contract}.json") contract
      return found.insert (TypeName.ofFile interface) abis

/-- The shapes of all attestation types of a project, by the names of the types. -/
def loadAll (s : Settings) : Plan (NameMap AbiDefinitions) := do
  let files ← Plan.filesEnding ".sol" (s.resolve s.locations.temporaryContracts)
  files.foldlM (addFile (s.resolve s.locations.temporaryContractsCompilation)) .empty

end Attestation.Abi
