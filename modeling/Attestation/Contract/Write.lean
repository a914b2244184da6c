import Attestation.Compiler.TypeUnit
import Attestation.Contract.Source
import Attestation.Path.Relative
import Attestation.Workspace.Generated

/-!
# Writing contracts

## Main definitions

* `Contract.Kind`: the contracts that are generated.
* `Contract.Kind.text`: the source of a contract in a directory.
* `Contract.writeAll`: writes the contracts of one kind for all types that are meant.

## Design notes

The contracts of all kinds are written by the same steps and only differ in their file, their
text and the label in messages, so a kind is data and not a program.  A verification contract
needs to know where its interface goes, which is why that kind carries a directory.
-/

namespace Attestation.Contract

/-- The contracts that are generated. -/
inductive Kind where
  /-- The contract that stands in for verification, with the directory of its interface. -/
  | verification (interfaceDir : Path)
  | verificationInterface
  | temporary
  deriving DecidableEq, Repr

/-- The file of the interface of a verification contract. -/
def interfaceFile (name : String) : String := s!"I{name}Verification.sol"

namespace Kind

/-- What the user is told about a contract. -/
def label : Kind → String
  | .verification _ => "verification contract"
  | .verificationInterface => "verification interface"
  | .temporary => "temporary contract"

/-- The file for the contract of a type. -/
def file (name : String) : Kind → String
  | .verification _ => s!"{name}Verification.sol"
  | .verificationInterface => interfaceFile name
  | .temporary => s!"I{name}Temporary.sol"

/-- The source of the contract of a type for the directory `dir`, where the type is declared in
a file of `typeDir`. -/
def text (here dir typeDir : Path) (name : String) (kind : Kind) : String :=
  let typeImport := Path.specifier here dir (typeDir.entry (TypeName.interfaceFile name))
  match kind with
  | .verification interfaceDir =>
      Contract.verification name typeImport
        (Path.specifier here dir (interfaceDir.entry (interfaceFile name)))
  | .verificationInterface => Contract.verificationInterface name typeImport
  | .temporary => Contract.temporary name typeImport

end Kind

/-- The part of the program that reports about the contracts. -/
def logTarget : String := "attestation_gen::generator::contracts"

/-- The types of a project that are meant. -/
def namesMeant (s : Settings) (specific : Option String) : Plan (List String) := do
  let names := (← typeNames s).filter (TypeName.isMeant specific)
  if names.isEmpty then
    Plan.log (Log.noneMeant logTarget "no attestation type interface matched" specific)
  return names

/-- Writes the contract of a type. -/
def writeOne (here : Path) (s : Settings) (kind : Kind) (dir : Path) (name : String) :
    Plan Unit := do
  if kind = .temporary then
    Plan.log {
      level := .info
      target := logTarget
      message := "temporary contract"
      fields := [("attestation_type", .shown name)] }
  Plan.writeGenerated kind.label (dir.entry (kind.file name))
    (kind.text here dir (s.resolve s.locations.typeInterfaceDefinitions) name)

/-- Writes the contracts of one kind for all types that are meant. -/
def writeAll (here : Path) (s : Settings) (kind : Kind) (specific : Option String)
    (dir : Path) :
    Plan Unit := do
  (← namesMeant s specific).forM (writeOne here s kind dir)

/-- Writes the interfaces of the verification contracts and then the contracts. -/
def writeVerification (here : Path) (s : Settings) (specific : Option String)
    (outPath interfaceOutPath : Option Path) : Plan Unit := do
  let dir := s.resolve (outPath.getD s.locations.verificationContracts)
  let interfaceDir := s.resolve (interfaceOutPath.getD s.locations.verificationInterfaces)
  writeAll here s .verificationInterface specific interfaceDir
  writeAll here s (.verification interfaceDir) specific dir

/-- Writes the temporary contracts. -/
def writeTemporary (here : Path) (s : Settings) (specific : Option String)
    (outPath : Option Path) :
    Plan Unit :=
  writeAll here s .temporary specific (s.resolve (outPath.getD s.locations.temporaryContracts))

end Attestation.Contract
