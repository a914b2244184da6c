import Attestation.Dto.Write
import Attestation.Record.Load
import Attestation.Verifier.AppModule
import Attestation.Verifier.ControllerSource
import Attestation.Verifier.ServiceSource
import Attestation.Workspace.Format

/-!
# Installing verifiers

A verifier is put into the repository of a server: its scripts are written there, and it is
wired into the app module. It can be taken out of the app module again.

## Main definitions

* `Verifier.bareName`: the attestation type that the user means.
* `Verifier.writeScripts`: writes the scripts of a verifier.
* `Verifier.editAppModule`: wires a verifier into the app module, or out of it.
* `Verifier.install`: both, or only the latter.

## Design notes

The scripts are written before the app module is changed.  A run that fails on the way leaves a
module that still refers to what was there before, and can be repeated.
-/

namespace Attestation.Verifier

/-- The attestation type that the user means, who may give the name of its interface. -/
def bareName (given : String) : String :=
  match Text.dropStart? "I" given with
  | some name => if name.toList.head?.any Char.isUpper then name else given
  | none => given

/-- Wires a verifier into the app module of a repository, or out of it. -/
def editAppModule (here : Path) (s : Settings) (repo : Path) (o : Options) (n : Names)
    (clear : Bool) :
    Plan Unit := do
  let path := repo.join o.appModuleRelativePath
  let content ← Plan.readText s!"Failed to read app module {path.text}" path
  let updated ← Plan.ofExcept (inContext s!"Failed to update app module {path.text}"
    (orFail .edit (wire here o n clear content.toList)))
  Plan.write s!"Failed to write {path.text}" path (String.ofList updated)
  let action := if clear then "Unwired" else "Wired"
  Plan.printLine s!"✅ {action} {n.classPrefix} in app module → {Text.quotedPath path.text}"
  Plan.format s.prettier [path]

/-- The text of a file that may be missing; a missing file counts as empty. -/
def readIfThere (path : Path) : Plan String := do
  if ← Plan.exists path then Plan.readText s!"Failed to read {path.text}" path else return ""

/-- Writes a script of a verifier, and gives the file. -/
def writeScript (label : String) (path : Path) (text : String) : Plan Path := do
  Plan.writeGenerated label path text
  return path

/-- Writes the scripts of a verifier, and gives the files. The service keeps the code in its
custom sections. -/
def writeScripts (here : Path) (repo : Path) (o : Options) (n : Names) (record : TypeRecord) :
    Plan (List Path) := do
  let t := n.attestationType
  let dto ← writeScript "DTO" ((repo.join o.dtoRelPath).entry (Dto.fileName t))
    (← Plan.ofExcept (Dto.source t record))
  let generic ← writeScript "generic DTO"
    ((repo.join o.dtoGenericRelPath).entry "generic.dto.ts")
    Dto.genericSource
  let servicePath := (repo.join n.serviceModule).withExtension "service.ts"
  let old ← readIfThere servicePath
  let service ← writeScript "verifier service" servicePath
    (← Plan.ofExcept (serviceSource here o n old))
  let controller ← writeScript "verifier controller"
    ((repo.join n.controllerModule).withExtension "controller.ts") (controllerSource here o n)
  let written := [dto, generic, service, controller]
  if o.controllerTests then
    let test ← writeScript "controller spec"
      ((repo.join n.controllerDir).entry s!"{n.fileStem}.controller.spec.ts")
      (controllerTestSource here o n)
    return written ++ [test]
  else return written

/-- Puts a verifier into the repository of the settings, or takes it out of the app module
alone when `clear` is set. -/
def install (here : Path) (s : Settings) (given dataSource : String) (clear : Bool) :
    Plan Unit := do
  let o := s.verifier.resolve dataSource
  let repo := s.resolve o.repoPath
  let t := bareName given
  let n := Names.make o t dataSource
  if clear then editAppModule here s repo o n true
  else
    let records ← TypeRecord.loadAll (s.resolve s.locations.configs) (some t)
    match records.get? t with
    | none =>
        Plan.failWith s!"No config for attestation type {t}, run the `config` command first"
    | some record =>
        let written ← writeScripts here repo o n record
        Plan.format s.prettier written
        editAppModule here s repo o n false

end Attestation.Verifier
