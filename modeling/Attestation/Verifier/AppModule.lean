import Attestation.Script.ArrayLiteral
import Attestation.Script.ImportBlock
import Attestation.Script.ImportMerge
import Attestation.Verifier.Names

/-!
# Wiring a verifier into its server

The app module of a server imports the controller and the service of each verifier and lists
them among its controllers and providers.

## Main definitions

* `Verifier.wireImports`: the module with the imports of a verifier, or without them.
* `Verifier.wireArray`: the module with a class in one of its arrays, or without it.
* `Verifier.wire`: both, for controller and service.

## Design notes

The module is edited as a text and not as a program, since it is written by hand and everything
else in it must stay as it is.  Imports go first, and the arrays are looked up in the text that
this gives.
-/

namespace Attestation.Verifier

/-- The directory of the app module; the repository itself when the module lies right in it. -/
def moduleDir (o : Options) : Path :=
  match o.appModuleRelativePath.parent with
  | some dir => if dir.text.isEmpty then ⟨"."⟩ else dir
  | none => ⟨"."⟩

/-- The controller as the app module imports it. -/
def controllerImport (here : Path) (o : Options) (n : Names) : Import :=
  .ofNames (Path.specifier here (moduleDir o) n.controllerModule) [n.controllerClass]

/-- The service as the app module imports it. -/
def serviceImport (here : Path) (o : Options) (n : Names) : Import :=
  .ofNames (Path.specifier here (moduleDir o) n.serviceModule) [n.serviceClass]

/-- The module with merged imports, among them those of the verifier, or none from its files
when `clear` is set. -/
def wireImports (here : Path) (o : Options) (n : Names) (clear : Bool) (content : List Char) :
    Except EditError (List Char) := do
  let controller := controllerImport here o n
  let service := serviceImport here o n
  let block := ImportBlock.ofText content
  let merged ← mergeImports (controller :: service :: block.imports)
  let kept :=
    if clear then merged.filter fun i => i.module ≠ controller.module && i.module
        ≠ service.module
    else merged
  return block.splice (renderImports kept).toList

/-- The module with a class as the last entry of the array of the given name, or without the
class when `clear` is set. -/
def wireArray (name className : String) (clear : Bool) (content : List Char) :
    Except EditError (List Char) := do
  let found ← ArrayLiteral.extract (.array name) content
  return (if clear then found.erase className else found.push className).text

/-- The app module with the verifier, or without it when `clear` is set. -/
def wire (here : Path) (o : Options) (n : Names) (clear : Bool) (content : List Char) :
    Except EditError (List Char) := do
  let content ← wireImports here o n clear content
  let content ← wireArray "controllers" n.controllerClass clear content
  wireArray "providers" n.serviceClass clear content

end Attestation.Verifier
