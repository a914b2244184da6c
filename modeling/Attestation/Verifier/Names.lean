import Attestation.Path.Relative
import Attestation.Text.Kebab
import Attestation.Text.Unicode.LetterCase
import Attestation.Verifier.Options

/-!
# Names of a verifier

A verifier checks one attestation type against one data source. Its classes and files are named
for both.

## Main definitions

* `Verifier.Names`: the names and places of a verifier.
* `Verifier.Names.make`: those for a type and a data source.

## Design notes

All names of a verifier are put together once, and every script and every edit takes them from
here.  The service and the controller name the same files for this reason.
-/

namespace Attestation.Verifier

/-- The names of a verifier, and its places in the repository. -/
structure Names where
  attestationType : String
  dataSource : String
  /-- What the names of the classes start with. -/
  classPrefix : String
  serviceDir : Path
  controllerDir : Path
  /-- What the names of the files start with. -/
  fileStem : String
  deriving DecidableEq, Repr, Inhabited

namespace Names

/-- The names for an attestation type and a data source. -/
def make (o : Options) (attestationType dataSource : String) : Names :=
  let source := Text.toSmall dataSource
  { attestationType := attestationType
    dataSource := dataSource
    classPrefix := dataSource ++ attestationType
    serviceDir := o.servicesRelPath.entry source
    controllerDir := o.controllersRelPath.entry source
    fileStem := source ++ "-" ++ Text.kebab attestationType ++ "-verifier" }

/-- The class of the service. -/
def serviceClass (n : Names) : String := n.classPrefix ++ "VerifierService"

/-- The class of the controller. -/
def controllerClass (n : Names) : String := n.classPrefix ++ "VerifierController"

/-- The file of the service, without its extension. -/
def serviceModule (n : Names) : Path := n.serviceDir.entry (n.fileStem ++ ".service")

/-- The file of the controller, without its extension. -/
def controllerModule (n : Names) : Path := n.controllerDir.entry (n.fileStem ++ ".controller")

end Names

/-- The DTO file of an attestation type, without its extension. -/
def dtoModule (o : Options) (attestationType : String) : Path :=
  o.dtoRelPath.entry (attestationType ++ ".dto")

/-- The DTO file that all types share, without its extension. -/
def genericDtoModule (o : Options) : Path := o.dtoGenericRelPath.entry "generic.dto"

end Attestation.Verifier
