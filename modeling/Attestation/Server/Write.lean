import Attestation.Compiler.TypeUnit
import Attestation.Server.Source
import Attestation.Workspace.Generated

/-!
# Writing servers

A file of a server that exists is kept unless the user forces it to be written, because
verification logic is written by hand.

## Main definitions

* `Server.writeFile`: writes a file of a server.
* `Server.writeAll`: writes the servers of all types that are meant.

## Design notes

Whether a file exists is asked for each file on its own.  After a run that failed on the way
the next one keeps what is there and adds the rest.
-/

namespace Attestation.Server

/-- Writes a file of a server, over an existing one only when forced. -/
def writeFile (force : Bool) (dir : Path) (file : String × String) : Plan Unit := do
  let path := dir.entry file.1
  if (← Plan.exists path) && !force then
    Plan.printLine s!"⚠️  Skipping existing server file: {Text.quotedPath path.text}"
  else Plan.writeGenerated "server file" path file.2

/-- Writes the server of a type. -/
def writeOne (force : Bool) (dir : Path) (serverDir name : String) : Plan Unit :=
  (files name serverDir).forM (writeFile force (dir.entry s!"I{name}"))

/-- Writes the servers of all types that are meant. -/
def writeAll (s : Settings) (specific : Option String) (outPath : Option Path) (force : Bool) :
    Plan Unit := do
  let place := outPath.getD s.locations.server
  let names := (← typeNames s).filter (TypeName.isMeant specific)
  names.forM (writeOne force (s.resolve place) place.plainText)
  if names.isEmpty then
    Plan.log (Log.noneMeant "attestation_gen::generator::server"
      "no attestation type interface matched" specific)

end Attestation.Server
