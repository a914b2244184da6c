import Attestation.Contract.Write
import Attestation.Declaration.Write
import Attestation.Dto.Write
import Attestation.Record.Write
import Attestation.Server.Write
import Attestation.Settings.Load
import Attestation.Verifier.Install

/-!
# Running commands

## Main definitions

* `Command.plan`: what a command does in a project with given settings.
* `Invocation.plan`: what an invocation does.

## Design notes

A command is a plan, that is data.  Running it against a tree of files gives what it does, and
the theorems about commands are about all the trees there are.
-/

namespace Attestation

/-- What a command does in a project with given settings. Relative paths are seen from
`here`. -/
def Command.plan (here : Path) (s : Settings) : Command → Plan Unit
  | .config type outPath abiOutPath => TypeRecord.writeAll s type outPath abiOutPath
  | .dto outPath => Dto.writeAll s outPath
  | .tsType type outPath => Declaration.writeAll s type outPath
  | .verificationContract type outPath interfaceOutPath =>
      Contract.writeVerification here s type outPath interfaceOutPath
  | .temporaryContracts type outPath => Contract.writeTemporary here s type outPath
  | .server type outPath force => Server.writeAll s type outPath force
  | .verifierTemplate type dataSource clear => Verifier.install here s type dataSource clear

/-- What an invocation does: it loads the settings of the project and runs the command. -/
def Invocation.plan (here : Path) (e : Environment) (i : Invocation) : Plan Unit := do
  let s ← Settings.load e i.root i.config
  Plan.log {
    level := .debug
    target := "attestation_gen::cli::commands"
    message := "running generator"
    fields := [("root", .shown s.root.text), ("command", .shown i.command.shown)] }
  i.command.plan here s

end Attestation
