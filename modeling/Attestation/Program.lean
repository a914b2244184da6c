import Attestation.Command.Run
import Attestation.CommandLine.Parser
import Attestation.Log.Line
import Attestation.Workspace.Run

/-!
# The program

A run of the program as a whole: what it answers to a command line in an environment, and what
it leaves in a workspace.

## Main definitions

* `Program.Logging`: which events are shown, and how.
* `Program.End`: how a run ends, and what it shows.
* `Program.endOfUsage`, `Program.endOfResult`: the end for a command line, and for the result
  of a command.
* `Program.run`: a run in a workspace.

## Design notes

A run is a function of the command line, the environment and the workspace, so that the whole
program can be examined and tested without files.  Only `Main` touches a computer.
-/

namespace Attestation.Program

/-- The name and the version of the program. -/
def versionLine : String := "attestation-gen 0.1.0-alpha.1\n"

/-- Which events are shown, and how. -/
structure Logging where
  format : Log.Format
  filter : Log.Filter
  /-- What could not be understood in the environment. -/
  warnings : List String
  deriving Repr

/-- The logging that an environment asks for. -/
def Logging.ofEnvironment (e : Environment) : Logging :=
  let config := Log.Config.ofEnvironment e
  let (filter, warnings) := config.filter e
  { format := config.format, filter := filter, warnings := warnings }

/-- The line for an event, if it is shown. -/
def Logging.line? (l : Logging) (event : Log.Event) : Option String :=
  if l.filter.shows event then some (event.line l.format) else none

/-- The line for a failure. -/
def failureLine (f : Failure) : String := s!"❌ {f.message}"

/-- How a run ends, and what it shows. -/
structure End where
  /-- The exit status. -/
  status : Nat
  /-- What is shown as a result. -/
  output : String := ""
  /-- The lines that are shown besides. -/
  messages : List String := []
  deriving DecidableEq, Repr, Inhabited

/-- The end of a run whose command line names nothing to do. Questions about the program are no
errors. -/
def endOfUsage : CommandLine.UsageError → End
  | .displayVersion => { status := 0, output := versionLine }
  | .displayHelp => { status := 0 }
  | _ => { status := 2 }

/-- The end of a run with the result of its plan. -/
def endOfResult : Except Failure Unit → End
  | .ok () => { status := 0 }
  | .error f => { status := 1, messages := [failureLine f] }

/-- A run of the program in a workspace, where relative paths are seen from `here`. -/
def run (here : Path) (e : Environment) (words : List String) (w : Workspace) :
    End × Workspace :=
  let logging := Logging.ofEnvironment e
  match CommandLine.parse e words with
  | .error problem =>
      let last := endOfUsage problem
      ({ last with messages := logging.warnings ++ last.messages }, w)
  | .ok invocation =>
      let (result, after) :=
        (invocation.plan here e).runIn { w with output := "", events := [] }
      let last := endOfResult result
      ({ last with
          output := after.output
          messages := logging.warnings ++ after.events.filterMap logging.line?
            ++ last.messages },
        after)

end Attestation.Program
