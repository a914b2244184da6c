import Attestation.Workspace.Plan
import Attestation.Workspace.Tool

/-!
# Running plans

What a plan makes of a workspace: a file tree, together with what has been shown and logged,
and with the programs that can be run there.

## Main definitions

* `Workspace`: the surroundings of a plan as plain data.
* `Request.perform`: the answer to a request, and the workspace behind it.
* `Plan.runIn`: the result of a plan, and the workspace behind it.

The statement `Plan.runIn_bind` says that a sequence of plans runs as the plans one after the
other.
-/

namespace Attestation

/-- The surroundings of a plan. -/
structure Workspace where
  files : FileTree := {}
  /-- What has been shown to the user. -/
  output : String := ""
  /-- What has been logged. -/
  events : List Log.Event := []
  /-- What the programs do that can be run. -/
  programs : Programs := Programs.basic
  deriving Inhabited

/-- The workspace behind an operation on its files. -/
def Workspace.change (w : Workspace) (operation : Except IoError Unit × FileTree) :
    Except IoError Unit × Workspace :=
  (operation.1, { w with files := operation.2 })

/-- The workspace in which a text has been shown. -/
def Workspace.display (w : Workspace) (text : String) : Workspace :=
  { w with output := w.output ++ text }

/-- The workspace behind the end of a program. -/
def Workspace.finish (w : Workspace) (outcome : Tool.Outcome) : Workspace :=
  { w.display outcome.output with files := outcome.applyTo w.files }

/-- The answer to a request, and the workspace behind it. -/
def Request.perform (w : Workspace) : (r : Request) → r.Answer × Workspace
  | .«exists» path => (w.files.exists path, w)
  | .readText path => (w.files.readText path, w)
  | .list path => (w.files.list path, w)
  | .makeDirs path => w.change (w.files.addDirs path)
  | .write path text => w.change (w.files.settle (w.files.write path text))
  | .removeTree path => w.change (w.files.removeTree path)
  | .run program arguments =>
      match w.programs program arguments w.files with
      | some outcome => (.ok outcome.status, w.finish outcome)
      | none => (.error .notFound, w)
  | .print text => ((), w.display text)
  | .log event => ((), { w with events := w.events ++ [event] })

/-- The result of a plan, and the workspace behind it. -/
def Plan.runIn {α : Type} (w : Workspace) : Plan α → Except Failure α × Workspace
  | .done a => (.ok a, w)
  | .fail failure => (.error failure, w)
  | .ask r next => (next (r.perform w).1).runIn (r.perform w).2

/-- Plans in sequence run one after the other. -/
theorem Plan.runIn_bind {α β : Type} (p : Plan α) (f : α → Plan β) (w : Workspace) :
    (p.bind f).runIn w =
      match p.runIn w with
      | (.ok a, w) => (f a).runIn w
      | (.error failure, w) => (.error failure, w) := by
  induction p generalizing w with
  | done a => rfl
  | fail failure => rfl
  | ask r next ih => exact ih _ _

end Attestation
