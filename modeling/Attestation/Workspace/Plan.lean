import Attestation.Failure
import Attestation.Log.Event
import Attestation.Path.Basic
import Attestation.Workspace.FileTree

/-!
# Plans

A plan is what a command does, as data: a sequence of requests to its surroundings, where each
request can depend on the answers before it. The same plan runs on files of a computer and on a
file tree.

## Main definitions

* `Request`, `Request.Answer`: what a plan can ask for, and what it then gets.
* `Plan`: a plan that ends with a value or with a failure.
* `Plan.bind`: one plan after the other.

## Design notes

As data a plan can be examined without being run: which files it asks for, which it may write,
and what it does when a request fails.  A failure ends it, and there is no way to go on behind
one, so that every step may rely on the steps before it.
-/

namespace Attestation

/-- What a plan can ask of its surroundings. -/
inductive Request where
  /-- Whether there is something at a path. -/
  | «exists» (path : Path)
  /-- The text of a file. -/
  | readText (path : Path)
  /-- The entries of a directory. -/
  | list (path : Path)
  /-- To make a directory and those that it lies in. -/
  | makeDirs (path : Path)
  /-- To write a file. -/
  | write (path : Path) (text : String)
  /-- To remove a directory with all below it. -/
  | removeTree (path : Path)
  /-- To run a program, which may show something to the user. -/
  | run (program : String) (arguments : List String)
  /-- To show a text to the user. -/
  | print (text : String)
  /-- To log an event. -/
  | log (event : Log.Event)
  deriving DecidableEq, Repr

/-- What a plan gets for a request. A program ends with an exit status. -/
abbrev Request.Answer : Request → Type
  | .«exists» _ => Bool
  | .readText _ => Except IoError String
  | .list _ => Except IoError (List DirEntry)
  | .makeDirs _ => Except IoError Unit
  | .write _ _ => Except IoError Unit
  | .removeTree _ => Except IoError Unit
  | .run _ _ => Except IoError Nat
  | .print _ => Unit
  | .log _ => Unit

/-- A plan that ends with a value of type `α` or with a failure. -/
inductive Plan (α : Type) where
  /-- The plan that is done. -/
  | done (value : α)
  /-- The plan that has failed. -/
  | fail (failure : Failure)
  /-- The plan that makes a request and goes on as the answer tells it. -/
  | ask (request : Request) (next : request.Answer → Plan α)

namespace Plan

variable {α β : Type}

/-- The plan `p`, then the plan for its value. -/
def bind (p : Plan α) (f : α → Plan β) : Plan β :=
  match p with
  | .done a => f a
  | .fail failure => .fail failure
  | .ask r next => .ask r fun answer => (next answer).bind f

instance : Monad Plan where
  pure := .done
  bind := Plan.bind

/-- The plan for a result. -/
def ofExcept : Except Failure α → Plan α
  | .ok a => .done a
  | .error failure => .fail failure

/-- The result of a file operation, or a failure that tells what was being done. -/
def checked (context : String) : Except IoError α → Plan α
  | .ok a => .done a
  | .error e => .fail ⟨[context], .io e⟩

/-- Fails for the reason that a text tells. -/
def failWith (text : String) : Plan α := .fail (Failure.of (.other text))

/-- Asks whether there is something at a path. -/
def «exists» (path : Path) : Plan Bool := .ask (.«exists» path) .done

/-- Reads a file. -/
def readText (context : String) (path : Path) : Plan String :=
  .ask (.readText path) (checked context)

/-- Lists a directory. -/
def list (context : String) (path : Path) : Plan (List DirEntry) :=
  .ask (.list path) (checked context)

/-- Makes directories. -/
def makeDirs (context : String) (path : Path) : Plan Unit :=
  .ask (.makeDirs path) (checked context)

/-- Writes a file. -/
def write (context : String) (path : Path) (text : String) : Plan Unit :=
  .ask (.write path text) (checked context)

/-- Removes a directory. -/
def removeTree (context : String) (path : Path) : Plan Unit :=
  .ask (.removeTree path) (checked context)

/-- Runs a program. -/
def run (context program : String) (arguments : List String) : Plan Nat :=
  .ask (.run program arguments) (checked context)

/-- Shows a text to the user. -/
def print (text : String) : Plan Unit := .ask (.print text) .done

/-- Shows a line to the user. -/
def printLine (line : String) : Plan Unit := print (line ++ "\n")

/-- Logs an event. -/
def log (event : Log.Event) : Plan Unit := .ask (.log event) .done

/-- Logs events. -/
def logAll (events : List Log.Event) : Plan Unit := events.forM log

end Plan

end Attestation
