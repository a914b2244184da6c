import Attestation.Text.Search
import Attestation.Text.Split
import Attestation.Workspace.FileTree

/-!
# Tools

The formatter of generated scripts is a program of its own.  What it does is no part of this
development: it is a parameter of every run (`Programs`), and a statement that depends on it
names what it asks of the program.

## Main definitions

* `Tool.Outcome`: what a program shows, how it ends, and what it writes.
* `Programs`: what the programs of a system do.
* `Programs.basic`: a system on which no program writes a file.
-/

namespace Attestation

/-- What a program shows, how it ends, and what it writes. -/
structure Tool.Outcome where
  output : String := ""
  /-- The exit status; zero means success. -/
  status : Nat := 0
  /-- The files that get new texts, in order. -/
  writes : List (Path × String) := []
  deriving DecidableEq, Repr, Inhabited

/-- The files behind the end of a program.  A text that cannot be written changes nothing. -/
def Tool.Outcome.applyTo (outcome : Tool.Outcome) (files : FileTree) : FileTree :=
  outcome.writes.foldl (fun t (path, text) => (t.settle (t.write path text)).2) files

/-- What comes of a program and its arguments among some files, if there is such a program. -/
abbrev Programs := String → List String → FileTree → Option Tool.Outcome

namespace Tool

/-- Shows the arguments, with a newline behind them unless the first argument is `-n`. -/
def echo : List String → Outcome
  | "-n" :: arguments => { output := Text.join " " arguments }
  | arguments => { output := Text.join " " arguments ++ "\n" }

/-- Runs a script of one word; further arguments do not matter to it. -/
def shell : List String → Option Outcome
  | "-c" :: script :: _ =>
      match script with
      | "exit" | "true" | ":" => some {}
      | "false" => some { status := 1 }
      | _ => some { status := 127 }
  | _ => none

/-- The name of a program in a directory of programs. -/
def nameOf (program : String) : String :=
  ((Text.dropStart? "/usr/bin/" program) <|> (Text.dropStart? "/bin/" program)).getD program

/-- What a program does that every system has and that leaves the files alone. -/
def run? (program : String) (arguments : List String) : Option Outcome :=
  match nameOf program with
  | "true" => some {}
  | "false" => some { status := 1 }
  | "echo" => some (echo arguments)
  | "sh" => shell arguments
  | _ => none

end Tool

/-- The programs of a system without a formatter. -/
def Programs.basic : Programs := fun program arguments _ => Tool.run? program arguments

end Attestation
