import Attestation.Program

/-!
# The command line program

Requests of plans are performed on the files of the computer.
-/

namespace Attestation.Main

/-- Why a file operation of the computer failed. -/
def ioErrorOf : IO.Error → IoError
  | .noFileOrDirectory .. => .notFound
  | .alreadyExists .. => .alreadyExists
  | .permissionDenied .. => .permissionDenied
  | .inappropriateType _ code _ => if code = 21 then .isADirectory else .notADirectory
  | e => .other (toString e)

/-- The result of a file operation. -/
def attempt {α : Type} (action : IO α) : IO (Except IoError α) := do
  match ← action.toBaseIO with
  | .ok a => return .ok a
  | .error e => return .error (ioErrorOf e)

/-- Reads a file that must be UTF-8. -/
def readText (path : String) : IO (Except IoError String) := do
  match ← attempt (IO.FS.readBinFile path) with
  | .error e => return .error e
  | .ok bytes =>
      match String.fromUTF8? bytes with
      | some text => return .ok text
      | none => return .error .invalidData

/-- Lists a directory. -/
def list (path : String) : IO (Except IoError (List DirEntry)) := attempt do
  let entries ← (← IO.FS.realPath path).readDir
  entries.toList.mapM fun entry => do
    let data ← entry.path.metadata
    return { name := entry.fileName, isFile := data.type == .file }

/-- Whether a path leads to a directory. -/
def isDir (path : String) : IO Bool := do
  match ← attempt (do (← IO.FS.realPath path).metadata) with
  | .ok data => return data.type == .dir
  | .error _ => return false

/-- Makes a directory where there is none yet. -/
def ensureDir (path : String) : IO (Except IoError Unit) := do
  match ← attempt (IO.FS.createDir path) with
  | .ok () => return .ok ()
  | .error e => if ← isDir path then return .ok () else return .error e

/-- Makes a directory, and before it those that it lies in, at most `fuel` of them. -/
def makeDirs : Nat → Path → IO (Except IoError Unit)
  | 0, path => ensureDir path.text
  | fuel + 1, path => do
      if path.text.isEmpty then return .ok ()
      match ← ensureDir path.text with
      | .error .notFound =>
          match path.parent with
          | some parent =>
              match ← makeDirs fuel parent with
              | .ok () => ensureDir path.text
              | failed => return failed
          | none => return .error (.other "failed to create whole tree")
      | result => return result

/-- Runs one of the programs that every system has; no other one is started from here. -/
def runTool (program : String) (arguments : List String) : IO (Except IoError Nat) := do
  match Tool.run? program arguments with
  | some outcome =>
      (← IO.getStdout).putStr outcome.output
      return .ok outcome.status
  | none => return .error .notFound

/-- Shows an event, if it is to be shown. -/
def showEvent (logging : Program.Logging) (event : Log.Event) : IO Unit := do
  if let some line := logging.line? event then (← IO.getStderr).putStrLn line

/-- Performs a request. -/
def answer (logging : Program.Logging) : (r : Request) → IO r.Answer
  | .«exists» path => do return (← attempt (IO.FS.realPath path.text)).isOk
  | .readText path => readText path.text
  | .list path => list path.text
  | .makeDirs path => makeDirs (path.text.length + 1) path
  | .write path text => attempt (IO.FS.writeFile path.text text)
  | .removeTree path => attempt (IO.FS.removeDirAll path.text)
  | .run program arguments => runTool program arguments
  | .print text => do (← IO.getStdout).putStr text
  | .log event => showEvent logging event

/-- Performs a plan. -/
def perform {α : Type} (logging : Program.Logging) : Plan α → IO (Except Failure α)
  | .done a => return .ok a
  | .fail failure => return .error failure
  | .ask r next => do perform logging (next (← answer logging r))

/-- The environment variables that the program looks at. -/
def readEnvironment : IO Environment := do
  let names := ["ATTGEN_ROOT", "ATTGEN_PRETTIER_BIN", "ATTGEN_LOG_LEVEL", "ATTGEN_LOG_FORMAT",
    "ATTGEN_LOG_TARGET_FILTER", "RUST_LOG"]
  let values ← names.mapM fun name => return (name, ← IO.getEnv name)
  return ⟨values.filterMap fun (name, value) => value.map (name, ·)⟩

/-- Shows how a run ends. -/
def finish (last : Program.End) : IO UInt32 := do
  (← IO.getStdout).putStr last.output
  for line in last.messages do (← IO.getStderr).putStrLn line
  return last.status.toUInt32

end Attestation.Main

open Attestation in
/-- Runs the program with the arguments of its command line. -/
def main (words : List String) : IO UInt32 := do
  let e ← Main.readEnvironment
  let logging := Program.Logging.ofEnvironment e
  for line in logging.warnings do (← IO.getStderr).putStrLn line
  match CommandLine.parse e words with
  | .error problem => Main.finish (Program.endOfUsage problem)
  | .ok invocation =>
      let here : Path := ⟨(← IO.currentDir).toString⟩
      let result ← Main.perform logging (invocation.plan here e)
      Main.finish (Program.endOfResult result)
