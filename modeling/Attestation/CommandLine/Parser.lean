import Attestation.Command
import Attestation.CommandLine.Grammar
import Attestation.Environment
import Attestation.Text.Search

/-!
# Reading command lines

Words are read from left to right. A value stands behind its option, as the next word or
attached to it. The name of a command ends the options of the program and begins those of the
command.

## Main definitions

* `UsageError`: what can be wrong with a command line.
* `Level`: the options that have been read, for the program or for a command.
* `Level.read`: reading the words that belong to one level.
* `parse`: reading a command line.
-/

namespace Attestation.CommandLine

open Grammar (Opt)

/-- Why a command line names nothing to do. -/
inductive UsageError where
  | unknownArgument
  | invalidValue
  | argumentConflict
  | missingRequiredArgument
  | missingSubcommand
  | invalidSubcommand
  | tooManyValues
  /-- The user asks for help. -/
  | displayHelp
  /-- The user asks for the version. -/
  | displayVersion
  /-- The user says nothing at all and gets help. -/
  | displayHelpOnMissingArgumentOrSubcommand
  deriving DecidableEq, Repr

/-- The options that have been read. -/
structure Level where
  /-- Finished options, by name. -/
  given : List (String × String) := []
  /-- An option that is not finished, with its value if that has come. -/
  pending : Option (Opt × Option String) := none
  deriving Repr

namespace Level

/-- The value given for an option. -/
def get? (l : Level) (o : Opt) : Option String := (l.given.find? (·.1 = o.name)).map (·.2)

/-- Whether an option has been given. -/
def has (l : Level) (o : Opt) : Bool := (l.get? o).isSome

/-- Whether an option waits for the next word as its value. -/
def awaits (l : Level) : Bool :=
  match l.pending with
  | some (_, none) => true
  | _ => false

/-- Takes an option with its value. No option is given twice, and a path is not empty. -/
def add (l : Level) (o : Opt) (value : String) : Except UsageError Level :=
  if l.has o then .error .argumentConflict
  else if o.kind = .path && value.isEmpty then .error .invalidValue
  else .ok { l with given := l.given ++ [(o.name, value)] }

/-- Finishes the pending option, which needs a value. -/
def finish (l : Level) : Except UsageError Level :=
  match l.pending with
  | none => .ok l
  | some (_, none) => .error .invalidValue
  | some (o, some value) => { l with pending := none }.add o value

/-- Takes an option without an attached value. -/
def start (l : Level) (o : Opt) : Except UsageError Level := do
  let l ← l.finish
  match o.kind with
  | .help => .error .displayHelp
  | .version => .error .displayVersion
  | .flag => l.add o "true"
  | .text | .path => .ok { l with pending := some (o, none) }

/-- Takes an option with an attached value. -/
def attach (l : Level) (o : Opt) (value : String) : Except UsageError Level :=
  if o.kind.takesValue then do (← l.finish).add o value else .error .tooManyValues

/-- Takes a cluster of short options. The rest of the word behind an option with a value is its
value. -/
def takeShorts (options : List Opt) (l : Level) : List Char → Except UsageError Level
  | [] => .ok l
  | c :: rest =>
      match Grammar.short? options c with
      | none => .error .unknownArgument
      | some o =>
          if o.kind.takesValue then
            match rest with
            | [] => l.start o
            | '=' :: value => l.attach o (String.ofList value)
            | value => l.attach o (String.ofList value)
          else do takeShorts options (← l.start o) rest

/-- Takes a word behind two hyphens. -/
def takeLong (options : List Opt) (l : Level) (word : List Char) : Except UsageError Level :=
  let name := word.takeWhile (· ≠ '=')
  match Grammar.long? options (String.ofList name) with
  | none => .error .unknownArgument
  | some o =>
      match word.dropWhile (· ≠ '=') with
      | _ :: value => l.attach o (String.ofList value)
      | [] => l.start o

/-- Takes a word that is no option: the value that is waited for. Where none is, the word is
out of place. -/
def takeValue (l : Level) (word : String) (misplaced : UsageError) : Except UsageError Level :=
  match l.pending with
  | some (o, none) => .ok { l with pending := some (o, some word) }
  | _ => .error misplaced

/-- Takes a word, where no name of a command is meant. -/
def take (options : List Opt) (misplaced : UsageError) (l : Level) (word : String) :
    Except UsageError Level :=
  match word.toList with
  | '-' :: '-' :: name => l.takeLong options name
  | '-' :: c :: cluster => l.takeShorts options (c :: cluster)
  | _ => l.takeValue word misplaced

/-- Reads words up to the name of a command, as `isCommand` knows it: the options before it,
and the name with the words behind it. Two hyphens end the options. -/
def read (options : List Opt) (isCommand : String → Bool) (misplaced : UsageError)
    (l : Level) :
    List String → Except UsageError (Level × Option (String × List String))
  | [] => .ok (l, none)
  | word :: more =>
      if isCommand word && !l.awaits then .ok (l, some (word, more))
      else if word = "--" then
        match more with
        | [] => .ok (l, none)
        | next :: _ => .error (if isCommand next then .unknownArgument else misplaced)
      else do read options isCommand misplaced (← l.take options misplaced word) more

/-- Finishes a level: its pending option, and the value that the environment gives for the
root. -/
def close (e : Environment) (l : Level) : Except UsageError Level := do
  let l ← l.finish
  if !l.has Grammar.root && (e.get? "ATTGEN_ROOT").any String.isEmpty then .error .invalidValue
  else .ok l

end Level

/-- The command with the given options. -/
def commandOf (name : String) (l : Level) : Option Command :=
  let type := l.get? Grammar.type
  let outPath := (l.get? Grammar.outPath).map Path.mk
  match name with
  | "config" => some (.config type outPath ((l.get? Grammar.abiOutPath).map Path.mk))
  | "dto" => some (.dto outPath)
  | "ts-type" => some (.tsType type outPath)
  | "verification-contract" =>
      some (.verificationContract type outPath ((l.get? Grammar.interfaceOutPath).map Path.mk))
  | "temporary-contracts" => some (.temporaryContracts type outPath)
  | "server" => some (.server type outPath (l.has Grammar.force))
  | "verifier-template" => do
      return .verifierTemplate (← type) (← l.get? Grammar.dataSource) (l.has Grammar.clear)
  | _ => none

/-- Reads the words behind the name of a command. -/
def readCommand (e : Environment) (c : Grammar.Command) (words : List String) :
    Except UsageError (Level × Command) := do
  let (l, _) ← Level.read (c.options ++ Grammar.globals) (fun _ => false) .unknownArgument
    {} words
  let l ← l.close e
  if (c.options.filter (·.isRequired)).all l.has then
    match commandOf c.name l with
    | some command => .ok (l, command)
    | none => .error .missingRequiredArgument
  else .error .missingRequiredArgument

/-- What a request for help about something is answered with. -/
def helpAbout : List String → UsageError
  | [] => .displayHelp
  | [topic] =>
      if topic = "help" || (Grammar.command? topic).isSome then .displayHelp
        else .invalidSubcommand
  | _ => .invalidSubcommand

/-- Whether a word is the name of a command, or asks for help. -/
def isCommand (word : String) : Bool := word = "help" || (Grammar.command? word).isSome

/-- Reads a command line, without the name of the program. An option of the command goes before
the same option of the program, and either goes before the environment. -/
def parse (e : Environment) (words : List String) : Except UsageError Invocation := do
  let (l, found) ←
    Level.read (Grammar.globals ++ [Grammar.version]) isCommand .invalidSubcommand {} words
  match found with
  | some (name, more) =>
      match Grammar.command? name with
      | none => .error (helpAbout more)
      | some c =>
          let (inner, command) ← readCommand e c more
          let l ← l.close e
          let root := (inner.get? Grammar.root <|> l.get? Grammar.root <|> e.get?
            "ATTGEN_ROOT").getD "."
          let config := inner.get? Grammar.settings <|> l.get? Grammar.settings
          return { root := ⟨root⟩, config := config.map Path.mk, command := command }
  | none =>
      let l ← l.close e
      if l.given.isEmpty && (e.get? "ATTGEN_ROOT").isNone then
        .error .displayHelpOnMissingArgumentOrSubcommand
      else .error .missingSubcommand

end Attestation.CommandLine
