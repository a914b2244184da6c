/-!
# The grammar of command lines

Which commands there are and which options each of them takes.

## Main definitions

* `Grammar.Opt`: an option.
* `Grammar.Command`: a command with its options.
* `Grammar.commands`, `Grammar.globals`: all commands, and the options that go with every
  command.

## Design notes

The grammar is data, and the parser goes by it: an option that is added here is read without
any change to the parser.
-/

namespace Attestation.CommandLine.Grammar

/-- What an option takes. -/
inductive Kind where
  /-- Nothing. -/
  | flag
  /-- Any text. -/
  | text
  /-- A text that is not empty. -/
  | path
  /-- Nothing; it asks for help. -/
  | help
  /-- Nothing; it asks for the version. -/
  | version
  deriving DecidableEq, Repr

/-- Whether a value goes with the option. -/
def Kind.takesValue : Kind → Bool
  | .text => true
  | .path => true
  | _ => false

/-- An option. -/
structure Opt where
  /-- The long name. -/
  name : String
  kind : Kind
  /-- Other long names. -/
  aliases : List String := []
  /-- The short name. -/
  short : Option Char := none
  /-- Whether it must be given. -/
  isRequired : Bool := false
  deriving DecidableEq, Repr

/-- The root of the project. -/
def root : Opt := { name := "root", kind := .path }

/-- The settings file. -/
def settings : Opt := { name := "config", kind := .path }

/-- The request for help. -/
def help : Opt := { name := "help", kind := .help, short := some 'h' }

/-- The request for the version. -/
def version : Opt := { name := "version", kind := .version, short := some 'V' }

/-- The restriction to one attestation type. -/
def type : Opt := { name := "type", kind := .text, short := some 't' }

/-- Where the output goes. -/
def outPath : Opt := { name := "out-path", kind := .path, aliases := ["outPath"] }

/-- Where the ABIs go. -/
def abiOutPath : Opt := { name := "abi-out-path", kind := .path, aliases := ["abiOutPath"] }

/-- Where the interfaces go. -/
def interfaceOutPath : Opt :=
  { name := "interface-out-path", kind := .path, aliases := ["interfaceOutPath"] }

/-- Whether existing files are overwritten. -/
def force : Opt := { name := "force", kind := .flag, short := some 'f' }

/-- The data source of a verifier. -/
def dataSource : Opt :=
  { name := "data-source", kind := .text, aliases := ["dataSource"], short := some 'd',
    isRequired := true }

/-- Whether a verifier is only taken out. -/
def clear : Opt := { name := "clear", kind := .flag }

/-- The options that go with every command, before or behind its name. -/
def globals : List Opt := [root, settings, help]

/-- A command. -/
structure Command where
  name : String
  /-- Its own options. -/
  options : List Opt
  deriving DecidableEq, Repr

/-- All commands. -/
def commands : List Command :=
  [⟨"config", [type, outPath, abiOutPath]⟩,
    ⟨"dto", [outPath]⟩,
    ⟨"ts-type", [type, outPath]⟩,
    ⟨"verification-contract", [type, outPath, interfaceOutPath]⟩,
    ⟨"temporary-contracts", [type, outPath]⟩,
    ⟨"server", [type, outPath, force]⟩,
    ⟨"verifier-template", [{ type with isRequired := true }, dataSource, clear]⟩]

/-- The command of the given name. -/
def command? (name : String) : Option Command := commands.find? (·.name = name)

/-- The option of the given long name. -/
def long? (options : List Opt) (name : String) : Option Opt :=
  options.find? fun o => o.name = name || o.aliases.contains name

/-- The option of the given short name. -/
def short? (options : List Opt) (name : Char) : Option Opt :=
  options.find? (·.short = some name)

end Attestation.CommandLine.Grammar
