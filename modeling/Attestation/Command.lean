import Attestation.Path.Basic
import Attestation.Text.Quoted
import Attestation.Text.Split

/-!
# Commands

What the program can be asked to do.

## Main definitions

* `Command`: the commands with their options.
* `Invocation`: a command, with the project that it is for.
-/

namespace Attestation

/-- What the program can be asked to do. A command with a type is restricted to it. -/
inductive Command where
  /-- Write a configuration and the ABI of the response for each type. -/
  | config (type : Option String) (outPath abiOutPath : Option Path)
  /-- Write DTO scripts. -/
  | dto (outPath : Option Path)
  /-- Write plain declarations. -/
  | tsType (type : Option String) (outPath : Option Path)
  /-- Write verification contracts and their interfaces. -/
  | verificationContract (type : Option String) (outPath interfaceOutPath : Option Path)
  /-- Write temporary contracts. -/
  | temporaryContracts (type : Option String) (outPath : Option Path)
  /-- Write the scaffolding of servers, over existing files only when forced. -/
  | server (type : Option String) (outPath : Option Path) (force : Bool)
  /-- Put a verifier into the repository of a server, or take it out of its app module. -/
  | verifierTemplate (type dataSource : String) (clear : Bool)
  deriving DecidableEq, Repr, Inhabited

/-- A command, with the project that it is for. -/
structure Invocation where
  /-- The root of the project. -/
  root : Path
  /-- The settings file, when it is not the usual one. -/
  config : Option Path
  command : Command
  deriving DecidableEq, Repr, Inhabited

namespace Command

/-- A value that may be missing, as log events show it. -/
def shownOption (value : Option String) : String :=
  match value with
  | some s => "Some(" ++ s ++ ")"
  | none => "None"

/-- A text that may be missing. -/
def shownText (value : Option String) : String := shownOption (value.map Text.quoted)

/-- A path that may be missing. -/
def shownPath (value : Option Path) : String :=
  shownOption (value.map fun p => Text.quotedPath p.text)

/-- A command with its options in braces. -/
def shownFields (name : String) (fields : List (String × String)) : String :=
  name ++ " \x7b " ++ Text.join ", " (fields.map fun (field, value) => field ++ ": " ++ value)
    ++ " \x7d"

/-- The command as log events show it. -/
def shown : Command → String
  | .config type outPath abiOutPath =>
      shownFields "Config" [("attestation_type", shownText type),
        ("out_path", shownPath outPath),
        ("abi_out_path", shownPath abiOutPath)]
  | .dto outPath => shownFields "Dto" [("out_path", shownPath outPath)]
  | .tsType type outPath =>
      shownFields "TsType" [("attestation_type", shownText type),
        ("out_path", shownPath outPath)]
  | .verificationContract type outPath interfaceOutPath =>
      shownFields "VerificationContract" [("attestation_type", shownText type),
        ("out_path", shownPath outPath), ("interface_out_path", shownPath interfaceOutPath)]
  | .temporaryContracts type outPath =>
      shownFields "TemporaryContracts"
        [("attestation_type", shownText type), ("out_path", shownPath outPath)]
  | .server type outPath force =>
      shownFields "Server" [("attestation_type", shownText type),
        ("out_path", shownPath outPath),
        ("force", toString force)]
  | .verifierTemplate type dataSource clear =>
      shownFields "VerifierTemplate" [("attestation_type", Text.quoted type),
        ("data_source", Text.quoted dataSource), ("clear", toString clear)]

end Command

end Attestation
