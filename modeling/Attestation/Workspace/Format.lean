import Attestation.Text.Blank
import Attestation.Workspace.Plan

/-!
# Formatting

Generated scripts are put into shape by a program that the settings name.

## Main definitions

* `Plan.format`: runs the formatter on files.

## Design notes

The formatter is a program of its own.  It is asked to run with the files as arguments, and all
that is looked at is how it ends.
-/

namespace Attestation.Plan

/-- An event about the formatting of some files. -/
def formatEvent (message : String) (files : List Path) : Log.Event where
  level := .debug
  target := "attestation_gen::generator::format"
  message := message
  fields := [("files", .count files.length)]

/-- Runs a formatter, given by its command line, on files. Without a formatter the files stay
as they are. -/
def format (formatter : Option String) (files : List Path) : Plan Unit := do
  match formatter with
  | none => log (formatEvent "no formatter configured, leaving output as rendered" files)
  | some command =>
      if files.isEmpty then return
      match (Text.words command.toList).map String.ofList with
      | [] => failWith "Formatter command is empty"
      | program :: arguments =>
          let status ← run s!"Failed to run formatter `{command}`" program
            (arguments ++ "--write" :: files.map Path.text)
          if status ≠ 0 then
            failWith s!"Formatter `{command}` failed with exit status: {status}"
          else log (formatEvent "formatted TypeScript output" files)

end Attestation.Plan
