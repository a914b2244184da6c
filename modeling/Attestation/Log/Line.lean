import Attestation.Json.Printer
import Attestation.Log.Config
import Attestation.Text.Quoted

/-!
# Log lines

The text of an event in either format.

## Main definitions

* `Log.Event.plainLine`: level, message and named values on a line.
* `Log.Event.toJson`: the event as an object.
* `Log.Event.line`: the line in a format.

## Design notes

Text that comes from a file or from the compiler may hold characters that control a terminal,
so a plain line shows such characters by their numbers.  The other format is read by programs,
and escapes what data escapes.
-/

namespace Attestation.Log

/-- A character of a message. Characters that control a terminal are shown by their numbers. -/
def shownChar (c : Char) : List Char :=
  if c = '\x1b' then "\\x1b".toList
  else if c = '\x07' then "\\x07".toList
  else if c = '\x08' then "\\x08".toList
  else if c = '\x0c' then "\\x0c".toList
  else if c = '\x7f' then "\\x7f".toList
  else if 0x80 ≤ c.toNat ∧ c.toNat ≤ 0x9f then Text.numbered c
  else [c]

/-- A message as a plain line shows it. -/
def shownMessage (s : String) : String := String.ofList (s.toList.flatMap shownChar)

/-- A value as a plain line shows it. -/
def Value.plain : Value → String
  | .shown text => text
  | .quoted text => Text.quoted text
  | .count n => toString n

/-- A value as data. -/
def Value.toJson : Value → Json
  | .shown text => .string text
  | .quoted text => .string text
  | .count n => .number (.integer n)

namespace Event

/-- The level in a column of five characters. -/
def levelColumn (e : Event) : String :=
  String.ofList (List.replicate (5 - e.level.name.length) ' ') ++ e.level.name

/-- Level, message and named values. -/
def plainLine (e : Event) : String :=
  e.levelColumn ++ " " ++ shownMessage e.message
    ++ String.join (e.fields.map fun (name, value) => " " ++ name ++ "=" ++ value.plain)

/-- The event as an object. -/
def toJson (e : Event) : Json :=
  .object [("level", .string e.level.name),
    ("fields", .object (("message", .string e.message)
      :: e.fields.map fun (name, value) => (name, value.toJson))),
    ("target", .string e.target)]

/-- The line in a format. -/
def line (format : Format) (e : Event) : String :=
  match format with
  | .pretty => e.plainLine
  | .json => e.toJson.compact

end Event

end Attestation.Log
