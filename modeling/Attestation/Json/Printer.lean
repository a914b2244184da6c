import Attestation.Json.Basic
import Attestation.Text.Split

/-!
# Writing structured data

Two forms of a value: one line without any blanks, and lines indented by two spaces per level.

## Main definitions

* `Json.quoted`: a text value.
* `Json.compact`: the form on one line.
* `Json.pretty`: the indented form.

## Design notes

The recursion goes through the lists of items and of fields, so each form is three functions
that call each other, one for each kind of list and one for values.  An empty container has no
line of its own inside of it.
-/

namespace Attestation.Json

/-- A hexadecimal digit in small letters. -/
def hexDigitOf (n : Nat) : Char := Nat.digitChar (n % 16)

/-- A character inside a text value. Quotes, backslashes and control characters are escaped. -/
def escaped (c : Char) : List Char :=
  match c with
  | '"' => ['\\', '"']
  | '\\' => ['\\', '\\']
  | '\x08' => ['\\', 'b']
  | '\x0c' => ['\\', 'f']
  | '\n' => ['\\', 'n']
  | '\r' => ['\\', 'r']
  | '\t' => ['\\', 't']
  | c =>
      if c.toNat < 0x20 then ['\\', 'u', '0', '0', hexDigitOf (c.toNat / 16),
        hexDigitOf c.toNat]
      else [c]

/-- A text value with its quotes. -/
def quoted (s : String) : String :=
  String.ofList ('"' :: (s.toList.flatMap escaped ++ ['"']))

mutual

/-- The form on one line. -/
def compact : Json → String
  | .null => "null"
  | .bool value => if value then "true" else "false"
  | .number value => value.render
  | .string s => quoted s
  | .array items => "[" ++ Text.join "," (compactItems items) ++ "]"
  | .object fields => "\x7b" ++ Text.join "," (compactFields fields) ++ "\x7d"

/-- The items of an array on one line. -/
def compactItems : List Json → List String
  | [] => []
  | item :: more => compact item :: compactItems more

/-- The fields of an object on one line. -/
def compactFields : List (String × Json) → List String
  | [] => []
  | (name, value) :: more => (quoted name ++ ":" ++ compact value) :: compactFields more

end

/-- The blanks in front of a line at a level. -/
def indent (level : Nat) : String := String.ofList (List.replicate (2 * level) ' ')

/-- Parts between brackets, each on a line of its own one level deeper. -/
def block (level : Nat) (opening closing : String) (parts : List String) : String :=
  if parts.isEmpty then opening ++ closing
  else
    opening ++ "\n" ++ Text.join ",\n" (parts.map (indent (level + 1) ++ ·)) ++ "\n"
      ++ indent level
      ++ closing

mutual

/-- The indented form of a value that starts on a line at the given level. -/
def prettyAt (level : Nat) : Json → String
  | .array items => block level "[" "]" (prettyItems (level + 1) items)
  | .object fields => block level "\x7b" "\x7d" (prettyFields (level + 1) fields)
  | .null => "null"
  | .bool value => if value then "true" else "false"
  | .number value => value.render
  | .string s => quoted s

/-- The items of an array in indented form. -/
def prettyItems (level : Nat) : List Json → List String
  | [] => []
  | item :: more => prettyAt level item :: prettyItems level more

/-- The fields of an object in indented form. -/
def prettyFields (level : Nat) : List (String × Json) → List String
  | [] => []
  | (name, value) :: more =>
      (quoted name ++ ": " ++ prettyAt level value) :: prettyFields level more

end

/-- The indented form of a value. -/
def pretty (value : Json) : String := prettyAt 0 value

end Attestation.Json
