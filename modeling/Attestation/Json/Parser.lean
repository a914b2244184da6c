import Attestation.Json.Basic
import Attestation.Text.Search

/-!
# Reading structured data

A reader for the whole of a text. It refuses a text that is not a value, is followed by
anything but blanks, or nests containers more than `Json.maxDepth` deep.

## Main definitions

* `Json.read`: a value at the front of a text.
* `Json.parse`: the value that a whole text writes.
-/

namespace Attestation.Json

/-- The deepest nesting of arrays and objects. -/
def maxDepth : Nat := 127

/-- The blanks between the parts of a value. -/
def isGap (c : Char) : Bool := c = ' ' || c = '\n' || c = '\t' || c = '\r'

/-- The text without the blanks in front. -/
def skipGap (cs : List Char) : List Char := cs.dropWhile isGap

/-- The value of a hexadecimal digit. -/
def hexValue (c : Char) : Option Nat :=
  if c.isDigit then some (c.toNat - '0'.toNat)
  else if 'a' ≤ c ∧ c ≤ 'f' then some (c.toNat - 'a'.toNat + 10)
  else if 'A' ≤ c ∧ c ≤ 'F' then some (c.toNat - 'A'.toNat + 10)
  else none

/-- The value of four hexadecimal digits. -/
def hexUnit (a b c d : Char) : Option Nat := do
  return 4096 * (← hexValue a) + 256 * (← hexValue b) + 16 * (← hexValue c) + (← hexValue d)

/-- The character for the letter of a short escape. -/
def shortEscape (c : Char) : Option Char :=
  match c with
  | '"' => some '"'
  | '\\' => some '\\'
  | '/' => some '/'
  | 'b' => some '\x08'
  | 'f' => some '\x0c'
  | 'n' => some '\n'
  | 'r' => some '\r'
  | 't' => some '\t'
  | _ => none

/-- The character that a pair of UTF-16 units stands for. -/
def pairedChar (high low : Nat) : Option Char :=
  if 0xdc00 ≤ low ∧ low ≤ 0xdfff then
    some (Char.ofNat (0x10000 + 0x400 * (high - 0xd800) + (low - 0xdc00)))
  else none

/-- The characters of a text value up to its closing quote, and what follows the quote. The
units of characters beyond the first plane come in pairs. -/
def readText (cs : List Char) : Option (List Char × List Char) :=
  match cs with
  | [] => none
  | '"' :: rest => some ([], rest)
  | '\\' :: 'u' :: a :: b :: c :: d :: rest => do
      let unit ← hexUnit a b c d
      if 0xd800 ≤ unit ∧ unit ≤ 0xdbff then
        match rest with
        | '\\' :: 'u' :: e :: f :: g :: h :: rest => do
            let char ← pairedChar unit (← hexUnit e f g h)
            let (chars, rest) ← readText rest
            return (char :: chars, rest)
        | _ => none
      else if 0xdc00 ≤ unit ∧ unit ≤ 0xdfff then none
      else do
        let (chars, rest) ← readText rest
        return (Char.ofNat unit :: chars, rest)
  | '\\' :: c :: rest => do
      let char ← shortEscape c
      let (chars, rest) ← readText rest
      return (char :: chars, rest)
  | c :: rest =>
      if c.toNat < 0x20 then none
      else do
        let (chars, rest) ← readText rest
        return (c :: chars, rest)

/-- The parts behind the opening bracket of a container, up to its closing bracket: parts
separated by commas. Each part takes at least one character, so the length of the text is fuel
enough. -/
def readParts {α : Type} (close : Char) (readPart : List Char → Option (α × List Char)) :
    Nat → List Char → Option (List α × List Char)
  | 0, _ => none
  | fuel + 1, cs => do
      let (part, cs) ← readPart cs
      match skipGap cs with
      | ',' :: rest =>
          let (parts, rest) ← readParts close readPart fuel rest
          return (part :: parts, rest)
      | c :: rest => if c = close then some ([part], rest) else none
      | [] => none

/-- The parts of a container that may be empty. -/
def readContainer {α : Type} (close : Char) (readPart : List Char → Option (α × List Char))
    (cs : List Char) : Option (List α × List Char) :=
  match skipGap cs with
  | c :: rest => if c = close then some ([], rest) else readParts close readPart cs.length cs
  | [] => none

/-- A field of an object. -/
def readField (readValue : List Char → Option (Json × List Char)) (cs : List Char) :
    Option ((String × Json) × List Char) :=
  match skipGap cs with
  | '"' :: rest => do
      let (name, rest) ← readText rest
      match skipGap rest with
      | ':' :: rest =>
          let (value, rest) ← readValue rest
          return ((String.ofList name, value), rest)
      | _ => none
  | _ => none

/-- The value at the front of a text, and the rest; containers nest at most `depth` deep. -/
def read : (depth : Nat) → List Char → Option (Json × List Char)
  | depth, cs =>
      match skipGap cs with
      | '"' :: rest =>
          (readText rest).map fun (chars, rest) => (.string (String.ofList chars), rest)
      | '[' :: rest =>
          match depth with
          | 0 => none
          | depth + 1 =>
              (readContainer ']' (read depth) rest).map fun (items, rest) =>
              (.array items, rest)
      | '\x7b' :: rest =>
          match depth with
          | 0 => none
          | depth + 1 =>
              (readContainer '\x7d' (readField (read depth)) rest).map fun (fields, rest) =>
                (.object fields, rest)
      | 'n' :: rest => (List.isPrefixOf? ['u', 'l', 'l'] rest).map fun rest => (.null, rest)
      | 't' :: rest =>
          (List.isPrefixOf? ['r', 'u', 'e'] rest).map fun rest => (.bool true, rest)
      | 'f' :: rest =>
          (List.isPrefixOf? ['a', 'l', 's', 'e'] rest).map fun rest => (.bool false, rest)
      | cs => (Number.read cs).map fun (n, rest) => (.number n, rest)

/-- The value that a whole text writes; repeated fields are kept apart. -/
def parse (s : String) : Option Json :=
  match read maxDepth s.toList with
  | some (value, rest) => if (skipGap rest).isEmpty then some value else none
  | none => none

end Attestation.Json
