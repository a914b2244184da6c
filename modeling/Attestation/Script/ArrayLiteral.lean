import Attestation.Script.EditError
import Attestation.Text.Blank
import Attestation.Text.Extent
import Attestation.Text.Search
import Attestation.Text.Split

/-!
# Array literals

The entries of one array literal of a script, such as `providers: [A, B]`, and putting other
entries in their place. Entries are separated by commas; an object literal is an entry of its
own, whatever stands inside it.

## Main definitions

* `Anchor`: the text by which the array is found.
* `ArrayLiteral`: a text cut around the brackets of an array, with the entries of the array.
* `ArrayLiteral.extractAt`: reading the array from a place of the text on.
* `ArrayLiteral.extract`: finding the array.
* `ArrayLiteral.text`: the text with the entries as they are listed.
-/

namespace Attestation

/-- What marks the start of an array. -/
inductive Anchor where
  /-- A name, a colon and the opening bracket, with any blanks between them. -/
  | array (name : String)
  /-- Exactly this text. -/
  | literal (text : String)
  deriving DecidableEq, Repr, Inhabited

namespace Anchor

/-- The characters with a meaning of their own in patterns. -/
def special : List Char :=
  ['\\', '.', '+', '*', '?', '(', ')', '|', '[', ']', '\x7b', '\x7d', '^', '$', '#',
    '&', '-', '~']

/-- A text as a pattern for itself. -/
def escape (s : String) : String :=
  String.ofList (s.toList.flatMap fun c => if special.contains c then ['\\', c] else [c])

/-- The pattern that messages show. -/
def pattern : Anchor → String
  | .array name => escape name ++ "\\s*:\\s*\\["
  | .literal text => escape text

/-- Whether the anchor stands at the front of a text; what follows it. -/
def recognise : Anchor → List Char → Option (List Char)
  | .array name, cs => do
      let behind ← List.isPrefixOf? name.toList cs
      let behind ← List.isPrefixOf? [':'] (Text.trimStart behind)
      List.isPrefixOf? ['['] (Text.trimStart behind)
  | .literal text, cs => List.isPrefixOf? text.toList cs

/-- The text cut in front of the first occurrence of the anchor. -/
def cut (a : Anchor) (cs : List Char) : Option (List Char × List Char) :=
  (Text.firstMatch a.recognise cs).map fun (before, _) => (before, cs.drop before.length)

end Anchor

/-- A text cut around the brackets of an array. -/
structure ArrayLiteral where
  /-- The text before the opening bracket. -/
  before : List Char
  /-- The text between the brackets. -/
  inner : List Char
  /-- The text behind the closing bracket. -/
  after : List Char
  /-- The entries, in order. -/
  entries : List String
  deriving DecidableEq, Repr, Inhabited

namespace ArrayLiteral

/-- How many bytes of the text messages quote, on either side of a place. -/
def contextSize : Nat := 100

/-- The start of a text, as messages quote it. -/
def preview (content : List Char) : String :=
  String.ofList (Text.cutAt contextSize content).1 ++ "..."

/-- The text around a position, as messages quote it. -/
def contextAround (content : List Char) (position : Nat) : String :=
  let upTo := (Text.cutAt (position + contextSize) content).1
  String.ofList (upTo.drop (Text.cutAt (position - contextSize) content).1.length)

/-- The opening brackets. -/
def isOpening (c : Char) : Bool := c = '[' || c = '\x7b' || c = '('

/-- The closing brackets. -/
def isClosing (c : Char) : Bool := c = ']' || c = '\x7d' || c = ')'

/-- The bracket that closes an opening one. -/
def closingOf (opening : Char) : Char :=
  if opening = '[' then ']' else if opening = '\x7b' then '\x7d' else ')'

/-- The entries of a text between commas. Blank entries do not count. -/
def bareEntries (cs : List Char) : List String :=
  (((List.splitOn ',' cs).map Text.trim).filter (!·.isEmpty)).map String.ofList

/-- The inside of an array as far as it has been read. -/
structure Reading where
  /-- The brackets that are open, innermost first, without that of the array. -/
  opened : List Char
  /-- What has been read since the last entry, in reverse. -/
  pending : List Char
  /-- The entries so far. -/
  entries : List String

/-- The entries of what is pending, as bare text. -/
def Reading.bare (r : Reading) : List String := bareEntries r.pending.reverse

/-- Reads the inside of an array from `position` on, up to its closing bracket: the entries,
and how many characters stand before that bracket. -/
def readInside (content : List Char) (position : Nat) (r : Reading) :
    List Char → Except EditError (List String × Nat)
  | [] => .error (.arrayEndNotFound (preview content))
  | c :: rest =>
      let next := position + c.utf8Size
      let step (r : Reading) := (readInside content next r rest).map fun (es, n) => (es, n + 1)
      if isOpening c then
        if c = '\x7b' && r.opened.isEmpty then
          step ⟨[c], [c], r.entries ++ r.bare⟩
        else step ⟨c :: r.opened, c :: r.pending, r.entries⟩
      else if isClosing c then
        let mismatch (opening : Char) : Except EditError (List String × Nat) :=
          .error (.bracketMismatch opening c (contextAround content position))
        match r.opened with
        | [] => if c = ']' then .ok (r.entries ++ r.bare, 0) else mismatch '['
        | [opening] =>
            if c ≠ closingOf opening then mismatch opening
            else if c ≠ '\x7d' then .error (.expectedObjectClose c)
            else step ⟨[], [], r.entries ++ [String.ofList (c :: r.pending).reverse]⟩
        | opening :: outer =>
            if c ≠ closingOf opening then mismatch opening
            else step ⟨outer, c :: r.pending, r.entries⟩
      else step ⟨r.opened, c :: r.pending, r.entries⟩

/-- Reads the array that opens first in `cs`, a text with `front` before it. -/
def extractAt (front cs : List Char) : Except EditError ArrayLiteral :=
  let content := front ++ cs
  let before := front ++ cs.takeWhile (!isOpening ·)
  match cs.dropWhile (!isOpening ·) with
  | [] => .error (.arrayEndNotFound (preview content))
  | c :: inside =>
      if c ≠ '[' then .error (.expectedOpenBracket c)
      else do
        let (entries, size) ←
          readInside content (Text.utf8Size before + 1) ⟨[], [], []⟩ inside
        return {
          before := before
          inner := inside.take size
          after := inside.drop (size + 1)
          entries := entries }

/-- Finds the array at the first occurrence of the anchor. -/
def extract (anchor : Anchor) (content : List Char) : Except EditError ArrayLiteral :=
  match anchor.cut content with
  | none => .error (.anchorNotFound anchor.pattern (preview content))
  | some (front, cs) => extractAt front cs

/-- The position of the opening bracket. -/
def start (a : ArrayLiteral) : Nat := Text.utf8Size a.before

/-- The position of the closing bracket. -/
def stop (a : ArrayLiteral) : Nat := a.start + 1 + Text.utf8Size a.inner

/-- The text with the entries as they are listed. -/
def text (a : ArrayLiteral) : List Char :=
  a.before ++ '[' :: (Text.join ", " a.entries).toList ++ ']' :: a.after

/-- The array without the entries equal to the given one. -/
def erase (a : ArrayLiteral) (entry : String) : ArrayLiteral :=
  { a with entries := a.entries.filter (· ≠ entry) }

/-- The array with the given entry once, behind all others. -/
def push (a : ArrayLiteral) (entry : String) : ArrayLiteral :=
  { a with entries := (a.erase entry).entries ++ [entry] }

end ArrayLiteral

end Attestation
