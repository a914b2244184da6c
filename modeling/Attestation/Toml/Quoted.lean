import Attestation.Json.Parser

/-!
# Quoted texts of settings documents

A text stands in double quotes, with escapes, or in single quotes, as it is. Three quotes in
place of one begin a text that may span lines.

Each reader starts behind the opening quotes, and gives the characters of the text with what
follows the closing quotes.

## Main definitions

* `Toml.readBasic`, `Toml.readLiteral`: texts on one line.
* `Toml.readLongBasic`, `Toml.readLongLiteral`: texts that may span lines.

## Design notes

The readers give what is left and not a position, so each of them can be used at any place of a
document, and the long forms go on from the short ones.
-/

namespace Attestation.Toml

/-- Characters and the rest of a text. -/
abbrev Reading := Option (List Char × List Char)

/-- Puts characters in front of those that have been read. -/
def Reading.push (cs : List Char) (r : Reading) : Reading :=
  r.map fun (chars, rest) => (cs ++ chars, rest)

/-- The single quote. -/
def quote : Char := '\x27'

/-- Whether a character may stand on a line: no control characters but tabs. -/
def isPlain (c : Char) : Bool := c = '\t' || (0x20 ≤ c.toNat && c.toNat ≠ 0x7f)

/-- The character of a number in hexadecimal digits. -/
def numberedChar (digits : List Char) : Option Char := do
  let values ← digits.mapM Json.hexValue
  let n := values.foldl (fun n d => 16 * n + d) 0
  if n.isValidChar then some (Char.ofNat n) else none

/-- The character for the letter of a short escape. -/
def shortEscape (c : Char) : Option Char :=
  match c with
  | '"' => some '"'
  | '\\' => some '\\'
  | 'b' => some '\x08'
  | 'e' => some '\x1b'
  | 'f' => some '\x0c'
  | 'n' => some '\n'
  | 'r' => some '\r'
  | 't' => some '\t'
  | _ => none

/-- Reads a text in double quotes. -/
def readBasic : List Char → Reading
  | '"' :: rest => some ([], rest)
  | '\\' :: 'U' :: a :: b :: c :: d :: e :: f :: g :: h :: rest => do
      Reading.push [← numberedChar [a, b, c, d, e, f, g, h]] (readBasic rest)
  | '\\' :: 'u' :: a :: b :: c :: d :: rest => do
      Reading.push [← numberedChar [a, b, c, d]] (readBasic rest)
  | '\\' :: 'x' :: a :: b :: rest => do Reading.push [← numberedChar [a, b]] (readBasic rest)
  | '\\' :: c :: rest => do Reading.push [← shortEscape c] (readBasic rest)
  | c :: rest => if isPlain c && c ≠ '\\' then Reading.push [c] (readBasic rest) else none
  | [] => none

/-- Reads a text in single quotes. -/
def readLiteral : List Char → Reading
  | c :: rest =>
      if c = quote then some ([], rest)
      else if isPlain c then Reading.push [c] (readLiteral rest)
      else none
  | [] => none

/-- What follows the end of a line, if it is here. -/
def afterLineEnd? : List Char → Option (List Char)
  | '\n' :: rest => some rest
  | '\r' :: '\n' :: rest => some rest
  | _ => none

/-- The text without the blanks in front. -/
def skipBlanks (cs : List Char) : List Char := cs.dropWhile fun c => c = ' ' || c = '\t'

/-- Three quotes and up to two more, which belong to the text: those, and what follows. -/
def closeLong? (mark : Char) : List Char → Reading
  | a :: b :: c :: rest =>
      if a = mark && b = mark && c = mark then
        let more := (rest.take 2).takeWhile (· = mark)
        some (more, rest.drop more.length)
      else none
  | _ => none

/-- Reads a text in three double quotes. Behind a backslash at the end of a line all blanks and
line ends are left out; `trimming` tells that they are being left out. -/
def readLongBasic (trimming : Bool) (cs : List Char) : Reading :=
  match closeLong? '"' cs with
  | some closing => some closing
  | none =>
      match cs with
      | '\\' :: 'U' :: a :: b :: c :: d :: e :: f :: g :: h :: rest => do
          Reading.push [← numberedChar [a, b, c, d, e, f, g, h]] (readLongBasic false rest)
      | '\\' :: 'u' :: a :: b :: c :: d :: rest => do
          Reading.push [← numberedChar [a, b, c, d]] (readLongBasic false rest)
      | '\\' :: 'x' :: a :: b :: rest => do
          Reading.push [← numberedChar [a, b]] (readLongBasic false rest)
      | '\\' :: c :: rest =>
          if (afterLineEnd? (skipBlanks (c :: rest))).isSome then readLongBasic true
            (c :: rest)
          else do Reading.push [← shortEscape c] (readLongBasic false rest)
      | '\r' :: '\n' :: rest =>
          if trimming then readLongBasic true rest
          else Reading.push ['\r', '\n'] (readLongBasic false rest)
      | c :: rest =>
          if trimming && (c = ' ' || c = '\t' || c = '\n') then readLongBasic true rest
          else if (isPlain c || c = '\n') && c ≠ '\\' then
            Reading.push [c] (readLongBasic false rest)
          else none
      | [] => none

/-- Reads a text in three single quotes. -/
def readLongLiteral (cs : List Char) : Reading :=
  match closeLong? quote cs with
  | some closing => some closing
  | none =>
      match cs with
      | '\r' :: '\n' :: rest => Reading.push ['\r', '\n'] (readLongLiteral rest)
      | c :: rest =>
          if isPlain c || c = '\n' then Reading.push [c] (readLongLiteral rest) else none
      | [] => none

/-- The text behind the opening quotes of a text that may span lines: a line end right behind
them does not count. -/
def openLong (cs : List Char) : List Char := (afterLineEnd? cs).getD cs

end Attestation.Toml
