import Attestation.Toml.Basic
import Attestation.Toml.Quoted

/-!
# Reading settings documents

A document is a sequence of entries and headers, one to a line, with comments. The entries
behind a header belong to its table.

## Main definitions

* `Toml.readKey`, `Toml.readValue`: the parts of an entry.
* `Toml.readStatement`: an entry or a header.
* `Toml.parse`: the entries of a whole document.
-/

namespace Attestation.Toml

/-! ## Blanks and comments -/

/-- What follows a comment, if it holds no control characters. -/
def skipComment (cs : List Char) : Option (List Char) :=
  match cs.dropWhile isPlain with
  | [] => some []
  | rest => if (afterLineEnd? rest).isSome then some rest else none

/-- What follows the end of a line, behind blanks and a comment. The end of the document ends a
line. -/
def endLine (cs : List Char) : Option (List Char) := do
  let cs ← match skipBlanks cs with
    | '#' :: rest => skipComment rest
    | rest => some rest
  if cs.isEmpty then some [] else afterLineEnd? cs

/-- The text without blanks, line ends and comments in front; `inComment` tells that a comment
is being left out. -/
def skipGap (inComment : Bool) : List Char → Option (List Char)
  | [] => some []
  | '\n' :: rest => skipGap false rest
  | '\r' :: '\n' :: rest => skipGap false rest
  | c :: rest =>
      if inComment then if isPlain c then skipGap true rest else none
      else if c = ' ' || c = '\t' then skipGap false rest
      else if c = '#' then skipGap true rest
      else some (c :: rest)

/-! ## Names -/

/-- Whether a character may stand in a name without quotes. -/
def isBare (c : Char) : Bool := c.isAlphanum || c = '_' || c = '-'

/-- One name. -/
def readName (cs : List Char) : Option (String × List Char) :=
  match cs with
  | '"' :: rest => (readBasic rest).map fun (name, rest) => (String.ofList name, rest)
  | '\x27' :: rest => (readLiteral rest).map fun (name, rest) => (String.ofList name, rest)
  | _ =>
      match cs.takeWhile isBare with
      | [] => none
      | name => some (String.ofList name, cs.dropWhile isBare)

/-- Names with dots between them. Each takes at least one character, so the length of the text
is fuel enough. -/
def readNames : Nat → List Char → Option (Key × List Char)
  | 0, _ => none
  | fuel + 1, cs => do
      let (name, rest) ← readName (skipBlanks cs)
      match skipBlanks rest with
      | '.' :: rest =>
          let (key, rest) ← readNames fuel rest
          return ({ key with path := name :: key.path }, rest)
      | rest => return (⟨[], name⟩, rest)

/-- A dotted name, and what follows it and the blanks behind it. -/
def readKey (cs : List Char) : Option (Key × List Char) := readNames (cs.length + 1) cs

/-! ## Values -/

/-- The deepest nesting of arrays and tables in braces. -/
def maxDepth : Nat := 80

/-- The items of a container, up to its closing bracket: items separated by commas, of which
one may stand behind the last. The length of the text is fuel enough. -/
def readItems {α : Type} (close : Char) (readItem : List Char → Option (α × List Char)) :
    Nat → List Char → Option (List α × List Char)
  | 0, _ => none
  | fuel + 1, cs => do
      let cs ← skipGap false cs
      if cs.head? = some close then return ([], cs.tail)
      else
        let (item, cs) ← readItem cs
        match ← skipGap false cs with
        | ',' :: rest =>
            let (items, rest) ← readItems close readItem fuel rest
            return (item :: items, rest)
        | c :: rest => if c = close then some ([item], rest) else none
        | [] => none

/-- An entry: a name, an equals sign and a value. -/
def readEntry (readValue : List Char → Option (Value × List Char)) (cs : List Char) :
    Option ((Key × Value) × List Char) := do
  let (key, cs) ← readKey cs
  match cs with
  | '=' :: rest =>
      let (value, rest) ← readValue rest
      return ((key, value), rest)
  | _ => none

/-- A text that has been read, as a value. -/
def textValue (r : Reading) : Option (Value × List Char) :=
  r.map fun (chars, rest) => (.text (String.ofList chars), rest)

/-- A value; containers nest at most `depth` deep. -/
def readValueWithin : (depth : Nat) → List Char → Option (Value × List Char)
  | depth, cs =>
      match skipBlanks cs with
      | '"' :: '"' :: '"' :: rest => textValue (readLongBasic false (openLong rest))
      | '"' :: rest => textValue (readBasic rest)
      | '\x27' :: '\x27' :: '\x27' :: rest => textValue (readLongLiteral (openLong rest))
      | '\x27' :: rest => textValue (readLiteral rest)
      | 't' :: rest =>
          (List.isPrefixOf? ['r', 'u', 'e'] rest).map fun rest => (.flag true, rest)
      | 'f' :: rest =>
          (List.isPrefixOf? ['a', 'l', 's', 'e'] rest).map fun rest => (.flag false, rest)
      | '[' :: rest =>
          match depth with
          | 0 => none
          | depth + 1 =>
              (readItems ']' (readValueWithin depth) (rest.length + 1) rest).map
                fun (items, rest) => (.array items, rest)
      | '\x7b' :: rest =>
          match depth with
          | 0 => none
          | depth + 1 => do
              let (items, rest) ←
                readItems '\x7d' (readEntry (readValueWithin depth)) (rest.length + 1) rest
              let entries ← items.foldlM (fun entries (key, value) =>
                Entries.put key value entries) []
              return (.table .inline entries, rest)
      | _ => none

/-- A value, and what follows it. -/
def readValue (cs : List Char) : Option (Value × List Char) := readValueWithin maxDepth cs

/-! ## Documents -/

/-- What a line of a document says. -/
inductive Statement where
  /-- A header: the entries behind it belong to the table of that name. -/
  | header (key : Key)
  | entry (key : Key) (value : Value)
  deriving Repr

/-- A statement at the front of a text, and what follows it. -/
def readStatement (cs : List Char) : Option (Statement × List Char) :=
  match cs with
  | '[' :: rest => do
      match ← readKey rest with
      | (key, ']' :: rest) => return (.header key, rest)
      | _ => none
  | _ => do
      let ((key, value), rest) ← readEntry readValue cs
      return (.entry key value, rest)

/-- A document that is being read. -/
structure Draft where
  /-- The names of the table that the last header opened. -/
  table : List String := []
  entries : Entries := []

/-- The document with one more statement. -/
def Draft.add (d : Draft) : Statement → Option Draft
  | .header key => do
      return { table := key.path ++ [key.name], entries := ← d.entries.openTable key }
  | .entry key value => do
      return { d with entries := ← d.entries.descend false (Entries.put key value) d.table }

/-- Reads statements to the end of the text. Each takes at least one character, so the length
of the text is fuel enough. -/
def readStatements : Nat → Draft → List Char → Option Draft
  | 0, _, _ => none
  | fuel + 1, d, cs => do
      match ← skipGap false cs with
      | [] => return d
      | cs =>
          let (statement, rest) ← readStatement cs
          readStatements fuel (← d.add statement) (← endLine rest)

/-- The entries of a whole document. A byte order mark at its front does not count. -/
def parse (s : String) : Option Entries :=
  let cs := match s.toList with
    | '\ufeff' :: rest => rest
    | cs => cs
  (readStatements (cs.length + 1) {} cs).map (·.entries)

end Attestation.Toml
