import Attestation.Script.Import
import Attestation.Text.Blank
import Attestation.Text.Extent
import Attestation.Text.Search

/-!
# The import block of a script

The import statements that stand anywhere in a text, and putting others in their place. All
text from the first statement to the last one belongs to the block, with the semicolon behind
it.

## Main definitions

* `ImportBlock.recognise`: the statement at the front of a text.
* `ImportBlock`: a text cut around its statements.
* `ImportBlock.ofText`: all statements of a text, found from left to right.
* `ImportBlock.splice`: the text with another block.
-/

namespace Attestation

/-- A statement where it stands in a text. -/
structure PlacedImport where
  /-- The text between the statement before and this one. -/
  before : List Char
  /-- The text of the statement. -/
  source : List Char
  statement : Import
  deriving DecidableEq, Repr, Inhabited

/-- A text cut around its import statements. -/
structure ImportBlock where
  /-- The statements in order. -/
  found : List PlacedImport
  /-- The text behind the last statement. -/
  rest : List Char
  deriving DecidableEq, Repr, Inhabited

namespace ImportBlock

/-- The blanks between the words of a statement. -/
def isGap (c : Char) : Bool := c = ' ' || c = '\n' || c = '\t'

/-- The text without the blanks in front. -/
def skipGap (cs : List Char) : List Char := cs.dropWhile isGap

/-- The characters of a default import. -/
def isDefaultName (c : Char) : Bool :=
  !isGap c && c ≠ '*' && c ≠ '\x7b' && c ≠ '\x7d' && c ≠ ','

/-- The characters of a namespace import. -/
def isWildcardName (c : Char) : Bool := !isGap c && c ≠ '\x7b' && c ≠ '\x7d'

/-- The characters between the braces. -/
def isListed (c : Char) : Bool := c ≠ '"' && c ≠ '\'' && c ≠ '\x7b' && c ≠ '\x7d'

/-- The quotes around a module. Either closes what the other opened. -/
def isQuote (c : Char) : Bool := c = '"' || c = '\''

/-- The characters of a module. -/
def isModule (c : Char) : Bool := !isQuote c && c ≠ '\n'

/-- What the matcher of a clause has read: default import, names and namespace. -/
structure Clause where
  default : List Char := []
  named : List Char := []
  wildcard : List Char := []

/-- A text without outer blanks, unless nothing is left of it. -/
def nonBlank (cs : List Char) : Option String :=
  let trimmed := Text.trim cs
  if trimmed.isEmpty then none else some (String.ofList trimmed)

/-- The names between commas. Blank ones do not count. -/
def namesOf (cs : List Char) : NameSet :=
  NameSet.ofList ((List.splitOn ',' cs).filterMap nonBlank)

/-- A word and the quoted module behind it, which end every statement. -/
def readModule (clause : Clause) (cs : List Char) : Option (Import × List Char) := do
  let cs ← List.isPrefixOf? "from".toList (skipGap cs)
  match skipGap cs with
  | quote :: cs =>
      let name := cs.takeWhile isModule
      match cs.dropWhile isModule with
      | closing :: rest =>
          if isQuote quote && !name.isEmpty && isQuote closing then
            some ({
              default := nonBlank clause.default
              named := namesOf clause.named
              wildcard := nonBlank clause.wildcard
              module := String.ofList (Text.trim name) }, rest)
          else none
      | [] => none
  | [] => none

/-- Names in braces, if they come next. There is at least one character in the braces besides
blanks. -/
def readNamed (cs : List Char) : Option (List Char × List Char) := do
  let cs ← List.isPrefixOf? ['\x7b'] (skipGap cs)
  let rest ← List.isPrefixOf? ['\x7d'] (cs.dropWhile isListed)
  let names := cs.takeWhile isListed
  if names.all isGap then none else some (names, rest)

/-- The end of a statement behind its default import: names in braces, if any, and the
module. -/
def readTail (default cs : List Char) : Option (Import × List Char) :=
  match readNamed cs with
  | some (named, rest) => readModule ⟨default, named, []⟩ rest
  | none => readModule ⟨default, [], []⟩ cs

/-- A statement with a default import, which a comma or a blank sets off from the rest. -/
def readDefault (cs : List Char) : Option (Import × List Char) :=
  let behindGap := skipGap cs
  let name := behindGap.takeWhile isDefaultName
  let behindName := behindGap.dropWhile isDefaultName
  if cs.head?.any isGap && !name.isEmpty then
    match skipGap behindName with
    | ',' :: rest => readTail name rest
    | rest => if behindName.head?.any isGap then readTail name rest else none
  else none

/-- A statement that imports a module as a namespace. -/
def readWildcard (cs : List Char) : Option (Import × List Char) := do
  let cs ← List.isPrefixOf? ['*'] (skipGap cs)
  let cs ← List.isPrefixOf? "as".toList (skipGap cs)
  let name := (skipGap cs).takeWhile isWildcardName
  let rest := (skipGap cs).dropWhile isWildcardName
  if cs.head?.any isGap && !name.isEmpty && rest.head?.any isGap then
    readModule ⟨[], [], name⟩ rest
  else none

/-- The statement at the front of a text, and what follows it. -/
def recognise (cs : List Char) : Option (Import × List Char) := do
  let cs ← List.isPrefixOf? "import".toList cs
  match readDefault cs with
  | some result => some result
  | none =>
      match readTail [] cs with
      | some result => some result
      | none => readWildcard cs

/-- The statements of a text, found from left to right, at most `fuel` of them. -/
def scan : Nat → List Char → ImportBlock
  | 0, cs => ⟨[], cs⟩
  | fuel + 1, cs =>
      match Text.firstMatch recognise cs with
      | none => ⟨[], cs⟩
      | some (before, statement, rest) =>
          let source := (cs.drop before.length).take (cs.length - before.length - rest.length)
          let block := scan fuel rest
          ⟨⟨before, source, statement⟩ :: block.found, block.rest⟩

/-- All statements of a text. Every statement takes at least one character, so there are no
more of them than characters. -/
def ofText (text : List Char) : ImportBlock := scan text.length text

/-- The statements. -/
def imports (b : ImportBlock) : List Import := b.found.map (·.statement)

/-- The text before the first statement; none when there is no statement. -/
def front (b : ImportBlock) : Option (List Char) := b.found.head?.map (·.before)

/-- The text behind the block. -/
def back (b : ImportBlock) : List Char :=
  match b.rest with
  | ';' :: rest => rest
  | rest => rest

/-- The whole text. -/
def text (b : ImportBlock) : List Char :=
  b.found.flatMap (fun p => p.before ++ p.source) ++ b.rest

/-- Where the block starts and ends; none when there is no statement. -/
def span (b : ImportBlock) : Option (Nat × Nat) :=
  b.front.map fun front =>
    (Text.utf8Size front, Text.utf8Size b.text - Text.utf8Size b.back)

/-- The text with other lines in the place of the block, or in front when there is no
statement. -/
def splice (b : ImportBlock) (lines : List Char) : List Char :=
  match b.front with
  | some front => front ++ lines ++ b.back
  | none => if lines.isEmpty then b.rest else lines ++ '\n' :: b.rest

end ImportBlock

end Attestation
