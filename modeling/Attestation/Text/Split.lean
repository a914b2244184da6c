/-!
# Cutting and joining text

The lines of a text, its last piece, and the inverse that joins pieces.  The pieces between the
occurrences of a character are those of `List.splitOn`; a definition stands here only where the
rule is another one, as it is for lines.

## Main definitions

* `Text.lastPiece`: the piece behind the last separator.
* `Text.lines`: the lines of a text.
* `Text.join`: pieces with a separator between neighbours.
-/

namespace Attestation.Text

/-- The piece behind the last occurrence of `sep`, or the whole text. -/
def lastPiece (sep : Char) (s : String) : String :=
  String.ofList (s.toList.reverse.takeWhile (· ≠ sep)).reverse

/-- A line read in reverse, without the carriage return that ends it. -/
def closeLine : List Char → List Char
  | '\r' :: r => r.reverse
  | r => r.reverse

/-- The line that is being read (in reverse) and the lines behind it. -/
def linesFrom : List Char → List Char → List (List Char)
  | open_, [] => if open_.isEmpty then [] else [open_.reverse]
  | open_, c :: r =>
      if c = '\n' then closeLine open_ :: linesFrom [] r
      else linesFrom (c :: open_) r

/-- The lines of a text. A line ends with a newline, or a carriage return and a newline; an
unfinished last line counts when it is not empty. -/
def lines (cs : List Char) : List (List Char) := linesFrom [] cs

/-- `lines` on strings. -/
def linesString (s : String) : List String := (lines s.toList).map String.ofList

/-- The pieces one after the other, with `sep` between neighbours. -/
def join (sep : String) (pieces : List String) : String :=
  String.ofList (sep.toList.intercalate (pieces.map String.toList))

/-- Lines joined by newlines. -/
def unlines (ls : List String) : String := join "\n" ls

end Attestation.Text
