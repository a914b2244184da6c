import Attestation.Text.Blank
import Attestation.Text.Split

/-!
# Comments

Free text as the comments of generated code.

## Main definitions

* `Text.lineComments`: every line behind a marker.
* `Text.docBlock`: a documentation block, one starred line per line of text.
* `Text.docLines`: the lines of that block, none for a blank text.

## Design notes

The text is trimmed first and then cut into lines, so the block of a text that is not blank
neither begins nor ends with an empty line, and an empty line inside of the text keeps its
place.  Nothing is escaped: a text that holds the end of a comment ends the block.
-/

namespace Attestation.Text

/-- The lines of a text, without the blanks around the text. -/
def bodyLines (text : String) : List String := linesString (trimString text)

/-- Each line of the trimmed text behind `marker` and a space, or bare when the marker is
empty. -/
def lineComments (text marker : String) : String :=
  let lead := if marker.isEmpty then "" else marker ++ " "
  unlines ((bodyLines text).map (lead ++ ·))

/-- A documentation block with one starred line for each line of the trimmed text. -/
def docBlock (text : String) : String := "/**\n" ++ lineComments text "*" ++ "\n*/"

/-- The lines of the documentation block; a blank text gets no block. -/
def docLines (text : String) : List String :=
  if isBlankString text then [] else linesString (docBlock text)

end Attestation.Text
