import Attestation.Text.Blank
import Attestation.Text.Search

/-!
# Custom sections

A generated script holds sections of hand-written code. A comment line opens a section, another
one closes it, and both name it.

## Main definitions

* `CustomSection.opening`, `CustomSection.closing`: the comment lines.
* `CustomSection.extract`: the code of a section.

## Design notes

Sections are found by their text and not by parsing the script, so that the rest of the script
may be anything, also text that is no script.  Indentation around a section is not part of its
code.
-/

namespace Attestation.CustomSection

/-- What starts every comment line of a section. -/
def marker : String := "//-$$$"

/-- The tag that opens the section of the given name. -/
def openingTag (name : String) : String := marker ++ "<start-" ++ name ++ ">"

/-- The tag that closes the section of the given name. -/
def closingTag (name : String) : String := marker ++ "<end-" ++ name ++ ">"

/-- The line that opens the section. -/
def opening (name : String) : String :=
  openingTag name ++ " Start of custom code section. Do not change this comment."

/-- The line that closes the section. -/
def closing (name : String) : String :=
  closingTag name ++ " End of custom code section. Do not change this comment."

/-- The code between the line with the opening tag and the closing tag, without outer
blanks. -/
def extract (code name : String) : Option String := do
  let (_, behind) ← Text.find? (openingTag name).toList code.toList
  let (body, _) ← Text.find? (closingTag name).toList (behind.dropWhile (· ≠ '\n')).tail
  return String.ofList (Text.trim body)

end Attestation.CustomSection
