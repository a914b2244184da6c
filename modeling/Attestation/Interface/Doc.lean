import Attestation.Text.Blank
import Attestation.Text.Search
import Attestation.Text.Split
import Attestation.Text.Unicode.Word

/-!
# Documentation tags

Documentation comments carry tags: an `@`, the name of the tag and its value, up to the next
`@` or the end of the comment.

## Main definitions

* `Doc.entries`: the texts behind each `@`.
* `Doc.tag`: the value of a tag.
* `Doc.params`: the documented parameters with their comments.

## Design notes

A tag is found by its text, and nothing is known of the tags that there are.  What stands in
front of the first `@` is free text that no one reads.
-/

namespace Attestation.Doc

/-- What follows each `@`, up to the next one. -/
def entries (doc : String) : List (List Char) := (List.splitOn '@' doc.toList).tail

/-- The value of the first tag whose text begins with the given name, without outer blanks;
empty when there is none. -/
def tag (name : String) (doc : Option String) : String :=
  match (entries (doc.getD "")).firstM (List.isPrefixOf? name.toList) with
  | some value => String.ofList (Text.trim value)
  | none => ""

/-- The text behind the tag name `param`, when the name ends there. -/
def paramBody (entry : List Char) : Option (List Char) :=
  match List.isPrefixOf? "param".toList entry with
  | some body => if body.head?.any Text.isWord then none else some body
  | none => none

/-- A parameter documentation: a name, then its comment. The error is the text that holds no
name. -/
def readParam (body : List Char) : Except String (String × String) :=
  let trimmed := Text.trim body
  if trimmed.isEmpty then .error (String.ofList (Text.trimEnd body))
  else
    match Text.splitAtBlank trimmed with
    | some (name, comment) => .ok (String.ofList name, String.ofList (Text.trim comment))
    | none => .ok (String.ofList trimmed, "")

/-- The documented parameters with their comments, in order. -/
def params (doc : Option String) : Except String (List (String × String)) :=
  ((entries (doc.getD "")).filterMap paramBody).mapM readParam

/-- Whether there is any documentation. -/
def hasText (doc : Option String) : Bool := doc.any (!Text.isBlankString ·)

end Attestation.Doc
