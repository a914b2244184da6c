/-!
# Searching a text from the left

A recogniser looks at the text in front of it and says whether, and as what, it is recognised.
The functions here move a recogniser along a text. The simplest recogniser is that of a
literal: it is `List.isPrefixOf?`, which gives the text behind the literal.

## Main definitions

* `Text.firstMatch`: the leftmost place where a recogniser succeeds, with the text before it.
* `Text.find?`: the leftmost occurrence of a literal, with the texts around it.
* `Text.dropEndString?`, `Text.dropEnds`: a text without an ending, once and as often as
  possible.
-/

namespace Attestation.Text

/-- The leftmost place of the text where `recognise` succeeds: the text before that place and
what was recognised there. -/
def firstMatch {α : Type} (recognise : List Char → Option α) :
    List Char → Option (List Char × α)
  | [] => (recognise []).map fun a => ([], a)
  | c :: r =>
      match recognise (c :: r) with
      | some a => some ([], a)
      | none => (firstMatch recognise r).map fun (before, a) => (c :: before, a)

/-- The leftmost occurrence of a literal: the texts before and behind it. -/
def find? (literal text : List Char) : Option (List Char × List Char) :=
  firstMatch (List.isPrefixOf? literal) text

/-- The text behind the literal, if it starts with it. -/
def dropStart? (literal s : String) : Option String :=
  (List.isPrefixOf? literal.toList s.toList).map String.ofList

/-- The text in front of the literal, if it ends with it. -/
def dropEndString? (literal s : String) : Option String :=
  (List.isSuffixOf? literal.toList s.toList).map String.ofList

/-- The text with as many copies of the literal cut off its end as there are, but at most
`fuel`. -/
def dropEndsWithin (literal : List Char) : Nat → List Char → List Char
  | 0, text => text
  | fuel + 1, text =>
      match List.isSuffixOf? literal text with
      | some shorter => dropEndsWithin literal fuel shorter
      | none => text

/-- The text with all copies of a literal cut off its end. A text of `n` characters ends with
at most `n` copies. -/
def dropEnds (literal s : String) : String :=
  String.ofList (dropEndsWithin literal.toList s.toList.length s.toList)

end Attestation.Text
