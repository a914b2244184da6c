import Attestation.Proofs.Text.Pieces

/-!
# Texts between double quotes

A text that holds no double quote, no backslash and no line end stands for itself between
double quotes, in scripts and in contracts, and is read back from there (`untilQuote?_append`).

* `Text.IsVerbatim`: such texts.
* `Text.untilQuote?`: the text up to the next double quote.

## Design notes

Nothing is escaped when a specifier or a path is written between quotes.  Whether this does harm
is decided here once, by the characters of the text, and both the contracts and the scripts
refer to it.
-/

namespace Attestation.Text

/-- Whether the character stands for itself between double quotes. -/
def isVerbatim (c : Char) : Bool := c ∉ ['"', '\\', '\n', '\r']

/-- The text stands for itself between double quotes. -/
def IsVerbatim (s : String) : Prop := s.toList.all isVerbatim = true

instance (s : String) : Decidable (IsVerbatim s) := inferInstanceAs (Decidable (_ = _))

/-- What stands in front of the next double quote, and what stands behind it, if there is no
escape and no line end in between. -/
def untilQuote? (cs : List Char) : Option (List Char × List Char) :=
  match cs.dropWhile isVerbatim with
  | '"' :: rest => some (cs.takeWhile isVerbatim, rest)
  | _ => none

theorem IsVerbatim.not_newline {s : String} (h : IsVerbatim s) : '\n' ∉ s.toList := fun hc =>
  absurd (List.all_eq_true.mp h _ hc) (by decide)

theorem untilQuote?_append {s : String} (h : IsVerbatim s) (rest : List Char) :
    untilQuote? (s.toList ++ '"' :: rest) = some (s.toList, rest) := by
  have inside := List.all_eq_true.mp h
  have stop : ∀ c ∈ ('"' :: rest).head?, isVerbatim c = false := by
    rintro c ⟨⟩
    decide
  rw [untilQuote?, dropWhile_front inside stop, takeWhile_front inside stop]
  rfl

end Attestation.Text
