/-!
# Blank characters

Which characters separate words, and cutting them off the ends of a text.

## Main definitions

* `Text.isBlank`: membership in the Unicode property White_Space.
* `Text.trimStart`, `Text.trimEnd`, `Text.trim`: a text without its outer blanks.
* `Text.words`: the maximal blank-free pieces of a text.
* `Text.splitAtBlank`: a text cut at its first blank.
-/

namespace Attestation.Text

/-- The 25 characters with the Unicode property White_Space. -/
def blanks : List Char :=
  ['\t', '\n', '\x0b', '\x0c', '\r', ' ', '\u0085', '\u00a0', '\u1680',
    '\u2000', '\u2001', '\u2002', '\u2003', '\u2004', '\u2005', '\u2006', '\u2007', '\u2008',
    '\u2009', '\u200a', '\u2028', '\u2029', '\u202f', '\u205f', '\u3000']

/-- A blank is a character with the Unicode property White_Space. -/
def isBlank (c : Char) : Bool := blanks.contains c

/-- The text without the blanks in front. -/
def trimStart (cs : List Char) : List Char := cs.dropWhile isBlank

/-- The text without the blanks at its end. -/
def trimEnd (cs : List Char) : List Char := (cs.reverse.dropWhile isBlank).reverse

/-- The text without the blanks at both ends. -/
def trim (cs : List Char) : List Char := trimEnd (trimStart cs)

/-- `trim` on strings. -/
def trimString (s : String) : String := String.ofList (trim s.toList)

/-- A text is blank when nothing is left of it between its outer blanks. -/
def isBlankString (s : String) : Bool := (trim s.toList).isEmpty

@[simp] theorem trim_nil : trim [] = [] := rfl

/-- Trimming never makes a text longer. -/
theorem length_trim_le (cs : List Char) : (trim cs).length ≤ cs.length := by
  simp only [trim, trimEnd, List.length_reverse]
  calc ((trimStart cs).reverse.dropWhile isBlank).length
      ≤ (trimStart cs).reverse.length := (List.dropWhile_sublist _).length_le
    _ = (trimStart cs).length := List.length_reverse
    _ ≤ cs.length := (List.dropWhile_sublist _).length_le

theorem trim_all_blank {cs : List Char} (h : ∀ c ∈ cs, isBlank c = true) : trim cs = [] := by
  have hnil : trimStart cs = [] := by
    induction cs with
    | nil => rfl
    | cons c r ih =>
        simp only [trimStart, List.dropWhile_cons, h c (by simp), if_true]
        exact ih fun d hd => h d (by simp [hd])
  rw [trim, hnil]
  rfl

/-- The word that is being read (its characters in reverse) and the words behind it. -/
def wordsFrom : List Char → List Char → List (List Char)
  | open_, [] => if open_.isEmpty then [] else [open_.reverse]
  | open_, c :: r =>
      if isBlank c then
        if open_.isEmpty then wordsFrom [] r else open_.reverse :: wordsFrom [] r
      else wordsFrom (c :: open_) r

/-- The maximal pieces of a text that hold no blank, in order. -/
def words (cs : List Char) : List (List Char) := wordsFrom [] cs

/-- A text cut at its first blank: what stands before it and what stands behind it. -/
def splitAtBlank (cs : List Char) : Option (List Char × List Char) :=
  match cs.dropWhile (!isBlank ·) with
  | [] => none
  | _ :: rest => some (cs.takeWhile (!isBlank ·), rest)

end Attestation.Text
