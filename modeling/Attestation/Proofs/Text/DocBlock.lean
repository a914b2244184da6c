import Attestation.Proofs.Text.Lines
import Attestation.Text.Comment

/-!
# Texts in documentation blocks

A documentation block has one starred line for each line of a text.  The lines can be read off
the block again (`docLines_eq`, `unlines_bodyLines`), and the block ends where it should
exactly if the text does not hold the two characters that end it (`onlyAtEnd_docLines_iff`).

* `Text.OnlyAtEnd`: a word stands at the end of a text and nowhere else.

## Design notes

That the lines can be read off the block says that nothing of the text is lost, and that the
block ends only at its end says that nothing behind it is swallowed.  The second needs a
condition on the text, and it is stated as an equivalence, so that the condition cannot be
weakened.
-/

namespace Attestation.Text

/-! ## The block of a text -/

section Block

variable {text : String}

theorem trim_ne_nil (h : isBlankString text = false) : trim text.toList ≠ [] := by
  simpa [isBlankString] using h

/-- What is left of a text that is not blank does not end with a newline. -/
theorem getLast?_trim (cs : List Char) : (trim cs).getLast? ≠ some '\n' := by
  obtain ⟨-, -, -, nothing | ⟨front, last, ends, solid⟩⟩ := exists_trimEnd (trimStart cs)
  · simp [trim, nothing]
  · rw [trim, ends, List.getLast?_concat]
    rintro ⟨⟩
    exact absurd solid (by decide)

variable (full : isBlankString text = false) (plain : '\r' ∉ text.toList)
include full plain

/-- The lines of the text in its block. -/
theorem bodyLines_eq : bodyLines text
      = (List.splitOn '\n' (trim text.toList)).map String.ofList := by
  have inside : '\r' ∉ trim text.toList := fun h => plain ((infix_trim _).subset h)
  rw [bodyLines, trimString, linesString, String.toList_ofList,
    lines_eq_splitOn (trim_ne_nil full) inside (getLast?_trim _)]

/-- **The lines of the text, in order, are the text** without the blanks around it. -/
theorem unlines_bodyLines : unlines (bodyLines text) = trimString text ∧ ∀ l ∈ bodyLines text,
    '\n' ∉ l.toList := by
  rw [bodyLines_eq full plain]
  constructor
  · have back : ((List.splitOn '\n' (trim text.toList)).map String.ofList).map String.toList
        = List.splitOn '\n' (trim text.toList) := by
      simp
    rw [unlines, join, back]
    exact congrArg String.ofList (List.intercalate_splitOn '\n')
  · intro l hl
    obtain ⟨piece, hpiece, rfl⟩ := List.mem_map.mp hl
    rw [String.toList_ofList]
    exact not_mem_of_mem_splitOn hpiece

/-- **The block of a text** opens, has a starred line for each line of the text, and closes. -/
theorem docLines_eq : docLines text = ("/**" :: (bodyLines text).map ("* " ++ ·))
      ++ ["*/"] := by
  have some_ : (bodyLines text).map ("* " ++ ·) ≠ [] := by
    rw [bodyLines_eq full plain]
    simp [List.splitOn_ne_nil]
  have text_ : docBlock text
      = unlines (("/**" :: (bodyLines text).map ("* " ++ ·)) ++ ["*/"]) := by
    have starred : lineComments text "*" = unlines ((bodyLines text).map ("* " ++ ·)) := rfl
    rw [← String.toList_inj, docBlock, starred, String.toList_append,
      String.toList_append, unlines,
      toList_join, unlines, toList_join, List.map_append,
      intercalate_append (by simp) (by simp), List.map_cons]
    obtain ⟨first, more, shape⟩ := List.exists_cons_of_ne_nil some_
    rw [shape, List.map_cons, List.intercalate_cons_cons]
    simp
  rw [docLines, if_neg (by simp [full]), text_]
  refine linesString_unlines (by decide) fun l hl => ?_
  rcases List.mem_append.mp hl with hl | hl
  · rcases List.mem_cons.mp hl with rfl | hl
    · exact ⟨by decide, by decide⟩
    · obtain ⟨line, hline, rfl⟩ := List.mem_map.mp hl
      have newline := (unlines_bodyLines full plain).2 line hline
      have return_ : '\r' ∉ line.toList := by
        rw [bodyLines_eq full plain] at hline
        obtain ⟨piece, hpiece, rfl⟩ := List.mem_map.mp hline
        rw [String.toList_ofList]
        exact fun hc => plain ((infix_trim _).subset ((infix_of_mem_splitOn hpiece).subset hc))
      simp [newline, return_]
  · rw [List.mem_singleton.mp hl]
    exact ⟨by decide, by decide⟩

end Block

/-! ## Where a block ends -/

/-- The word stands at the end of the text and nowhere else.  So a comment that ends with the
word ends where the text does. -/
def OnlyAtEnd (word text : List Char) : Prop :=
  word <:+ text ∧ ∀ before behind, text = before ++ word ++ behind → behind = []

theorem onlyAtEnd_append_iff (front word : List Char) (c : Char) :
    OnlyAtEnd (word ++ [c]) (front ++ word ++ [c]) ↔ ¬ word ++ [c] <:+: front ++ word := by
  constructor
  · rintro ⟨-, only⟩ ⟨before, behind, part⟩
    have nothing := only before (behind ++ [c]) (by rw [← part]; simp)
    simp at nothing
  · refine fun absent => ⟨⟨front, by simp⟩, fun before behind cut => ?_⟩
    rcases List.eq_nil_or_concat' behind with rfl | ⟨behind, d, rfl⟩
    · rfl
    · rw [← List.append_assoc] at cut
      exact absurd ⟨before, behind, (List.append_inj_left' cut rfl).symm⟩ absent

/-- A word that starts and ends with no blank stands in what is left of a text when it stands
in the text. -/
theorem infix_trim_iff (word : List Char) {c d : Char} (hc : isBlank c = false)
    (hd : isBlank d = false)
    (text : List Char) : c :: (word ++ [d]) <:+: trim text ↔ c :: (word ++ [d]) <:+: text := by
  refine ⟨fun part => part.trans (infix_trim text), fun part => ?_⟩
  have front : text = text.takeWhile isBlank ++ trimStart text :=
    List.takeWhile_append_dropWhile.symm
  have before : c ∉ text.takeWhile isBlank := by
    intro mem
    rw [List.mem_takeWhile_imp mem] at hc
    cases hc
  obtain ⟨blanks, back, blank, -⟩ := exists_trimEnd (trimStart text)
  have behind : d ∉ blanks := by
    intro mem
    rw [blank d mem] at hd
    cases hd
  rwa [front, infix_append_left_iff before, back, ← List.cons_append,
    infix_append_right_iff behind] at part

/-- **The block of a text ends at its end** exactly if the text does not hold the two
characters that end it. -/
theorem onlyAtEnd_docLines_iff {text : String} (full : isBlankString text = false)
    (plain : '\r' ∉ text.toList) :
    OnlyAtEnd "*/".toList (unlines (docLines text)).toList ↔
    ¬ "*/".toList <:+: text.toList := by
  have chars : (unlines (docLines text)).toList = List.intercalate ['\n']
      (("/**" :: (bodyLines text).map ("* " ++ ·)).map String.toList) ++ ['\n'] ++ ['*']
        ++ ['/'] := by
    rw [docLines_eq full plain, unlines, toList_join, List.map_append,
      intercalate_append (by simp) (by simp)]
    simp
  -- The star in front of a line is set off by a blank, so it does not complete a mark.
  have starred : ∀ line : List Char, ['*', '/'] <:+: '*' :: ' ' :: line ↔
    ['*', '/'] <:+: line := by
    intro line
    rw [show '*' :: ' ' :: line = ['*'] ++ ' ' :: line from rfl,
      infix_append_cons_iff (by decide)]
    exact or_iff_right (by decide)
  have body : List.intercalate ['\n'] ((bodyLines text).map String.toList)
      = trim text.toList := by
    have back := congrArg String.toList (unlines_bodyLines full plain).1
    exact (toList_join "\n" _).symm.trans (back.trans String.toList_ofList)
  have joined : ∀ pieces : List (List Char),
      ['*', '/'] <:+: List.intercalate ['\n'] pieces ↔
      ∃ piece ∈ pieces, ['*', '/'] <:+: piece :=
    infix_intercalate_iff (by decide) (by decide)
  rw [chars]
  refine (onlyAtEnd_append_iff _ ['*'] '/').trans (not_congr ?_)
  calc ['*', '/'] <:+: List.intercalate ['\n']
        (("/**" :: (bodyLines text).map ("* " ++ ·)).map String.toList) ++ ['\n'] ++ ['*']
    _ ↔ ['*', '/'] <:+: List.intercalate ['\n']
      (("/**" :: (bodyLines text).map ("* " ++ ·)).map String.toList) := by
        rw [List.append_assoc, List.singleton_append, infix_append_cons_iff (by decide)]
        exact or_iff_left (by decide)
    _ ↔ ∃ line ∈ (bodyLines text).map String.toList, ['*', '/'] <:+: line := by
        rw [joined]
        have opening : ¬ ['*', '/'] <:+: ['/', '*', '*'] := by decide
        simp [starred, opening]
    _ ↔ ['*', '/'] <:+: trim text.toList := by rw [← joined, body]
    _ ↔ "*/".toList <:+: text.toList := infix_trim_iff [] (by decide) (by decide) _

end Attestation.Text
