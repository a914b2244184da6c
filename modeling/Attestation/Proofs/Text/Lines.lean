import Attestation.Proofs.Text.Pieces
import Mathlib.Algebra.GroupWithZero.Nat

/-!
# Lines of a text

A text of lines is read line by line again (`linesString_unlines`), and each of its lines
stands on a line of its own (`hasLine_unlines`).  The second says less than the first, but it
also holds of texts of which only a part is known, such as a script that is put together from
the text of its imports and of its body.

* `Text.HasLine`: a line stands in a script.

## Design notes

Script lines are searched by their text and not by their number, since a line that is added or
removed somewhere else must not matter.  `HasLine` asks for a line end on both sides, because
otherwise a line could be found inside of a longer one.
-/

namespace Attestation.Text

/-! ## Reading lines -/

/-- The lines of a text are its pieces between newlines, as long as it has no carriage returns
and does not end with a newline.  What has been read of a line belongs to the first piece. -/
theorem exists_linesFrom (begun : List Char) {cs : List Char} (nonempty : begun ++ cs ≠ [])
    (plain : '\r' ∉ begun ++ cs)
    (last : cs.getLast? ≠ some '\n') :
    ∃ first more, List.splitOn '\n' cs = first :: more ∧
      linesFrom begun cs = (begun.reverse ++ first) :: more := by
  induction cs generalizing begun with
  | nil => exact ⟨[], [], rfl, by simpa [linesFrom] using nonempty⟩
  | cons c r ih =>
      have later : r.getLast? ≠ some '\n' := by
        cases r with
        | nil => simp
        | cons d r => simpa using last
      by_cases newline : c = '\n'
      · subst newline
        have full : r ≠ [] := by
          rintro rfl
          exact last rfl
        obtain ⟨first, more, cut, rest⟩ := ih [] full (fun h => plain (by simp_all)) later
        have closed : closeLine begun = begun.reverse := by
          unfold closeLine
          split
          · exact absurd (by simp) plain
          · rfl
        exact ⟨[], first :: more, by simp [splitOn_cons_self, cut], by simp [linesFrom, closed,
          rest]⟩
      · obtain ⟨first, more, cut, rest⟩ :=
          ih (c :: begun) (by simp) (fun h => plain (by simp_all)) later
        exact ⟨c :: first, more, splitOn_cons_of_ne newline cut, by simp [linesFrom,
          newline, rest]⟩

theorem lines_eq_splitOn {cs : List Char} (nonempty : cs ≠ []) (plain : '\r' ∉ cs)
    (last : cs.getLast? ≠ some '\n') :
    lines cs = List.splitOn '\n' cs := by
  obtain ⟨first, more, cut, all⟩ := exists_linesFrom [] nonempty plain last
  rw [lines, all, cut]
  rfl

/-- Lines that are joined are read back, if the last one is not empty. -/
theorem linesString_unlines {ls : List String} {last : String} (full : last ≠ "")
    (h : ∀ l ∈ ls ++ [last], '\n' ∉ l.toList ∧ '\r' ∉ l.toList) :
    linesString (unlines (ls ++ [last])) = ls ++ [last] := by
  have text : (unlines (ls ++ [last])).toList
      = List.intercalate ['\n'] ((ls ++ [last]).map String.toList) := toList_join _ _
  have plain : '\r' ∉ (unlines (ls ++ [last])).toList := by
    intro hc
    rcases mem_join hc with hc | ⟨l, hl, hc⟩
    · exact absurd hc (by decide)
    · exact (h l hl).2 hc
  obtain ⟨front, c, ends⟩ :=
    (List.eq_nil_or_concat' last.toList).resolve_left (by simpa using full)
  have stop : ∃ before, (unlines (ls ++ [last])).toList = before ++ last.toList := by
    rw [text, List.map_append]
    by_cases alone : ls = []
    · exact ⟨[], by simp [alone]⟩
    · rw [intercalate_append (mt List.map_eq_nil_iff.mp alone) (by simp), List.map_singleton,
        List.intercalate_singleton]
      exact ⟨_, rfl⟩
  obtain ⟨before, stop⟩ := stop
  have nonempty : (unlines (ls ++ [last])).toList ≠ [] := by simp [stop, full]
  have notOpen : (unlines (ls ++ [last])).toList.getLast? ≠ some '\n' := by
    have inside : c ≠ '\n' := by
      rintro rfl
      exact (h last (by simp)).1 (by simp [ends])
    simpa [stop, ends] using inside
  have pieces : ∀ piece ∈ (ls ++ [last]).map String.toList, '\n' ∉ piece := by
    intro piece hpiece
    obtain ⟨l, hl, rfl⟩ := List.mem_map.mp hpiece
    exact (h l hl).1
  rw [linesString, lines_eq_splitOn nonempty plain notOpen, text,
    List.splitOn_intercalate _ pieces (by simp), List.map_map]
  exact (List.map_congr_left fun l _ => String.ofList_toList).trans (List.map_id _)

/-- The length of lines, each with its line break. -/
theorem length_unlines {lines : List String} (h : lines ≠ []) :
    (unlines lines).toList.length + 1 = (lines.map fun line =>
      line.toList.length + 1).sum := by
  induction lines with
  | nil => exact absurd rfl h
  | cons line more ih =>
      cases more with
      | nil => simp [unlines, toList_join]
      | cons next more =>
          have rest := ih (by simp)
          rw [unlines, toList_join] at rest ⊢
          have tail : ((line :: next :: more).map fun line => line.toList.length + 1).sum
              = line.toList.length + 1 + ((next :: more).map fun line =>
                line.toList.length + 1).sum := rfl
          rw [tail, ← rest, List.map_cons, List.map_cons, List.intercalate_cons_cons,
            ← List.map_cons, List.length_append,
            List.length_append, show "\n".toList.length = 1 from rfl]
          omega

/-! ## A line in a script -/

/-- A text stands on lines of its own in a script: what is in front of it ends with a line, and
what is behind starts with one. -/
def HasLine (script line : String) : Prop :=
  ∃ front back : List Char, script.toList = front ++ line.toList ++ back ∧
    (∀ c ∈ front.getLast?, c = '\n') ∧ ∀ c ∈ back.head?, c = '\n'

theorem hasLine_unlines {lines : List String} {line : String} (h : line ∈ lines) :
    HasLine (unlines lines) line := by
  obtain ⟨before, after, rfl⟩ := List.append_of_mem h
  have behind : ∃ back : List Char, (unlines (line :: after)).toList = line.toList ++ back ∧
    ∀ c ∈ back.head?, c = '\n' := by
    cases after with
    | nil => exact ⟨[], by simp [unlines, toList_join], by simp⟩
    | cons next more =>
        refine ⟨'\n' :: (unlines (next :: more)).toList, ?_, by simp⟩
        rw [unlines, toList_join, List.map_cons, List.map_cons, List.intercalate_cons_cons,
          ← List.map_cons, ← toList_join,
          List.append_assoc]
        rfl
  obtain ⟨back, text, stop⟩ := behind
  by_cases first : before = []
  · subst first
    exact ⟨[], back, text, by simp, stop⟩
  · refine ⟨(unlines before).toList ++ ['\n'], back, ?_, by simp, stop⟩
    rw [unlines, toList_join, List.map_append,
      intercalate_append (by simpa using first) (by simp), ← toList_join,
      ← toList_join, ← unlines, ← unlines, text]
    simp

/-- A line of the first of several texts is a line of them all. -/
theorem HasLine.unlines_cons {first line : String} (h : HasLine first line)
    (more : List String) :
    HasLine (unlines (first :: more)) line := by
  obtain ⟨front, back, text, start, stop⟩ := h
  cases more with
  | nil => exact ⟨front, back, by simpa [unlines, toList_join] using text, start, stop⟩
  | cons next more =>
      refine ⟨front, back ++ '\n' :: (unlines (next :: more)).toList, ?_, start, ?_⟩
      · rw [unlines, toList_join, List.map_cons, List.map_cons, List.intercalate_cons_cons,
          ← List.map_cons, ← toList_join, text]
        simp [unlines]
      · cases back with
        | nil => simp
        | cons c r => simpa using stop

end Attestation.Text
