import Attestation.Proofs.Script.ArrayFrame
import Attestation.Proofs.Script.ImportLines
import Attestation.Verifier.AppModule

/-!
# Anchors and import lines

Wiring looks for the arrays `controllers` and `providers` in a text in which it has just put
other import lines.  Those hold no anchor unless one of their names or modules does
(`not_occurs_lines`), and they do not complete one either (`neutral_lines`).

## Design notes

An anchor is searched in the whole text, so import lines could hold one or complete one that
starts in front of them.  The first is excluded part by part, and the second because a line
begins with the word `import` and ends with a semicolon, neither of which belongs to an
anchor.
-/

namespace Attestation

open Text

namespace Verifier

open ArrayLiteral

/-- The arrays of an app module that wiring changes. -/
def arrayNames : List String := ["controllers", "providers"]

theorem isArrayName {name : String} (h : name ∈ arrayNames) : IsArrayName name := by
  simp only [arrayNames, List.mem_cons, List.not_mem_nil, or_false] at h
  rcases h with rfl | rfl
  · exact isArrayName_controllers
  · exact isArrayName_providers

section Anchors

variable {name : String} (hname : name ∈ arrayNames)
include hname

theorem anchor_head {w : List Char} (hw : Marks name w) :
    ∃ c d r, w = c :: d :: r ∧ (c = 'c' ∨ c = 'p' ∧ d = 'r') := by
  obtain ⟨p, q, rfl, -, -⟩ := hw
  simp only [arrayNames, List.mem_cons, List.not_mem_nil, or_false] at hname
  rcases hname with rfl | rfl
  · exact ⟨_, _, _, rfl, .inl rfl⟩
  · exact ⟨_, _, _, rfl, .inr ⟨rfl, rfl⟩⟩

theorem foreign_anchor {w : List Char} (hw : Marks name w) : Foreign (w ++ ['[']) where
  nonempty := by simp
  separators := by
    intro b hb
    rw [List.mem_append, not_or]
    have letter : b.isLower = false ∧ isBlank b = false ∧ b ≠ ':' ∧ b ∉ ['['] :=
      (forall_mem_of_all (by decide) : ∀ b ∈ [',', '*', '\'', '\x7b', '\x7d', ';'],
        b.isLower = false ∧ isBlank b = false ∧ b ≠ ':' ∧ b ∉ ['[']) b hb
    exact ⟨not_mem_marks (isArrayName hname) hw letter.1 letter.2.1 letter.2.2.1, letter.2.2.2⟩
  head := by
    obtain ⟨c, d, r, rfl, h⟩ := anchor_head hname hw
    intro x hx
    have hxc : c = x := by simpa using hx
    rw [← hxc]
    rcases h with rfl | ⟨rfl, -⟩ <;> decide
  last := by
    intro x hx
    have hx' : '[' = x := by simpa using hx
    rw [← hx']
    decide

/-- The word `import` keeps anchors apart. -/
theorem anchor_append_import {w u v : List Char} (hw : Marks name w)
    (part : w ++ ['['] <:+: u ++ "import".toList ++ v) :
    w ++ ['['] <:+: u ∨ w ++ ['['] <:+: v := by
  have barrier : 'm' ∉ w ++ ['['] := by
    obtain ⟨p, q, rfl, hp, hq⟩ := hw
    have blank : isBlank 'm' = false := by decide
    have outside : 'm' ∉ name.toList := by
      simp only [arrayNames, List.mem_cons, List.not_mem_nil, or_false] at hname
      rcases hname with rfl | rfl <;> decide
    simp only [List.mem_append, List.mem_cons, not_or]
    refine ⟨⟨⟨outside, fun hm => ?_⟩, by decide, fun hm => ?_⟩, by decide⟩
    · rw [hp _ hm] at blank
      cases blank
    · rw [hq _ hm] at blank
      cases blank
  have text : u ++ "import".toList ++ v
      = (u ++ ['i']) ++ 'm' :: ('p' :: (['o', 'r', 't'] ++ v)) := by simp
  rw [text] at part
  rcases (infix_append_cons_iff barrier).mp part with part | part
  · exact .inl ((infix_append_right_iff (by decide)).mp part)
  · obtain ⟨c, d, r, rfl, h⟩ := anchor_head hname hw
    refine .inr ?_
    rcases List.infix_cons_iff.mp part with ⟨t, ht⟩ | part
    · -- The name would have to start with the letters `po`.
      simp only [List.cons_append, List.cons.injEq] at ht
      obtain ⟨hc, hd, -⟩ := ht
      rcases h with rfl | ⟨-, rfl⟩
      · exact absurd hc (by decide)
      · exact absurd hd (by decide)
    · refine (infix_append_left_iff ?_).mp part
      rcases h with rfl | ⟨rfl, -⟩ <;> decide

/-- No anchor stands in import lines, unless it stands in a name or a module. -/
theorem not_occurs_lines {imports : List Import}
    (h : ∀ i ∈ imports, ∀ s ∈ i.parts, ¬ Occurs name s.toList) :
    ¬ Occurs name (importLines imports) := by
  rintro ⟨w, hw, part⟩
  have start : ∀ v, w ++ ['['] <:+: "import".toList ++ v → w ++ ['['] <:+: v := by
    intro v part
    rcases anchor_append_import hname hw (u := []) part with part | part
    · exact absurd part (foreign_anchor hname hw).not_infix_nil
    · exact part
  obtain ⟨i, hi, s, hs, part⟩ := infix_lines (foreign_anchor hname hw) start part
  exact h i hi s hs ⟨w, hw, part⟩

/-- A text and the import lines behind it are neutral when no anchor stands in either. -/
theorem neutral_lines {u : List Char} {imports : List Import} (hu : ¬ Occurs name u)
    (h : ∀ i ∈ imports, ∀ s ∈ i.parts, ¬ Occurs name s.toList) (hne : imports ≠ []) :
    Neutral name (u ++ importLines imports) := by
  have lines := not_occurs_lines hname h
  obtain ⟨front, i, rfl⟩ := (List.eq_nil_or_concat' imports).resolve_left hne
  obtain ⟨l, hl⟩ := i.exists_line_eq
  have ends : ∃ t, importLines (front ++ [i]) = t ++ [';'] := by
    rw [ImportBlock.importLines_append_left (by simp), importLines_singleton, hl]
    exact ⟨_, by rw [← List.append_assoc]⟩
  have starts : ∃ t, importLines (front ++ [i]) = "import".toList ++ t := by
    have line : ∀ (j : Import) v, ∃ t, j.line ++ v = "import".toList ++ t := fun j v =>
      ⟨_, ImportBlock.line_append j v⟩
    cases front with
    | nil =>
        rw [List.nil_append, importLines_singleton, ← List.append_nil i.line]
        exact line i []
    | cons j front =>
        obtain ⟨k, more, hk⟩ := List.exists_cons_of_ne_nil (l := front ++ [i]) (by simp)
        rw [List.cons_append, hk, importLines_cons_cons]
        exact line j _
  obtain ⟨t, ht⟩ := ends
  obtain ⟨t', ht'⟩ := starts
  have quiet : ¬ Occurs name (u ++ importLines (front ++ [i])) := by
    rintro ⟨w, hw, part⟩
    rw [ht', ← List.append_assoc] at part
    rcases anchor_append_import hname hw part with part | part
    · exact hu ⟨w, hw, part⟩
    · exact lines ⟨w, hw, ht' ▸ part.trans (List.suffix_append _ _).isInfix⟩
  rw [ht, ← List.append_assoc] at quiet ⊢
  exact neutral_concat (isArrayName hname) (by decide) (by decide) (by decide) (by decide)
    fun ho => quiet (ho.mono (List.prefix_append _ _).isInfix)

end Anchors

end Verifier

end Attestation
