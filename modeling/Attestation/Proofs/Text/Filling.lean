import Attestation.Proofs.Text.Pieces
import Attestation.Proofs.Text.Search

/-!
# Words in a text with fillings

A generated script is fixed text with names filled in.  Such a text does not hold a word when
neither the fixed text nor any name holds it, and when the fixed text keeps the names apart.

* `Closed`: a text that completes no word that ends behind it.
* `fixes`: a check of fixed text, which can be computed.
* `not_infix_unlines`: a word on lines.

## Design notes

The names that are filled in are given by a user, so the script cannot be evaluated.  What can
be evaluated is the fixed text between the names, and `fixes` is the check for it.  A template
is then gone through gap by gap; if one line of the source changes, the check of that line is
computed anew, and no proof has to be written.
-/

namespace Attestation.Text

/-- The text `u` completes no word `w` that ends behind it.  A template with closed texts
between its gaps holds the word only if what it is filled with does. -/
def Closed (w u : List Char) : Prop := ∀ v, w <:+: u ++ v → w <:+: v

/-- Fixed text that keeps words apart: it does not start like the inside of the word, and it
neither starts the word nor goes into its end. -/
def fixes (w cs : List Char) : Bool :=
  cs.head?.any (fun c => c ∉ w) &&
    (w.head?.all (fun c => c ∉ cs) || !decide (w <:+: cs) && cs.getLast?.all fun c => c ∉ w)

section Word

variable {w : List Char}

theorem Closed.absent {u : List Char} (hne : w ≠ []) (h : Closed w u) : ¬ w <:+: u := by
  intro part
  have empty := h [] (by rwa [List.append_nil])
  exact hne (List.infix_nil.mp empty)

theorem closed_of_fixes {cs : List Char} (hne : w ≠ []) (h : fixes w cs = true) :
    Closed w cs := by
  intro v part
  simp only [fixes, Bool.and_eq_true, Bool.or_eq_true, Bool.not_eq_true',
    decide_eq_false_iff_not] at h
  obtain ⟨-, start | ⟨absent, last⟩⟩ := h
  · obtain ⟨c, w, rfl⟩ := List.exists_cons_of_ne_nil hne
    have outside : c ∉ cs := by simpa using start
    exact (infix_append_left_iff outside).mp part
  · rcases List.eq_nil_or_concat' cs with rfl | ⟨t, d, rfl⟩
    · exact part
    · have outside : d ∉ w := by simpa using last
      rw [List.append_assoc, List.singleton_append, infix_append_cons_iff outside] at part
      exact part.resolve_left fun inside =>
        absent (inside.trans (List.prefix_append _ _).isInfix)

/-- A name and the fixed text behind it. -/
theorem Closed.fill {before name behind : String} (hne : w ≠ []) (h : Closed w before.toList)
    (hn : ¬ w <:+: name.toList) (hb : fixes w behind.toList = true) :
    Closed w (before ++ name ++ behind).toList := by
  intro v part
  obtain ⟨d, r, hd, outside⟩ : ∃ d r, behind.toList = d :: r ∧ d ∉ w := by
    have first := hb
    simp only [fixes, Bool.and_eq_true] at first
    cases hcs : behind.toList with
    | nil => simp [hcs] at first
    | cons d r => exact ⟨d, r, rfl, by simpa [hcs] using first.1⟩
  rw [String.toList_append, String.toList_append, List.append_assoc, List.append_assoc] at part
  have part := h _ part
  rw [hd, List.cons_append, infix_append_cons_iff outside] at part
  refine closed_of_fixes hne hb v ?_
  rw [hd, List.cons_append]
  exact (part.resolve_left hn).trans (List.suffix_cons _ _).isInfix

/-- A word without newlines stands on one line. -/
theorem not_infix_unlines {lines : List String} (hne : w ≠ []) (newline : '\n' ∉ w)
    (h : ∀ line ∈ lines, ¬ w <:+: line.toList) : ¬ w <:+: (unlines lines).toList := by
  rw [unlines, toList_join]
  induction lines with
  | nil => exact fun part => hne (List.infix_nil.mp part)
  | cons line more ih =>
      have first := h line (by simp)
      have rest := ih fun l hl => h l (List.mem_cons_of_mem _ hl)
      cases more with
      | nil => simpa using first
      | cons next more =>
          rw [List.map_cons, List.map_cons, List.intercalate_cons_cons, List.append_assoc]
          show ¬ w <:+: line.toList ++ '\n' :: _
          rw [infix_append_cons_iff newline]
          exact not_or.mpr ⟨first, rest⟩

end Word

/-- What holds of the characters of a text holds of the text. -/
theorem of_chars {P : List Char → Prop} {s : String} (cs : List Char)
    (h : String.ofList cs = s)
    (hp : P cs) : P s.toList := by
  rw [← h, String.toList_ofList]
  exact hp

theorem unlines_append {first second : List String} (hf : first ≠ []) (hs : second ≠ []) :
    (unlines (first ++ second)).toList
      = (unlines first).toList ++ '\n' :: (unlines second).toList := by
  simp only [unlines, toList_join, List.map_append]
  rw [intercalate_append (by simpa using hf) (by simpa using hs), List.append_assoc]
  rfl

end Attestation.Text
