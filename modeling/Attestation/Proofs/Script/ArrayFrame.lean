import Attestation.Proofs.Script.ArrayAnchor
import Attestation.Proofs.Text.Slices

/-!
# A text with two arrays

Two arrays of a script can be changed one after the other without disturbing each other, as
long as they lie apart.  `Frame` is the text around them and `Frame.plug` puts the insides of
the arrays back in.

* `extract_first`, `extract_second`: either array is found again, whatever stands in the other
  one.
* `exists_frame`: a text in which both arrays are found, one behind the other, is such a text.

## Design notes

An edit of one array must not make the other one be found at another place, and it could do so
in two ways: by an anchor in the new entries, or by one that the new text completes together
with the text around it.  `Neutral` excludes both and is kept by putting texts together, so it
is asked of every piece, and `Fits` is left with one condition that concerns both arrays.
-/

namespace Attestation.ArrayLiteral

open Text

/-- A text that adds no anchor to what stands behind it.  This is more than holding none, since
an anchor may start in the one and end in the other. -/
def Neutral (name : String) (u : List Char) : Prop := ∀ v, Occurs name (u ++ v) → Occurs name v

theorem neutral_nil (name : String) : Neutral name [] := fun _ h => h

theorem Neutral.append {name : String} {u u' : List Char} (h : Neutral name u)
    (h' : Neutral name u') :
    Neutral name (u ++ u') := by
  intro v hv
  rw [List.append_assoc] at hv
  exact h' v (h _ hv)

/-- A text without anchors that ends with some other character is neutral. -/
theorem neutral_concat {name : String} (hname : IsArrayName name) {u : List Char} {c : Char}
    (letter : c.isLower = false) (blank : isBlank c = false) (colon : c ≠ ':')
    (bracket : c ≠ '[')
    (hu : ¬ Occurs name u) : Neutral name (u ++ [c]) := by
  intro v hv
  rw [List.append_assoc, List.singleton_append,
    occurs_append_cons_iff hname letter blank colon bracket] at hv
  exact hv.resolve_left hu

theorem Opens.append {name : String} {u before : List Char} (hu : Neutral name u)
    (h : Opens name before) : Opens name (u ++ before) := by
  obtain ⟨w, hw, hs⟩ := h.ends
  exact ⟨⟨w, hw, hs.trans (List.suffix_append _ _)⟩, fun ho => h.first (hu _ ho)⟩

theorem Opens.of_append {name : String} {u before : List Char} (hu : Neutral name u)
    (h : Opens name (u ++ before)) : Opens name before := by
  have quiet : ¬ Occurs name before :=
    fun ho => h.first (ho.mono (List.suffix_append _ _).isInfix)
  obtain ⟨w, hw, f, hf⟩ := h.ends
  have inside : Occurs name (u ++ (before ++ ['['])) :=
    ⟨w, hw, f, [], by rw [← List.append_assoc, hf, List.append_nil, List.append_assoc]⟩
  obtain ⟨w', hw', part⟩ := hu _ inside
  rcases List.infix_concat_iff.mp part with ⟨g, hg⟩ | part
  · exact ⟨⟨w', hw', g, List.append_cancel_right (by rw [← hg, List.append_assoc])⟩, quiet⟩
  · exact absurd ⟨w', hw', part⟩ quiet

/-- The text around two arrays. -/
structure Frame where
  /-- The text in front of the first array. -/
  lead : List Char
  /-- The text between the arrays. -/
  between : List Char
  /-- The text behind the second array. -/
  rest : List Char

namespace Frame

variable {f : Frame} {n m : String} {u x y : List Char} {es : List String}

/-- The text with the insides of the arrays. -/
def plug (f : Frame) (x y : List Char) : List Char :=
  f.lead ++ '[' :: x ++ ']' :: f.between ++ '[' :: y ++ ']' :: f.rest

/-- The first arrays of the two names open where the frame has its brackets. -/
structure Fits (f : Frame) (n m : String) : Prop where
  lead : Opens n f.lead
  between : Opens m f.between
  apart : ¬ Occurs m (f.lead ++ ['['])

/-- The first array is found, whatever stands in the second one. -/
theorem extract_first (hn : IsArrayName n) (h : f.Fits n m) (hu : Neutral n u)
    (hx : Reads x es) :
    extract (.array n) (u ++ f.plug x y)
      = .ok ⟨u ++ f.lead, x, f.between ++ '[' :: y ++ ']' :: f.rest, es⟩ := by
  refine (extract_eq_ok_iff hn.unbracketed).mpr ⟨?_, h.lead.append hu, hx⟩
  simp [plug]

/-- The second array is found, unless the first one holds its anchor. -/
theorem extract_second (hm : IsArrayName m) (h : f.Fits n m) (hu : Neutral m u)
    (hx : ¬ Occurs m x) (hy : Reads y es) :
    extract (.array m) (u ++ f.plug x y)
      = .ok ⟨u ++ (f.lead ++ '[' :: x ++ ']' :: f.between), y, f.rest, es⟩ := by
  have front : Opens m (f.lead ++ '[' :: x ++ ']' :: f.between) := by
    obtain ⟨w, hw, hs⟩ := h.between.ends
    refine ⟨⟨w, hw, hs.trans ⟨f.lead ++ '[' :: x ++ [']'], by simp⟩⟩, ?_⟩
    rw [occurs_append_cons_iff hm (by decide) (by decide) (by decide) (by decide),
      occurs_append_bracket_iff hm]
    rintro ((ho | ho) | ho)
    · exact h.apart ho
    · exact hx ho
    · exact h.between.first ho
  refine (extract_eq_ok_iff hm.unbracketed).mpr ⟨?_, front.append hu, hy⟩
  simp [plug]

end Frame

/-! ## Where the arrays of a text lie -/

/-- Of two fronts of a text, the one with fewer bytes is the shorter one. -/
theorem isPrefix_of_utf8Size_lt {a b t : List Char} (ha : a <+: t) (hb : b <+: t)
    (h : utf8Size a < utf8Size b) : ∃ c r, b = a ++ c :: r := by
  obtain ⟨d, rfl⟩ := prefix_of_utf8Size_le ha hb (Nat.le_of_lt h)
  cases d with
  | nil =>
      rw [List.append_nil] at h
      exact absurd h (lt_irrefl _)
  | cons c r => exact ⟨c, r, rfl⟩

/-- **A text in which two arrays lie apart**, the one of the name `n` first. -/
theorem exists_frame {n m : String} (hm : IsArrayName m) {content : List Char}
    {a b : ArrayLiteral} (hn : IsArrayName n) (ha : extract (.array n) content = .ok a)
    (hb : extract (.array m) content = .ok b) (behind : a.stop < b.start) :
    ∃ f : Frame, f.Fits n m ∧ content = f.plug a.inner b.inner ∧ f.lead = a.before ∧
      f.rest = b.after ∧ b.before = f.lead ++ '[' :: a.inner ++ ']' :: f.between ∧
      ¬ Occurs m a.inner := by
  obtain ⟨textA, opensA, -⟩ := (extract_eq_ok_iff hn.unbracketed).mp ha
  obtain ⟨textB, opensB, -⟩ := (extract_eq_ok_iff hm.unbracketed).mp hb
  have size : utf8Size (a.before ++ '[' :: a.inner) < utf8Size b.before := by
    have := behind
    simp only [stop, start] at this
    rw [utf8Size_append, utf8Size_cons, show Char.utf8Size '[' = 1 from rfl]
    omega
  obtain ⟨c, between, hbetween⟩ := isPrefix_of_utf8Size_lt (t := content)
    ⟨']' :: a.after, by rw [textA]⟩ ⟨'[' :: b.inner ++ ']' :: b.after, by rw [textB]; simp⟩
      size
  have after : ']' :: a.after = c :: (between ++ '[' :: b.inner ++ ']' :: b.after) := by
    have := textA.symm.trans textB
    rw [hbetween] at this
    simpa using this
  obtain ⟨rfl, hafter⟩ := List.cons.inj after
  obtain ⟨w, hw, f, hf⟩ := opensB.ends
  -- The anchor of the second array lies behind the bracket that closes the first one.
  have ends : w <:+ between := by
    refine suffix_of_append_cons hm hw (c := ']') (by decide) (by decide) (by decide)
      (u := a.before ++ '[' :: a.inner) ?_
    rw [← hbetween]
    exact ⟨f, hf⟩
  have quiet : ¬ Occurs m (a.before ++ '[' :: a.inner ++ ']' :: between) :=
    hbetween ▸ opensB.first
  rw [occurs_append_cons_iff hm (by decide) (by decide) (by decide) (by decide),
    occurs_append_bracket_iff hm, not_or, not_or] at quiet
  refine ⟨⟨a.before, between, b.after⟩, ⟨opensA, ⟨⟨w, hw, ends⟩, quiet.2⟩, quiet.1.1⟩,
    ?_, rfl, rfl,
    hbetween, quiet.1.2⟩
  rw [textB, hbetween]
  simp [Frame.plug]

end Attestation.ArrayLiteral
