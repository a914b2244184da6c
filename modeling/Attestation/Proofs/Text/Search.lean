import Attestation.Text.Search
import Mathlib.Data.List.Infix

/-!
# Where a recogniser succeeds first

`Text.firstMatch` moves a recogniser along a text.  The statements here say where it stops: at
the first place where the recogniser succeeds, and nowhere when there is none.
`firstMatch_append` is the form that later proofs use: a front on which the recogniser stays
silent is passed over, whatever follows it.

The second part is about occurrences of a word in a text that is put together from parts.  A
character that does not belong to the word keeps the parts apart (`infix_append_cons_iff`).

## Design notes

A recogniser may look at all that follows, so passing over a front is a matter of the text
behind it as well, and the lemmas speak of both.  Almost every reader of this library is such a
search. What is proved about a reader is thus split in two: what it takes at a place, and that
it takes nothing before.
-/

namespace Attestation.Text

/-- What holds of the members of a fixed list is evaluated along the list, not over all
characters. -/
theorem forall_mem_of_all {p : Char → Prop} [DecidablePred p] {cs : List Char}
    (h : cs.all (fun c => p c) = true) : ∀ c ∈ cs, p c := by simpa using h

/-! ## A literal at the front -/

theorem isPrefixOf?_append (literal text : List Char) :
    literal.isPrefixOf? (literal ++ text) = some text :=
  List.isPrefixOf?_eq_some_iff_append_eq.mpr rfl

theorem isPrefixOf?_singleton (c : Char) (text : List Char) :
    [c].isPrefixOf? (c :: text) = some text :=
  isPrefixOf?_append [c] text

theorem isPrefixOf?_cons_of_ne {l c : Char} (hne : l ≠ c) (literal text : List Char) :
    (l :: literal).isPrefixOf? (c :: text) = none := by
  simp [List.isPrefixOf?, hne]

theorem isPrefixOf?_eq_ite (literal cs : List Char) :
    List.isPrefixOf? literal cs
      = if literal <+: cs then some (cs.drop literal.length) else none := by
  split
  · next front =>
      obtain ⟨rest, rfl⟩ := front
      rw [isPrefixOf?_append, List.drop_left]
  · next other =>
      rw [Option.eq_none_iff_forall_ne_some]
      intro rest found
      exact other ⟨rest, List.append_eq_of_isPrefixOf?_eq_some found⟩

theorem firstM_isPrefixOf? (literal : List Char) (texts : List (List Char)) :
    texts.firstM (List.isPrefixOf? literal)
      = (texts.find? (literal <+: ·)).map (·.drop literal.length) := by
  induction texts with
  | nil => rfl
  | cons cs texts ih =>
      rw [List.firstM, ih, isPrefixOf?_eq_ite, List.find?_cons]
      by_cases front : literal <+: cs
      · simp [front]
      · simp [front]

/-! ## The first place -/

section FirstMatch

variable {α : Type} {recognise : List Char → Option α}

/-- What is recognised at the very front is the first match. -/
theorem firstMatch_of_recognise {cs : List Char} {a : α} (h : recognise cs = some a) :
    firstMatch recognise cs = some ([], a) := by
  cases cs with
  | nil => simp [firstMatch, h]
  | cons c r => simp [firstMatch, h]

theorem firstMatch_cons_of_none {c : Char} {r : List Char} (h : recognise (c :: r) = none) :
    firstMatch recognise (c :: r)
      = (firstMatch recognise r).map fun (before, a) => (c :: before, a) := by
  simp [firstMatch, h]

/-- A front on which the recogniser stays silent is passed over. -/
theorem firstMatch_append {u v : List Char}
    (silent : ∀ s, s ≠ [] → s <:+ u → recognise (s ++ v) = none) :
    firstMatch recognise (u ++ v)
      = (firstMatch recognise v).map fun (before, a) => (u ++ before, a) := by
  induction u with
  | nil =>
      rw [List.nil_append]
      cases firstMatch recognise v <;> rfl
  | cons c u ih =>
      have here : recognise (c :: (u ++ v)) = none := silent (c :: u) (by simp) List.suffix_rfl
      have later := ih fun s hne hs => silent s hne (hs.trans (List.suffix_cons c u))
      rw [List.cons_append, firstMatch_cons_of_none here, later]
      cases firstMatch recognise v <;> rfl

/-- There is no match exactly when the recogniser fails at every place. -/
theorem firstMatch_eq_none_iff {cs : List Char} :
    firstMatch recognise cs = none ↔ ∀ s, s <:+ cs → recognise s = none := by
  induction cs with
  | nil =>
      simp only [firstMatch, Option.map_eq_none_iff, List.suffix_nil]
      exact ⟨fun h s hs => hs ▸ h, fun h => h [] rfl⟩
  | cons c r ih =>
      constructor
      · intro h s hs
        cases hc : recognise (c :: r) with
        | some a => simp [firstMatch, hc] at h
        | none =>
            rw [firstMatch_cons_of_none hc, Option.map_eq_none_iff] at h
            rcases List.suffix_cons_iff.mp hs with rfl | hs
            · exact hc
            · exact ih.mp h s hs
      · intro h
        rw [firstMatch_cons_of_none (h _ List.suffix_rfl), Option.map_eq_none_iff]
        exact ih.mpr fun s hs => h s (hs.trans (List.suffix_cons c r))

/-- A match cuts the text in front of the place where the recogniser succeeds, and the
recogniser is silent on all of the text before it. -/
theorem eq_append_of_firstMatch {cs before : List Char} {a : α}
    (h : firstMatch recognise cs = some (before, a)) :
    ∃ rest, cs = before ++ rest ∧ recognise rest = some a ∧
      ∀ s, s ≠ [] → s <:+ before → recognise (s ++ rest) = none := by
  induction cs generalizing before with
  | nil =>
      simp only [firstMatch, Option.map_eq_some_iff, Prod.mk.injEq] at h
      obtain ⟨b, hb, rfl, rfl⟩ := h
      refine ⟨[], rfl, hb, ?_⟩
      intro s hne hs
      exact absurd (List.suffix_nil.mp hs) hne
  | cons c r ih =>
      cases hc : recognise (c :: r) with
      | some b =>
          rw [firstMatch_of_recognise hc] at h
          cases h
          refine ⟨c :: r, rfl, hc, ?_⟩
          intro s hne hs
          exact absurd (List.suffix_nil.mp hs) hne
      | none =>
          rw [firstMatch_cons_of_none hc, Option.map_eq_some_iff] at h
          obtain ⟨⟨before', b⟩, hm, heq⟩ := h
          cases heq
          obtain ⟨rest, rfl, hrest, silent⟩ := ih hm
          refine ⟨rest, rfl, hrest, ?_⟩
          intro s hne hs
          rcases List.suffix_cons_iff.mp hs with rfl | hs
          · exact hc
          · exact silent s hne hs

/-- The first match, found from its place. -/
theorem firstMatch_eq_some {before rest : List Char} {a : α} (h : recognise rest = some a)
    (silent : ∀ s, s ≠ [] → s <:+ before → recognise (s ++ rest) = none) :
    firstMatch recognise (before ++ rest) = some (before, a) := by
  rw [firstMatch_append silent, firstMatch_of_recognise h]
  simp

end FirstMatch

/-! ## The first occurrence of a literal -/

/-- A literal is found at its first occurrence. -/
theorem find?_eq_some_iff {literal text before behind : List Char} :
    find? literal text = some (before, behind) ↔
      text = before ++ literal ++ behind ∧
        ∀ s, s ≠ [] → s <:+ before → ¬ literal <+: s ++ literal ++ behind := by
  constructor
  · intro h
    obtain ⟨rest, rfl, hrest, silent⟩ := eq_append_of_firstMatch h
    obtain rfl := List.append_eq_of_isPrefixOf?_eq_some hrest
    refine ⟨by simp, ?_⟩
    rintro s hne hs ⟨t, ht⟩
    have := silent s hne hs
    rw [← List.append_assoc, ← ht, isPrefixOf?_append] at this
    cases this
  · rintro ⟨rfl, silent⟩
    rw [List.append_assoc]
    refine firstMatch_eq_some (isPrefixOf?_append literal behind) ?_
    intro s hne hs
    cases hs' : List.isPrefixOf? literal (s ++ (literal ++ behind)) with
    | none => rfl
    | some t =>
        have front := List.append_eq_of_isPrefixOf?_eq_some hs'
        exact absurd ⟨t, by rw [front, List.append_assoc]⟩ (silent s hne hs)

/-- A literal does not stand in the text before its first occurrence. -/
theorem not_infix_of_find? {literal text before behind : List Char} (hne : literal ≠ [])
    (h : find? literal text = some (before, behind)) : ¬ literal <:+: before := by
  rintro ⟨u, v, rfl⟩
  refine (find?_eq_some_iff.mp h).2 (literal ++ v) (by simp [hne]) ⟨u, by simp⟩
    ⟨v ++ literal ++ behind, ?_⟩
  simp

/-- A literal is found behind a text in which it does not stand, when a character keeps it
apart. -/
theorem find?_append_cons {literal before : List Char} {b : Char} (hb : b ∉ literal)
    (absent : ¬ literal <:+: before) (behind : List Char) :
    find? literal (before ++ b :: (literal ++ behind)) = some (before ++ [b], behind) := by
  refine find?_eq_some_iff.mpr ⟨by simp, ?_⟩
  rintro s hne hs start
  obtain ⟨s, rfl, part⟩ := (List.suffix_concat_iff.mp hs).resolve_left hne
  -- The literal would have to end before the character.
  have text : s ++ [b] ++ literal ++ behind = s ++ b :: (literal ++ behind) := by simp
  rw [text] at start
  rcases List.prefix_or_prefix_of_prefix start (List.prefix_append s _) with short | ⟨d, rfl⟩
  · exact absent (short.isInfix.trans part.isInfix)
  · cases d with
    | nil => exact absent (by simpa using part.isInfix)
    | cons e d =>
        have first : e = b := by
          obtain ⟨t, ht⟩ := start
          rw [List.append_assoc] at ht
          exact (List.cons.inj (List.append_cancel_left ht)).1
        exact hb (by simp [first])

/-! ## Occurrences in a text of parts -/

/-- A character that does not belong to a word keeps what stands before it apart from what
stands behind it. -/
theorem infix_append_cons_iff {w u v : List Char} {b : Char} (hb : b ∉ w) :
    w <:+: u ++ b :: v ↔ w <:+: u ∨ w <:+: v := by
  constructor
  · rintro ⟨s, t, h⟩
    rw [List.append_assoc] at h
    rcases List.append_eq_append_iff.mp h with ⟨a, rfl, ha⟩ | ⟨a, rfl, ha⟩
    · rcases List.append_eq_append_iff.mp ha with ⟨d, rfl, -⟩ | ⟨d, rfl, hd⟩
      · exact .inl ⟨s, d, by simp⟩
      · cases d with
        | nil => exact .inl ⟨s, [], by simp⟩
        | cons e d =>
            rw [List.cons_append, List.cons.injEq] at hd
            exact absurd (by simp [hd.1]) hb
    · cases a with
      | nil =>
          cases w with
          | nil => exact .inl List.nil_infix
          | cons e w =>
              rw [List.nil_append, List.cons_append, List.cons.injEq] at ha
              exact absurd (by simp [ha.1]) hb
      | cons e a =>
          rw [List.cons_append, List.cons.injEq] at ha
          exact .inr ⟨a, t, by rw [ha.2, List.append_assoc]⟩
  · rintro (h | h)
    · exact h.trans ⟨[], b :: v, by simp⟩
    · exact h.trans ⟨u ++ [b], [], by simp⟩

/-- A word that starts with another character than any of `u` occurs behind it. -/
theorem infix_append_left_iff {c : Char} {w u v : List Char} (hc : c ∉ u) :
    c :: w <:+: u ++ v ↔ c :: w <:+: v := by
  induction u with
  | nil => simp
  | cons d u ih =>
      rw [List.mem_cons, not_or] at hc
      rw [List.cons_append, List.infix_cons_iff, ih hc.2]
      constructor
      · rintro (⟨t, h⟩ | h)
        · rw [List.cons_append, List.cons.injEq] at h
          exact absurd h.1 hc.1
        · exact h
      · exact Or.inr

/-- A word that ends with another character than any of `v` occurs before it. -/
theorem infix_append_right_iff {c : Char} {w u v : List Char} (hc : c ∉ v) :
    w ++ [c] <:+: u ++ v ↔ w ++ [c] <:+: u := by
  have turn : w ++ [c] <:+: u ↔ (w ++ [c]).reverse <:+: u.reverse := List.reverse_infix.symm
  rw [← List.reverse_infix, turn]
  simp only [List.reverse_append, List.reverse_cons, List.reverse_nil, List.nil_append,
    List.singleton_append]
  exact infix_append_left_iff (by simpa using hc)

/-! ## Endings -/

theorem isSuffixOf?_append (literal front : List Char) :
    literal.isSuffixOf? (front ++ literal) = some front :=
  List.isSuffixOf?_eq_some_iff_append_eq.mpr rfl

theorem isSuffixOf?_eq_none_iff {literal text : List Char} :
    literal.isSuffixOf? text = none ↔ ¬ literal <:+ text := by
  rw [← Option.not_isSome_iff_eq_none, List.isSome_isSuffixOf?_eq_isSuffixOf,
    List.isSuffixOf_iff_suffix]

theorem toList_of_dropEndString? {literal s front : String}
    (h : dropEndString? literal s = some front) :
    s.toList = front.toList ++ literal.toList := by
  obtain ⟨cs, found, rfl⟩ := Option.map_eq_some_iff.mp h
  rw [String.toList_ofList]
  exact (List.append_eq_of_isSuffixOf?_eq_some found).symm

theorem suffix_append (front word : String) : word.toList <:+ (front ++ word).toList := by
  rw [String.toList_append]
  exact List.suffix_append _ _

theorem toList_of_dropStart? {literal s behind : String}
    (h : dropStart? literal s = some behind) :
    s.toList = literal.toList ++ behind.toList := by
  obtain ⟨cs, found, rfl⟩ := Option.map_eq_some_iff.mp h
  rw [String.toList_ofList]
  exact (List.append_eq_of_isPrefixOf?_eq_some found).symm

/-- An ending that stands there only once is cut off once. -/
theorem dropEnds_append {literal s : String} (nonempty : literal ≠ "")
    (h : ¬ literal.toList <:+ s.toList) :
    dropEnds literal (s ++ literal) = s := by
  have rest : ∀ fuel, dropEndsWithin literal.toList fuel s.toList = s.toList := by
    intro fuel
    cases fuel with
    | zero => rfl
    | succ fuel => rw [dropEndsWithin, isSuffixOf?_eq_none_iff.mpr h]
  have long : (s.toList ++ literal.toList).length ≠ 0 := by simp [nonempty]
  obtain ⟨fuel, hfuel⟩ := Nat.exists_eq_succ_of_ne_zero long
  rw [dropEnds, String.toList_append, hfuel, dropEndsWithin, isSuffixOf?_append]
  dsimp only
  rw [rest, String.ofList_toList]

end Attestation.Text
