import Attestation.Proofs.Text.Search
import Attestation.Proofs.Text.Trim
import Attestation.Text.Split

/-!
# Pieces of a text

How `List.splitOn` cuts a text that is put together from parts, and how far `takeWhile` and
`dropWhile` go along such a text.

## Design notes

These are the facts about cutting that the standard library does not have: where the cut of a
text lies once one part of it is known.
-/

namespace Attestation.Text

/-! ## The longest front of one kind -/

section Front

variable {p : Char → Bool} {u v : List Char}

/-- A front of the kind ends where the first other character stands. -/
theorem takeWhile_front (inside : ∀ c ∈ u, p c = true) (stop : ∀ c ∈ v.head?, p c = false) :
    (u ++ v).takeWhile p = u := by
  rw [List.takeWhile_append_of_pos inside]
  cases v with
  | nil => simp
  | cons c r => simp [stop c rfl]

theorem dropWhile_front (inside : ∀ c ∈ u, p c = true) (stop : ∀ c ∈ v.head?, p c = false) :
    (u ++ v).dropWhile p = v := by
  rw [List.dropWhile_append_of_pos inside]
  cases v with
  | nil => rfl
  | cons c r => simp [stop c rfl]

/-- A text is its longest front of one kind and a rest that does not start with that kind. -/
theorem exists_front (p : Char → Bool) (cs : List Char) :
    ∃ u v, cs = u ++ v ∧ (∀ c ∈ u, p c = true) ∧ (∀ c ∈ v.head?, p c = false) ∧
      cs.takeWhile p = u ∧ cs.dropWhile p = v := by
  refine ⟨cs.takeWhile p, cs.dropWhile p, List.takeWhile_append_dropWhile.symm,
    fun c hc => List.mem_takeWhile_imp hc, ?_, rfl, rfl⟩
  intro c hc
  cases hd : cs.dropWhile p with
  | nil => simp [hd] at hc
  | cons d r =>
      have := List.head_dropWhile_not p (l := cs) (by simp [hd])
      simp only [hd, List.head_cons] at this
      simp only [hd, List.head?_cons, Option.mem_some_iff] at hc
      rwa [← hc]

end Front

/-! ## The first word -/

theorem splitAtBlank_append {word rest : List Char} {b : Char}
    (solid : ∀ c ∈ word, isBlank c = false)
    (hb : isBlank b = true) : splitAtBlank (word ++ b :: rest) = some (word, rest) := by
  have inside : ∀ c ∈ word, (!isBlank c) = true := fun c hc => by rw [solid c hc]; rfl
  have stop : ∀ c ∈ (b :: rest).head?, (!isBlank c) = false := by
    rintro c ⟨⟩
    rw [hb]
    rfl
  rw [splitAtBlank, dropWhile_front inside stop, takeWhile_front inside stop]

theorem splitAtBlank_of_solid {word : List Char} (solid : ∀ c ∈ word, isBlank c = false) :
    splitAtBlank word = none := by
  have inside : ∀ c ∈ word, (!isBlank c) = true := fun c hc => by rw [solid c hc]; rfl
  rw [splitAtBlank, List.dropWhile_eq_nil_iff.mpr inside]

/-! ## Splitting -/

/-- A separator in front of a text cuts off an empty piece. -/
theorem splitOn_cons_self (sep : Char) (cs : List Char) :
    List.splitOn sep (sep :: cs) = [] :: List.splitOn sep cs :=
  List.splitOn_append_cons_self [] cs

/-- Any other character belongs to the first piece. -/
theorem splitOn_cons_of_ne {sep c : Char} {cs piece : List Char} {more : List (List Char)}
    (h : c ≠ sep)
    (cut : List.splitOn sep cs = piece :: more) :
    List.splitOn sep (c :: cs) = (c :: piece) :: more := by
  rw [List.splitOn_cons_eq_if_modifyHead, if_neg (by simpa using h), cut]
  rfl

/-- There is always a first piece. -/
theorem exists_splitOn (sep : Char) (cs : List Char) :
    ∃ piece more, List.splitOn sep cs = piece :: more :=
  List.exists_cons_of_ne_nil (List.splitOn_ne_nil sep cs)

/-- A text without separators stands at the end of the last piece. -/
theorem exists_splitOn_append {sep : Char} (u : List Char) {v : List Char} (h : sep ∉ v) :
    ∃ init last, List.splitOn sep (u ++ v) = init ++ [last ++ v] := by
  induction u with
  | nil => exact ⟨[], [], List.splitOn_eq_singleton h⟩
  | cons c u ih =>
      obtain ⟨init, last, cut⟩ := ih
      by_cases hc : c = sep
      · exact ⟨[] :: init, last, by rw [hc, List.cons_append, splitOn_cons_self, cut]; rfl⟩
      · cases init with
        | nil => exact ⟨[], c :: last, splitOn_cons_of_ne hc cut⟩
        | cons piece more => exact ⟨(c :: piece) :: more, last, splitOn_cons_of_ne hc cut⟩

/-- No piece holds the separator. -/
theorem not_mem_of_mem_splitOn {sep : Char} {cs piece : List Char}
    (h : piece ∈ List.splitOn sep cs) :
    sep ∉ piece := by
  induction cs generalizing piece with
  | nil =>
      rw [List.splitOn_nil, List.mem_singleton] at h
      simp [h]
  | cons c r ih =>
      by_cases hc : c = sep
      · rw [hc, splitOn_cons_self] at h
        rcases List.mem_cons.mp h with rfl | h
        · exact List.not_mem_nil
        · exact ih h
      · obtain ⟨first, more, cut⟩ := exists_splitOn sep r
        rw [splitOn_cons_of_ne hc cut] at h
        rw [cut] at ih
        rcases List.mem_cons.mp h with rfl | h
        · rw [List.mem_cons, not_or]
          exact ⟨Ne.symm hc, ih List.mem_cons_self⟩
        · exact ih (List.mem_cons_of_mem _ h)

/-- Every piece is a part of the text; the first one stands at its front. -/
theorem infix_of_mem_splitOn {sep : Char} {cs piece : List Char}
    (h : piece ∈ List.splitOn sep cs) :
    piece <:+: cs := by
  have parts : ∀ cs, (∀ piece ∈ (List.splitOn sep cs).head?, piece <+: cs) ∧
      ∀ piece ∈ List.splitOn sep cs, piece <:+: cs := by
    intro cs
    induction cs with
    | nil => simp
    | cons c r ih =>
        have behind : ∀ piece, piece <:+: r → piece <:+: c :: r := fun _ part =>
          part.trans (List.suffix_cons c r).isInfix
        by_cases hc : c = sep
        · rw [hc, splitOn_cons_self]
          refine ⟨by simp, List.forall_mem_cons.mpr ⟨List.nil_infix, fun piece hp => ?_⟩⟩
          exact hc ▸ behind piece (ih.2 piece hp)
        · obtain ⟨first, more, cut⟩ := exists_splitOn sep r
          rw [cut] at ih
          have front : c :: first <+: c :: r := List.cons_prefix_cons.mpr ⟨rfl, ih.1 first rfl⟩
          rw [splitOn_cons_of_ne hc cut]
          refine ⟨by simpa using front, List.forall_mem_cons.mpr ⟨front.isInfix,
            fun piece hp => ?_⟩⟩
          exact behind piece (ih.2 piece (List.mem_cons_of_mem _ hp))
  exact (parts cs).2 piece h

/-! ## The last piece -/

section LastPiece

variable {sep : Char} {s t : String}

/-- A text without separators stays behind the last piece. -/
theorem lastPiece_append_of_not_mem (h : sep ∉ t.toList) :
    lastPiece sep (s ++ t) = lastPiece sep s ++ t := by
  have all : ∀ c ∈ t.toList.reverse, decide (c ≠ sep) = true := by
    intro c hc
    refine decide_eq_true fun same => h ?_
    exact same ▸ List.mem_reverse.mp hc
  rw [lastPiece, lastPiece, String.toList_append, List.reverse_append,
    List.takeWhile_append_of_pos all,
    List.reverse_append, List.reverse_reverse, String.ofList_append, String.ofList_toList]

theorem lastPiece_of_not_mem (h : sep ∉ t.toList) : lastPiece sep t = t := by
  have behind := lastPiece_append_of_not_mem (s := "") h
  rw [String.empty_append] at behind
  rw [behind]
  exact String.empty_append

/-- What stands in front of a text with a separator does not matter. -/
theorem lastPiece_append_of_mem (h : sep ∈ t.toList) :
    lastPiece sep (s ++ t) = lastPiece sep t := by
  have stops : ¬ (t.toList.reverse.takeWhile (· ≠ sep)).length = t.toList.reverse.length := by
    intro whole
    have all := List.takeWhile_eq_self_iff.mp ((List.takeWhile_prefix _).eq_of_length whole)
    exact absurd (all sep (List.mem_reverse.mpr h)) (by simp)
  rw [lastPiece, lastPiece, String.toList_append, List.reverse_append,
    List.takeWhile_append, if_neg stops]

end LastPiece

/-! ## Joining -/

theorem toList_join (sep : String) (pieces : List String) :
    (join sep pieces).toList = List.intercalate sep.toList (pieces.map String.toList) := by
  rw [join, String.toList_ofList]

/-- Pieces on either side of a seam. -/
theorem intercalate_append {sep : List Char} {ps qs : List (List Char)} (hp : ps ≠ [])
    (hq : qs ≠ []) :
    List.intercalate sep (ps ++ qs)
      = List.intercalate sep ps ++ sep ++ List.intercalate sep qs := by
  induction ps with
  | nil => exact absurd rfl hp
  | cons p ps ih =>
      cases ps with
      | nil =>
          cases qs with
          | nil => exact absurd rfl hq
          | cons q qs =>
              rw [List.singleton_append, List.intercalate_cons_cons,
                List.intercalate_singleton]
      | cons p' ps =>
          rw [List.cons_append, List.cons_append, List.intercalate_cons_cons,
            ← List.cons_append,
            ih (by simp), List.intercalate_cons_cons]
          simp [List.append_assoc]

theorem intercalate_prefix {sep : List Char} {front all : List (List Char)}
    (h : front <+: all) :
    List.intercalate sep front <+: List.intercalate sep all := by
  obtain ⟨rest, rfl⟩ := h
  cases front with
  | nil => exact List.nil_prefix
  | cons piece front =>
      cases rest with
      | nil => rw [List.append_nil]
      | cons next rest =>
          rw [intercalate_append (List.cons_ne_nil _ _) (List.cons_ne_nil _ _),
            List.append_assoc]
          exact List.prefix_append _ _

theorem suffix_intercalate (sep last : List Char) (pieces : List (List Char)) :
    last <:+ List.intercalate sep (pieces ++ [last]) := by
  cases pieces with
  | nil => rw [List.nil_append, List.intercalate_singleton]
  | cons piece more =>
      rw [intercalate_append (by simp) (by simp), List.intercalate_singleton]
      exact List.suffix_append _ _

theorem length_le_length_intercalate (sep : List Char) {texts : List (List Char)}
    (nonempty : ∀ text ∈ texts, text ≠ []) :
    texts.length ≤ (List.intercalate sep texts).length := by
  induction texts with
  | nil => exact Nat.zero_le _
  | cons text more ih =>
      have first := List.length_pos_iff.mpr (nonempty text (by simp))
      cases more with
      | nil => simpa using Nat.succ_le_of_lt first
      | cons next more =>
          have := ih fun t ht => nonempty t (List.mem_cons_of_mem _ ht)
          rw [List.intercalate_cons_cons, List.length_append, List.length_append,
            List.length_cons]
          omega

/-- A word without the separator stands in one of the pieces. -/
theorem infix_intercalate_iff {word : List Char} {sep : Char} (nonempty : word ≠ [])
    (separate : sep ∉ word)
    (pieces : List (List Char)) : word <:+: List.intercalate [sep] pieces ↔
    ∃ piece ∈ pieces, word <:+: piece := by
  induction pieces with
  | nil => simp [nonempty]
  | cons piece more ih =>
      cases more with
      | nil => simp
      | cons next more =>
          rw [List.intercalate_cons_cons, List.append_assoc, List.singleton_append,
            infix_append_cons_iff separate, ih]
          simp

theorem mem_join {sep : String} {pieces : List String} {c : Char}
    (h : c ∈ (join sep pieces).toList) :
    c ∈ sep.toList ∨ ∃ s ∈ pieces, c ∈ s.toList := by
  rw [toList_join] at h
  induction pieces with
  | nil => cases h
  | cons s more ih =>
      cases more with
      | nil =>
          rw [List.map_singleton, List.intercalate_singleton] at h
          exact .inr ⟨s, by simp, h⟩
      | cons t more =>
          simp only [List.map_cons, List.intercalate_cons_cons, List.mem_append] at h ih
          rcases h with (h | h) | h
          · exact .inr ⟨s, by simp, h⟩
          · exact .inl h
          · obtain h | ⟨x, hx, hc⟩ := ih h
            · exact .inl h
            · exact .inr ⟨x, List.mem_cons_of_mem _ hx, hc⟩

/-- Every piece is a part of the joined text. -/
theorem infix_join {sep s : String} {pieces : List String} (h : s ∈ pieces) :
    s.toList <:+: (join sep pieces).toList := by
  rw [toList_join]
  induction pieces with
  | nil => cases h
  | cons t more ih =>
      cases more with
      | nil =>
          rw [List.mem_singleton.mp h, List.map_singleton, List.intercalate_singleton]
      | cons t' more =>
          rw [List.map_cons, List.map_cons, List.intercalate_cons_cons]
          rcases List.mem_cons.mp h with rfl | h
          · exact ⟨[], _, by rw [List.nil_append, List.append_assoc]⟩
          · exact (ih h).trans (List.suffix_append _ _).isInfix

end Attestation.Text
