import Attestation.Proofs.Text.Pieces
import Attestation.Script.ArrayLiteral
import Attestation.Script.ImportBlock

/-!
# Entries between commas

The entries of an array and the names in the braces of an import are both read by cutting a
text at its commas, trimming the pieces and leaving the blank ones out.  Entries that are
written with commas between them are read back (`bareEntries_join`), and every entry that is
read is a trimmed part of the text (`mem_bareEntries`).

## Design notes

Blank pieces are left out by the reader, so a comma at the end is not an entry of its own, and
two texts with the same entries need not be equal.  What is written is therefore compared by
its entries; and for words, which have no comma and no outer blank, writing and reading are
inverse to each other.
-/

namespace Attestation

open Text

/-- A word of characters of one kind, with no blank at either end.  Blanks inside of it do not
matter, where they are of that kind. -/
structure IsWord (p : Char → Bool) (s : String) : Prop where
  nonempty : s.toList ≠ []
  trimmed : Trimmed s.toList
  all : ∀ c ∈ s.toList, p c = true

theorem isWord_of_no_blank {p : Char → Bool} {s : String} (hne : s.toList ≠ [])
    (h : ∀ c ∈ s.toList, p c = true ∧ isBlank c = false) : IsWord p s :=
  ⟨hne, trimmed_of_no_blank fun c hc => (h c hc).2, fun c hc => (h c hc).1⟩

/-- A word holds a character that is no blank. -/
theorem IsWord.exists_not_blank {p : Char → Bool} {s : String} (h : IsWord p s) :
    ∃ c ∈ s.toList, isBlank c = false := by
  obtain ⟨c, r, hcs⟩ := List.exists_cons_of_ne_nil h.nonempty
  have trimmed := h.trimmed
  rw [hcs] at trimmed
  exact ⟨c, by simp [hcs], trimmed.head⟩

namespace ImportBlock

theorem nonBlank_eq_some_iff {cs : List Char} {s : String} :
    nonBlank cs = some s ↔ s.toList = trim cs ∧ s.toList ≠ [] := by
  rw [nonBlank]
  constructor
  · intro h
    split at h
    · cases h
    · next hne =>
        cases h
        rw [String.toList_ofList]
        exact ⟨rfl, by simpa using hne⟩
  · rintro ⟨hs, hne⟩
    rw [if_neg (by simpa [← hs] using hne), ← hs, String.ofList_toList]

/-- A word is read off its text, whatever blanks stand around it. -/
theorem nonBlank_pad {p : Char → Bool} {s : String} (h : IsWord p s) {u v : List Char}
    (hu : ∀ c ∈ u, isBlank c = true) (hv : ∀ c ∈ v, isBlank c = true) :
    nonBlank (u ++ s.toList ++ v) = some s := by
  rw [nonBlank_eq_some_iff, trim_pad _ hu hv]
  exact ⟨h.trimmed.symm, h.nonempty⟩

theorem nonBlank_word {p : Char → Bool} {s : String} (h : IsWord p s) :
    nonBlank s.toList = some s := by
  simpa using nonBlank_pad h (u := []) (v := []) (by simp) (by simp)

end ImportBlock

namespace ArrayLiteral

open ImportBlock

theorem bareEntries_eq (cs : List Char) :
    bareEntries cs = (List.splitOn ',' cs).filterMap nonBlank := by
  rw [bareEntries]
  induction List.splitOn ',' cs with
  | nil => rfl
  | cons piece more ih =>
      rw [List.filterMap_cons, ← ih]
      by_cases h : trim piece = []
      · simp [nonBlank, h]
      · simp [nonBlank, h]

@[simp] theorem bareEntries_nil : bareEntries [] = [] := rfl

/-- A comma separates entries. -/
theorem bareEntries_append_comma (u v : List Char) :
    bareEntries (u ++ ',' :: v) = bareEntries u ++ bareEntries v := by
  simp only [bareEntries_eq, List.splitOn_append_cons_self, List.filterMap_append]

theorem bareEntries_blank {u : List Char} (hu : ∀ c ∈ u, isBlank c = true) :
    bareEntries u = [] := by
  have none_ : ',' ∉ u := by
    intro hc
    have := hu _ hc
    revert this
    decide
  simp [bareEntries_eq, List.splitOn_eq_singleton none_, nonBlank, trim_all_blank hu]

/-- A word without commas is one entry, whatever blanks stand around it. -/
theorem bareEntries_pad {p : Char → Bool} {s : String} (h : IsWord p s)
    (comma : ',' ∉ s.toList)
    {u v : List Char} (hu : ∀ c ∈ u, isBlank c = true) (hv : ∀ c ∈ v, isBlank c = true) :
    bareEntries (u ++ s.toList ++ v) = [s] := by
  have blank : isBlank ',' = false := by decide
  have none_ : ',' ∉ u ++ s.toList ++ v := by
    simp only [List.mem_append, not_or]
    exact ⟨⟨fun hc => by simp [hu _ hc] at blank, comma⟩, fun hc => by simp [hv _ hc] at blank⟩
  rw [bareEntries_eq, List.splitOn_eq_singleton none_,
    List.filterMap_cons_some (nonBlank_pad h hu hv),
    List.filterMap_nil]

/-- What an entry looks like: a trimmed part of the text without commas. -/
theorem mem_bareEntries {cs : List Char} {s : String} (h : s ∈ bareEntries cs) :
    s.toList <:+: cs ∧ IsWord (· ≠ ',') s := by
  rw [bareEntries_eq, List.mem_filterMap] at h
  obtain ⟨piece, hpiece, hs⟩ := h
  obtain ⟨htrim, hne⟩ := nonBlank_eq_some_iff.mp hs
  have part : s.toList <:+: piece := htrim ▸ infix_trim piece
  refine ⟨part.trans (infix_of_mem_splitOn hpiece), hne, htrim ▸ trimmed_trim piece, ?_⟩
  intro c hc
  have := not_mem_of_mem_splitOn hpiece
  have member := part.subset hc
  simp only [ne_eq, decide_eq_true_eq]
  rintro rfl
  exact this member

/-- Words that are written with commas between them are read back. -/
theorem bareEntries_join {p : Char → Bool} {names : List String} (hp : ∀ s ∈ names, IsWord p s)
    (comma : p ',' = false) {u v : List Char} (hu : ∀ c ∈ u, isBlank c = true)
    (hv : ∀ c ∈ v, isBlank c = true) :
    bareEntries (u ++ (join ", " names).toList ++ v) = names := by
  rw [toList_join]
  induction names generalizing u with
  | nil =>
      refine bareEntries_blank ?_
      intro c hc
      simp only [List.map_nil, List.intercalate_nil, List.append_nil, List.mem_append] at hc
      exact hc.elim (hu c) (hv c)
  | cons name more ih =>
      have none_ : ',' ∉ name.toList := by
        intro hc
        have := (hp name (by simp)).all _ hc
        rw [comma] at this
        cases this
      cases more with
      | nil => simpa using bareEntries_pad (hp name (by simp)) none_ hu hv
      | cons next more =>
          have text : u ++ List.intercalate ", ".toList
            ((name :: next :: more).map String.toList) ++ v
              = (u ++ name.toList ++ []) ++ ',' ::
                ([' '] ++ List.intercalate ", ".toList ((next :: more).map String.toList)
                  ++ v) := by
            simp [List.intercalate_cons_cons]
          rw [text, bareEntries_append_comma,
            bareEntries_pad (hp name (by simp)) none_ hu (by simp),
            ih (fun s hs => hp s (List.mem_cons_of_mem _ hs)) (by simp; decide)]
          rfl

end ArrayLiteral

namespace ImportBlock

/-- The names in braces are the entries between the commas. -/
theorem mem_namesOf {cs : List Char} {x : String} :
    x ∈ namesOf cs ↔ x ∈ ArrayLiteral.bareEntries cs := by
  rw [namesOf, NameSet.mem_ofList, ArrayLiteral.bareEntries_eq]

end ImportBlock

end Attestation
