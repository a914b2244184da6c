import Attestation.Proofs.Path.Entry

/-!
# The parent of a path

Pieces that are empty or a dot lead nowhere.  Without them, the parent of a path has the pieces
of the path but the last one (`moves_of_parent`), whatever the path looks like: absolute or
not, with parent steps, repeated separators and dots.

* `Path.moves`: the pieces of a path that lead somewhere.

## Design notes

A parent is taken off the text, where repeated separators and dots count, and it is needed of
the place, where they do not.  The two are related by the pieces that lead somewhere, so that
no case has to be made for each shape that a path can have.
-/

namespace Attestation.Path

open FileTree Text

/-- The names that pieces between separators stand for, as far as they lead somewhere. -/
def movesOf (cut : List (List Char)) : List String :=
  (cut.filter (!isIdle ·)).map String.ofList

/-- The pieces of a path that lead somewhere. -/
def moves (p : Path) : List String := movesOf (List.splitOn '/' p.text.toList)

theorem movesOf_append (front back : List (List Char)) :
    movesOf (front ++ back) = movesOf front ++ movesOf back := by
  rw [movesOf, List.filter_append, List.map_append, movesOf, movesOf]

theorem movesOf_cons_idle {piece : List Char} (idle : isIdle piece = true)
    (cut : List (List Char)) :
    movesOf (piece :: cut) = movesOf cut := by
  rw [movesOf, List.filter_cons_of_neg (by simp [idle]), movesOf]

theorem moves_eq_filter (p : Path) : moves p = (pieces p).filter (· ≠ ".") := by
  rw [moves, pieces]
  generalize List.splitOn '/' p.text.toList = cut
  induction cut with
  | nil => rfl
  | cons piece more ih =>
      by_cases empty : piece = []
      · subst empty
        exact ih
      rw [List.filter_cons_of_pos (by simpa using empty), List.map_cons]
      by_cases dot : piece = ['.']
      · subst dot
        exact ih
      have other : String.ofList piece ≠ "." := fun h => dot (String.ofList_injective h)
      rw [List.filter_cons_of_pos (by simpa using other), ← ih, movesOf,
        List.filter_cons_of_pos (by simp [isIdle, empty, dot]), List.map_cons, movesOf]

/-- What stands in front of the pieces of a path: the root, or a dot that is a piece, or
nothing. -/
inductive Led (p : Path) : List Char → List (List Char) → Prop where
  | root {rest : List Char} : p.text.toList = '/' :: rest → Led p ['/'] (List.splitOn '/' rest)
  | here {more : List (List Char)} : List.splitOn '/' p.text.toList = ['.'] :: more →
      Led p ['.'] ([] :: more)
  | bare : Led p [] (List.splitOn '/' p.text.toList)

theorem led_lead (p : Path) : Led p p.lead.1 p.lead.2.reverse := by
  unfold lead
  split
  · next rest text =>
      rw [List.reverse_reverse]
      exact .root text
  · split
    · next starts =>
        rw [List.reverse_reverse]
        obtain ⟨first, more, cut⟩ := exists_splitOn '/' p.text.toList
        obtain rfl : first = ['.'] := by simpa [startsHere, cut] using starts
        have tail : List.splitOn '/' p.text.toList.tail = [] :: more := by
          cases text : p.text.toList with
          | nil =>
              rw [text] at cut
              cases cut
          | cons c tail =>
              rw [text] at cut
              by_cases slash : c = '/'
              · rw [slash, splitOn_cons_self] at cut
                cases cut
              · obtain ⟨piece, rest, hrest⟩ := exists_splitOn '/' tail
                rw [splitOn_cons_of_ne slash hrest, List.cons.injEq, List.cons.injEq] at cut
                rw [List.tail_cons, hrest, cut.1.2, cut.2]
        rw [tail]
        exact .here cut
    · rw [List.reverse_reverse]
      exact .bare

theorem movesOf_splitOn_intercalate {cut : List (List Char)}
    (separated : ∀ piece ∈ cut, '/' ∉ piece) :
    movesOf (List.splitOn '/' (List.intercalate ['/'] cut)) = movesOf cut := by
  by_cases empty : cut = []
  · subst empty
    rfl
  · rw [List.splitOn_intercalate _ separated empty]

/-- What stands in front leads nowhere. -/
theorem Led.moves_eq {p : Path} {start : List Char} {cut : List (List Char)}
    (h : Led p start cut) :
    moves p = movesOf cut := by
  rw [moves]
  cases h with
  | root text =>
      rw [text, splitOn_cons_self]
      exact movesOf_cons_idle rfl _
  | here pieces => rw [pieces, movesOf_cons_idle rfl, movesOf_cons_idle rfl]
  | bare => rfl

/-- Some first pieces of a path behind what stands in front of it. -/
theorem Led.moves_joined {p : Path} {start : List Char} {cut front : List (List Char)}
    (h : Led p start cut)
    (first : front <+: cut) :
    movesOf (List.splitOn '/' (start ++ List.intercalate ['/'] front)) = movesOf front := by
  cases h with
  | root text =>
      have separated : ∀ piece ∈ front, '/' ∉ piece :=
        fun _ hpiece => not_mem_of_mem_splitOn (first.subset hpiece)
      rw [← movesOf_splitOn_intercalate separated, List.singleton_append, splitOn_cons_self]
      exact movesOf_cons_idle rfl _
  | bare =>
      exact movesOf_splitOn_intercalate fun _ hpiece =>
        not_mem_of_mem_splitOn (first.subset hpiece)
  | @here more pieces =>
      have separated : ∀ piece ∈ more, '/' ∉ piece := by
        intro piece hpiece
        exact not_mem_of_mem_splitOn (pieces ▸ List.mem_cons_of_mem _ hpiece)
      cases front with
      | nil => rfl
      | cons piece front =>
          obtain ⟨rfl, within⟩ := List.cons_prefix_cons.mp first
          rw [movesOf_cons_idle rfl]
          cases front with
          | nil => rfl
          | cons next front =>
              have inside : ∀ piece ∈ next :: front, '/' ∉ piece := fun piece hpiece =>
                separated piece (within.subset hpiece)
              have text : ['.'] ++ List.intercalate ['/'] ([] :: next :: front)
                  = ['.'] ++ '/' :: List.intercalate ['/'] (next :: front) := by
                rw [List.intercalate_cons_cons, List.nil_append]
                rfl
              rw [text, List.splitOn_append_cons_self, movesOf_append,
                movesOf_splitOn_intercalate inside]
              rfl

/-- **The parent of a path** lacks its last move. -/
theorem moves_of_parent {p dir : Path} (h : p.parent = some dir) :
    moves dir = (moves p).dropLast := by
  -- Pieces that do not move may be dropped at the end.
  have trailing : ∀ rev : List (List Char), movesOf (rev.dropWhile isIdle).reverse
      = movesOf rev.reverse := by
    intro rev
    induction rev with
    | nil => rfl
    | cons piece more ih =>
        rw [List.dropWhile_cons]
        split
        · next idle =>
            rw [ih, List.reverse_cons, movesOf_append, movesOf_cons_idle idle]
            exact (List.append_nil _).symm
        · rfl
  unfold parent at h
  dsimp only at h
  rw [(led_lead p).moves_eq, ← trailing]
  split at h
  · next last more shape =>
      cases h
      have busy : isIdle last = false := by
        have head := List.head?_dropWhile_not isIdle p.lead.2
        rw [shape] at head
        simpa using head
      have behind : more.dropWhile isIdle <:+ p.lead.2 :=
        (List.dropWhile_suffix _).trans
        ((List.suffix_cons last more).trans (shape ▸ List.dropWhile_suffix _))
      have one : movesOf [last] = [String.ofList last] := by simp [movesOf, busy]
      have joined : moves (ofLead p.lead.1 (more.dropWhile isIdle))
          = movesOf (more.dropWhile isIdle).reverse := by
        rw [moves, ofLead, String.toList_ofList]
        exact (led_lead p).moves_joined (List.reverse_prefix.mpr behind)
      rw [joined, trailing, shape, List.reverse_cons, movesOf_append, one,
        List.dropLast_concat]
  · next shape =>
      split at h
      · cases h
        rw [shape]
        rfl
      · cases h

end Attestation.Path
