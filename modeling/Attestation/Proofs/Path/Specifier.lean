import Attestation.Proofs.Path.Plain
import Attestation.Proofs.Text.Search

/-!
# Separators in a specifier

The way from one place to another has single separators (`not_infix_specifier`), whatever the
places are called.  Only from the empty path, which is no place, the way starts at the root.

## Design notes

The way is looked at as a list of components, each of which holds no separator; that it has
single separators is then a fact about joining.
-/

namespace Attestation.Path

open Text

/-- The name of an entry of a directory. -/
def IsItem (name : List Char) : Prop := name ≠ [] ∧ '/' ∉ name

theorem isItem_of_mem_names {here p : Path} {name : String} (h : name ∈ names here p) :
    IsItem name.toList := by
  -- Following a path only ever adds its own names or drops some.
  have followed : ∀ (components : List Component) (base : List String),
      (∀ name ∈ base, IsItem name.toList) → (∀ name, .item name ∈ components →
        IsItem name.toList) →
      ∀ name ∈ components.foldl follow base, IsItem name.toList := by
    intro components
    induction components with
    | nil => exact fun base hb _ => hb
    | cons c more ih =>
        intro base hb hc
        refine ih _ ?_ fun name hname => hc name (List.mem_cons_of_mem _ hname)
        intro name hname
        cases c with
        | root => exact hb name hname
        | here => exact hb name hname
        | up => exact hb name (List.mem_of_mem_dropLast hname)
        | item own =>
            rcases List.mem_append.mp hname with hname | hname
            · exact hb name hname
            · rw [List.mem_singleton.mp hname]
              exact hc own (by simp)
  refine followed _ [] (by simp) ?_ name h
  intro name hname
  have piece : .item name ∈ (List.splitOn '/' (here.join p).text.toList).filterMap
    Component.ofPiece? := by
    unfold components at hname
    split at hname
    · simpa using hname
    · split at hname
      · simpa using hname
      · exact hname
  obtain ⟨cs, hcs, hitem⟩ := List.mem_filterMap.mp piece
  have separated := not_mem_of_mem_splitOn hcs
  unfold Component.ofPiece? at hitem
  split at hitem
  · cases hitem
  · next idle =>
      split at hitem
      · cases hitem
      · obtain rfl : String.ofList cs = name := by simpa using hitem
        rw [String.toList_ofList]
        refine ⟨?_, separated⟩
        rintro rfl
        exact idle rfl

/-- From a place, the way goes up and then down along entries. -/
theorem isItem_of_mem_steps {here source target : Path} (hs : source.text ≠ "") {c : Component}
    (hc : c ∈ steps here source target) : IsItem c.text.toList := by
  have up : IsItem Component.up.text.toList := ⟨by decide, by decide⟩
  have start : normal here source = .root :: (names here source).map .item := by
    rw [normal, if_neg (by simpa using hs)]
  rw [steps, start] at hc
  by_cases ht : target.text.isEmpty = true
  · rw [normal, if_pos ht] at hc
    simp only [dropCommon, List.append_nil, List.mem_map] at hc
    obtain ⟨-, -, rfl⟩ := hc
    exact up
  · rw [normal, if_neg ht] at hc
    simp only [dropCommon, if_true] at hc
    rcases List.mem_append.mp hc with hc | hc
    · obtain ⟨-, -, rfl⟩ := List.mem_map.mp hc
      exact up
    · have member := (dropCommon_suffix _ _).subset hc
      obtain ⟨name, hname, rfl⟩ := List.mem_map.mp member
      exact isItem_of_mem_names hname

theorem head?_intercalate {pieces : List (List Char)} (h : ∀ piece ∈ pieces, IsItem piece) :
    (List.intercalate ['/'] pieces).head? ≠ some '/' := by
  cases pieces with
  | nil => simp
  | cons piece more =>
      obtain ⟨hne, separated⟩ := h piece (by simp)
      obtain ⟨c, r, rfl⟩ := List.exists_cons_of_ne_nil hne
      have start : (List.intercalate ['/'] ((c :: r) :: more)).head? = some c := by
        cases more with
        | nil => rw [List.intercalate_singleton, List.head?_cons]
        | cons next more => rw [List.intercalate_cons_cons]; rfl
      rw [start]
      rintro ⟨⟩
      exact separated (by simp)

/-- No separator is doubled between entries. -/
theorem not_infix_intercalate {pieces : List (List Char)}
    (h : ∀ piece ∈ pieces, IsItem piece) :
    ¬ ['/', '/'] <:+: List.intercalate ['/'] pieces := by
  induction pieces with
  | nil => simp
  | cons piece more ih =>
      obtain ⟨-, separated⟩ := h piece (by simp)
      have rest : ∀ p ∈ more, IsItem p := fun p hp => h p (List.mem_cons_of_mem _ hp)
      cases more with
      | nil =>
          rw [List.intercalate_singleton]
          exact fun part => separated (part.subset (by simp))
      | cons next more =>
          rw [List.intercalate_cons_cons, List.append_assoc, infix_append_left_iff separated,
            List.singleton_append, List.infix_cons_iff]
          rintro (⟨t, ht⟩ | part)
          · have second := (List.cons.inj ht).2
            exact head?_intercalate rest (by rw [← second]; rfl)
          · exact ih rest part

/-- **A specifier has no doubled separator**, unless it leads from the empty path. -/
theorem not_infix_specifier (here : Path) {source : Path} (hs : source.text ≠ "")
    (target : Path) :
    ¬ ['/', '/'] <:+: (specifier here source target).toList := by
  have way : (relative here source target).toList.head? ≠ some '/' ∧
      ¬ ['/', '/'] <:+: (relative here source target).toList := by
    rw [relative]
    split
    · exact ⟨by decide, by decide⟩
    · have items : ∀ piece ∈ ((steps here source target).map Component.text).map String.toList,
          IsItem piece := by
        intro piece hpiece
        rw [List.map_map] at hpiece
        obtain ⟨c, hc, rfl⟩ := List.mem_map.mp hpiece
        exact isItem_of_mem_steps hs hc
      rw [toList_join]
      exact ⟨head?_intercalate items, not_infix_intercalate items⟩
  rw [specifier, dotted]
  split
  · exact way.2
  · rw [String.toList_append]
    show ¬ ['/', '/'] <:+: '.' :: '/' :: (relative here source target).toList
    rw [List.infix_cons_iff, List.infix_cons_iff]
    rintro (⟨t, ht⟩ | ⟨t, ht⟩ | part)
    · exact absurd (List.cons.inj ht).1 (by decide)
    · have second := (List.cons.inj ht).2
      exact way.1 (by rw [← second]; rfl)
    · exact way.2 part

end Attestation.Path
