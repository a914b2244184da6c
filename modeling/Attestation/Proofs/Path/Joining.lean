import Attestation.Proofs.Path.Arrival
import Attestation.Proofs.Path.Entry

/-!
# Names of joined paths

Seen from the working directory, a path is the place that its pieces lead to, dots and parent
steps included (`names_eq_climb`).  A relative path behind a directory leads on from the place
of the directory (`names_join`), and the specifier from one place to another, joined to the
first, names the second (`names_join_specifier`).

## Design notes

Paths are compared by where they lead and not by their text, since the same place has many
texts.  All of this goes through `climb`, which follows names from a place on and can be split
at any of them; a specifier is then right because its parent steps lead up to a place that both
ends share.
-/

namespace Attestation.Path

open FileTree Text

/-- Pieces between separators, as components, are followed as a path is. -/
theorem foldl_follow_eq_climb (cut : List (List Char)) (base : List String) :
    (cut.filterMap Component.ofPiece?).foldl follow base
      = climb base ((cut.filter (!·.isEmpty)).map String.ofList) := by
  induction cut generalizing base with
  | nil => rfl
  | cons piece more ih =>
      by_cases empty : piece = []
      · subst empty
        exact ih base
      rw [List.filter_cons_of_pos (by simpa using empty), List.map_cons, climb,
        List.foldl_cons, ← climb]
      by_cases dot : piece = ['.']
      · subst dot
        exact ih base
      by_cases up : piece = ['.', '.']
      · subst up
        exact ih base.dropLast
      have ne_here : String.ofList piece ≠ "." := fun h => dot (String.ofList_injective h)
      have ne_up : String.ofList piece ≠ ".." := fun h => up (String.ofList_injective h)
      have item : Component.ofPiece? piece = some (.item (String.ofList piece)) := by
        simp [Component.ofPiece?, isIdle, empty, dot, up]
      rw [List.filterMap_cons_some item, List.foldl_cons, ih, step,
        if_neg ne_here, if_neg ne_up]
      rfl

/-- **The names of a path** are where it leads, seen from the working directory. -/
theorem names_eq_climb (here p : Path) : names here p = placeOf (here.join p) := by
  have inner := foldl_follow_eq_climb (List.splitOn '/' (here.join p).text.toList) []
  rw [names, components]
  split
  · exact inner
  · split
    · exact inner
    · exact inner

/-! ## Joining -/

theorem pieces_append_slash {p q r : Path}
    (h : p.text.toList = q.text.toList ++ '/' :: r.text.toList) :
    pieces p = pieces q ++ pieces r := by
  rw [pieces, h, List.splitOn_append_cons_self, List.filter_append, List.map_append]
  rfl

/-- The pieces of a path behind another one stand behind those of the other one. -/
theorem pieces_join (left : Path) {right : Path} (relative : right.isAbsolute = false) :
    pieces (left.join right) = pieces left ++ pieces right := by
  rw [join_of_relative left relative]
  by_cases empty : left.text = ""
  · obtain rfl : left = ⟨""⟩ := congrArg Path.mk empty
    have front : frontOf ⟨""⟩ = "" := by decide
    have nothing : pieces ⟨""⟩ = [] := by decide
    rw [front, String.empty_append, nothing, List.nil_append]
  · by_cases open_ : left.text.toList.getLast? = some '/'
    · obtain ⟨inner, text⟩ := List.getLast?_eq_some_iff.mp open_
      have front : left.frontOf = left.text := by rw [frontOf, if_pos (by simp [open_])]
      have nothing : pieces ⟨""⟩ = [] := by decide
      have same : pieces left = pieces ⟨String.ofList inner⟩ ++ pieces ⟨""⟩ :=
        pieces_append_slash (by simpa using text)
      rw [same, nothing, List.append_nil, front]
      exact pieces_append_slash (by simp [text])
    · have front : left.frontOf = left.text ++ "/" := by
        rw [frontOf, if_neg (by simp [open_, empty])]
      exact pieces_append_slash (by simp [front])

theorem placeOf_join (left : Path) {right : Path} (relative : right.isAbsolute = false) :
    placeOf (left.join right) = climb (placeOf left) (pieces right) := by
  rw [placeOf, pieces_join left relative, climb, List.foldl_append]
  rfl

/-- **A relative path leads on** from the place of the directory that it is joined to. -/
theorem names_join (here dir : Path) {p : Path} (relative : p.isAbsolute = false) :
    names here (dir.join p) = climb (names here dir) (pieces p) := by
  simp only [names_eq_climb]
  cases absolute : dir.isAbsolute with
  | true =>
      have joined : (dir.join p).isAbsolute = true :=
        (isAbsolute_join dir relative).trans absolute
      rw [join_of_absolute here joined, join_of_absolute here absolute,
        placeOf_join dir relative]
  | false =>
      have joined : (dir.join p).isAbsolute = false :=
        (isAbsolute_join dir relative).trans absolute
      rw [placeOf_join here joined, placeOf_join here absolute, pieces_join dir relative,
        climb, List.foldl_append]
      rfl

theorem names_entry (here dir : Path) {name : String} (h : IsEntryName name) :
    names here (dir.entry name) = names here dir ++ [name] := by
  have alone : pieces ⟨name⟩ = [name] := by
    rw [pieces, List.splitOn_eq_singleton h.not_slash,
      List.filter_cons_of_pos (by simpa using h.nonempty)]
    simp
  rw [entry, names_join here dir (isAbsolute_of_isEntryName h), alone]
  exact climb_concat h _ []

/-! ## The way from one place to another -/

theorem isEntryName_of_mem_names {here p : Path} {name : String} (h : name ∈ names here p) :
    IsEntryName name := by
  have kept : ∀ (way base : List String), (∀ n ∈ way, IsItem n.toList) →
    (∀ n ∈ base, IsEntryName n) →
      ∀ n ∈ climb base way, IsEntryName n := by
    intro way
    induction way with
    | nil => exact fun base _ inside => inside
    | cons first more ih =>
        intro base items inside
        refine ih _ (fun n hn => items n (List.mem_cons_of_mem _ hn)) fun n hn => ?_
        obtain ⟨full, separated⟩ := items first List.mem_cons_self
        unfold step at hn
        split_ifs at hn with here up
        · exact inside n hn
        · exact inside n (List.mem_of_mem_dropLast hn)
        · rcases List.mem_append.mp hn with hn | hn
          · exact inside n hn
          · rw [List.mem_singleton.mp hn]
            exact ⟨by simpa using full, here, up, separated⟩
  rw [names_eq_climb] at h
  exact kept _ [] (fun _ => isItem_of_mem_pieces) (by simp) name h

/-- The way leads up to a common place and down to the target. -/
theorem exists_way (here : Path) {source target : Path} (hs : source.text ≠ "")
    (ht : target.text ≠ "") :
    ∃ common ups downs, names here source = common ++ ups ∧
      names here target = common ++ downs ∧
      steps here source target = ups.map (fun _ => .up) ++ downs.map .item := by
  obtain ⟨common, ups, downs, hsource, htarget, parted⟩ :=
    exists_common (names here source) (names here target)
  refine ⟨common, ups, downs, hsource, htarget, ?_⟩
  rw [steps, normal, if_neg (by simpa using hs), normal, if_neg (by simpa using ht),
    dropCommon, if_pos rfl, parted]
  dsimp only
  rw [List.map_map]
  rfl

/-- **The specifier from a directory to a place**, joined to the directory, is a path of the
place. -/
theorem names_join_specifier (here : Path) {dir target : Path} (hd : dir.text ≠ "")
    (ht : target.text ≠ "") :
    names here (dir.join ⟨specifier here dir target⟩) = names here target := by
  obtain ⟨common, ups, downs, source, arrival, way⟩ := exists_way here hd ht
  have entries : ∀ name ∈ downs, IsEntryName name := by
    intro name hname
    exact isEntryName_of_mem_names (arrival ▸ List.mem_append_right common hname)
  have relative : (⟨specifier here dir target⟩ : Path).isAbsolute = false := by
    rw [isAbsolute, head?_specifier]
    decide
  rw [names_join here dir relative, source, arrival,
    climb_specifier_of_steps here hd way entries]

/-- **The specifier of a place below a directory** is the way down, with `./` in front of
it. -/
theorem specifier_below (here : Path) {source target : Path} (hs : source.text ≠ "")
    (ht : target.text ≠ "")
    {name : String} {more : List String}
    (below : names here target = names here source ++ name :: more)
    (visible : name.toList.head? ≠ some '.') :
    specifier here source target = "./" ++ Text.join "/" (name :: more) := by
  have way : steps here source target = (name :: more).map .item := by
    have parted := dropCommon_append (Component.root :: (names here source).map .item) []
      ((name :: more).map .item)
    rw [List.append_nil, List.cons_append, ← List.map_append, ← below] at parted
    rw [steps, normal, if_neg (by simpa using hs), normal, if_neg (by simpa using ht), parted]
    rfl
  have down : relative here source target = Text.join "/" (name :: more) := by
    rw [relative, way]
    exact congrArg (Text.join "/") ((List.map_map ..).trans (List.map_id _))
  have entry : IsEntryName name :=
    isEntryName_of_mem_names (below ▸ List.mem_append_right _ List.mem_cons_self)
  rw [specifier, dotted, if_neg, down]
  intro dot
  obtain ⟨rest, text⟩ := prefix_relative here way
  rw [← text, List.head?_append_of_ne_nil _ (by simpa using entry.nonempty)] at dot
  exact visible dot

end Attestation.Path
