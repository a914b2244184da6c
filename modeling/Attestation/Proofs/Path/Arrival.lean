import Attestation.Proofs.Path.Specifier
import Attestation.Proofs.Workspace.FileTree

/-!
# Where a specifier arrives

A specifier is found by the names of two places alone.  Followed from the first place it
arrives at the second one (`climb_specifier`), wherever the working directory is and wherever
the tree lies that both are seen from.

* `Path.IsNamed`: relative paths of names of which none starts with a dot.
* `Path.IsLongestCommonPrefix`: how far two places agree.
* `Path.IsExplicit`: specifiers that start at the importing script.
* `Path.scriptAt`: the script that a specifier means.

## Design notes

A specifier is computed from two paths as they look from the working directory, and it is used
from wherever the scripts lie.  What makes it right is that the way up ends at a common place,
and that the names below it do not depend on where the tree hangs.  Names that start with a dot
are left out here, since the way into such a directory is taken for a parent step; what happens
then is the subject of `Path.Explicit`.
-/

namespace Attestation

open FileTree Text

theorem FileTree.climb_of_isEntryName {names : List String}
    (h : ∀ name ∈ names, IsEntryName name) (dir : Place) :
    climb dir names = dir ++ names := by
  induction names generalizing dir with
  | nil => simp [climb]
  | cons name more ih =>
      have first := h name List.mem_cons_self
      rw [climb, List.foldl_cons, step, if_neg first.ne_here, if_neg first.ne_up, ← climb,
        ih fun other hother => h other (List.mem_cons_of_mem _ hother), List.append_assoc,
        List.singleton_append]

/-- One parent step for each name leads back. -/
theorem FileTree.climb_ups (dir : Place) (names : List String) :
    climb (dir ++ names) (names.map fun _ => "..") = dir := by
  induction names using List.reverseRecOn generalizing dir with
  | nil => simp [climb]
  | append_singleton names name ih =>
      rw [List.map_append, List.map_singleton, ← List.append_assoc, climb, List.map_const',
        ← List.replicate_succ',
        List.replicate_succ, List.foldl_cons, step, if_neg (by decide), if_pos rfl,
        List.dropLast_concat, ← climb,
        ← List.map_const']
      exact ih dir

namespace Path

/-- A relative path of names of which none starts with a dot.  It leads down from wherever it
starts, and its way needs a dot in front. -/
structure IsNamed (p : Path) : Prop where
  nonempty : p.text ≠ ""
  relative : p.isAbsolute = false
  names : ∀ name ∈ pieces p, name.toList.head? ≠ some '.'

theorem isItem_of_mem_pieces {p : Path} {name : String} (h : name ∈ pieces p) :
    IsItem name.toList := by
  obtain ⟨piece, hpiece, rfl⟩ := List.mem_map.mp h
  obtain ⟨hpiece, full⟩ := List.mem_filter.mp hpiece
  rw [String.toList_ofList]
  exact ⟨by simpa using full, not_mem_of_mem_splitOn hpiece⟩

/-- Items that do not start with a dot are names of entries. -/
theorem IsItem.isEntryName {name : String} (h : IsItem name.toList)
    (head : name.toList.head? ≠ some '.') :
    IsEntryName name where
  nonempty := by
    rintro rfl
    exact h.1 rfl
  ne_here := by
    rintro rfl
    exact head rfl
  ne_up := by
    rintro rfl
    exact head rfl
  not_slash := h.2

theorem IsPlainName.isEntryName {name : String} (h : IsPlainName name.toList) :
    IsEntryName name :=
  IsItem.isEntryName ⟨h.nonempty, h.not_slash⟩ h.head

namespace IsNamed

variable {p : Path} (h : IsNamed p)
include h

theorem isEntryName {name : String} (hname : name ∈ pieces p) : IsEntryName name :=
  (isItem_of_mem_pieces hname).isEntryName (h.names name hname)

/-- A piece that means nothing is empty. -/
theorem isIdle_iff {piece : List Char} (hpiece : piece ∈ List.splitOn '/' p.text.toList) :
    isIdle piece = piece.isEmpty := by
  have dot : piece ≠ ['.'] := by
    rintro rfl
    have name : String.ofList ['.'] ∈ pieces p :=
      List.mem_map.mpr ⟨['.'], List.mem_filter.mpr ⟨hpiece, rfl⟩, rfl⟩
    exact h.names _ name rfl
  simp [isIdle, dot]

theorem inner_eq : p.inner = (pieces p).map .item := by
  have idle := fun piece (hpiece : piece ∈ List.splitOn '/' p.text.toList) =>
    h.isIdle_iff hpiece
  have named : ∀ piece ∈ List.splitOn '/' p.text.toList, piece ≠ ['.', '.'] := by
    rintro piece hpiece rfl
    have name : String.ofList ['.', '.'] ∈ pieces p :=
      List.mem_map.mpr ⟨_, List.mem_filter.mpr ⟨hpiece, rfl⟩, rfl⟩
    exact h.names _ name rfl
  rw [inner, pieces]
  generalize List.splitOn '/' p.text.toList = cut at idle named
  induction cut with
  | nil => rfl
  | cons piece more ih =>
      have rest := ih (fun q hq => idle q (List.mem_cons_of_mem _ hq)) fun q hq =>
        named q (List.mem_cons_of_mem _ hq)
      have first := idle piece List.mem_cons_self
      cases empty : piece.isEmpty with
      | true =>
          have nothing : Component.ofPiece? piece = none := by
            simp [Component.ofPiece?, first, empty]
          rw [List.filterMap_cons_none nothing,
            List.filter_cons_of_neg (by simp [empty]), rest]
      | false =>
          have something : Component.ofPiece? piece = some (.item (String.ofList piece)) := by
            simp [Component.ofPiece?, first, empty, named piece List.mem_cons_self]
          rw [List.filterMap_cons_some something,
            List.filter_cons_of_pos (by simp [empty]), rest]
          rfl

/-- The place of a named path is its names. -/
theorem placeOf_eq : placeOf p = pieces p := by
  rw [placeOf, climb_of_isEntryName fun _ hname => h.isEntryName hname, List.nil_append]

theorem entry {name : String} (hname : IsEntryName name)
    (head : name.toList.head? ≠ some '.') :
    IsNamed (p.entry name) where
  nonempty := by
    obtain ⟨front, text, -⟩ := exists_text_entry hname p
    intro empty
    rw [empty] at text
    exact hname.nonempty (String.toList_eq_nil_iff.mp (List.append_eq_nil_iff.mp text.symm).2)
  relative := by
    have alone : (⟨name⟩ : Path).isAbsolute = false := by
      rw [isAbsolute, decide_eq_false_iff_not]
      exact fun first => hname.not_slash (List.mem_of_mem_head? first)
    have full : p.text.toList ≠ [] := by simpa using h.nonempty
    have start := h.relative
    rw [isAbsolute, decide_eq_false_iff_not] at start ⊢
    rw [Path.entry, join, if_neg (by simp [alone])]
    split <;> simpa [List.head?_append_of_ne_nil _ full] using start
  names := by
    intro other hother
    rw [pieces_entry hname, List.mem_append, List.mem_singleton] at hother
    rcases hother with hother | rfl
    · exact h.names other hother
    · exact head

theorem pieces_ne_nil : pieces p ≠ [] := by
  obtain ⟨first, more, cut⟩ := exists_splitOn '/' p.text.toList
  have start : first ≠ [] := by
    rintro rfl
    have relative := h.relative
    have text : List.intercalate ['/'] (List.splitOn '/' p.text.toList) = p.text.toList :=
      List.intercalate_splitOn '/'
    rw [cut] at text
    rw [isAbsolute, decide_eq_false_iff_not, ← text] at relative
    cases more with
    | nil => exact h.nonempty (String.toList_eq_nil_iff.mp text.symm)
    | cons next more => exact relative rfl
  rw [pieces, cut, List.filter_cons_of_pos (by simpa using start)]
  exact List.cons_ne_nil _ _

/-- Empty pieces in front do not count. -/
theorem filter_dropWhile_isIdle {cut : List (List Char)}
    (inside : ∀ piece ∈ cut, piece ∈ List.splitOn '/' p.text.toList) :
    (cut.dropWhile isIdle).filter (!·.isEmpty) = cut.filter (!·.isEmpty) := by
  induction cut with
  | nil => rfl
  | cons piece more ih =>
      rw [List.dropWhile_cons, h.isIdle_iff (inside piece List.mem_cons_self)]
      cases empty : piece.isEmpty with
      | true =>
          rw [if_pos rfl, ih fun q hq => inside q (List.mem_cons_of_mem _ hq),
            List.filter_cons_of_neg (by simp [empty])]
      | false => rfl

theorem lead_eq : p.lead = ([], (List.splitOn '/' p.text.toList).reverse) := by
  rw [Path.lead]
  split
  · next rest heq =>
      have absolute : p.isAbsolute = true := by simp [isAbsolute, heq]
      rw [h.relative] at absolute
      cases absolute
  · rw [if_neg]
    intro dot
    have idle := h.isIdle_iff (List.mem_of_mem_head? (of_decide_eq_true dot))
    cases idle

/-! What stands in front of the last name: `last` is that name, and `more` are the pieces in
front of it, from the last one to the first one. -/

section Parent

variable {last : List Char} {more : List (List Char)}

theorem exists_last : ∃ last more,
    (List.splitOn '/' p.text.toList).reverse.dropWhile isIdle = last :: more := by
  refine List.exists_cons_of_ne_nil fun nothing => h.pieces_ne_nil ?_
  have none_ := h.filter_dropWhile_isIdle fun piece hpiece => List.mem_reverse.mp hpiece
  rw [nothing, List.filter_nil, List.filter_reverse, eq_comm,
    List.reverse_eq_nil_iff] at none_
  rw [pieces, none_, List.map_nil]

variable (shape : (List.splitOn '/' p.text.toList).reverse.dropWhile isIdle = last :: more)
include shape

omit h in
theorem suffix_pieces : last :: more <:+ (List.splitOn '/' p.text.toList).reverse :=
  shape ▸ List.dropWhile_suffix _

omit h in
theorem mem_splitOn_of_mem {piece : List Char} (hpiece : piece ∈ last :: more) :
    piece ∈ List.splitOn '/' p.text.toList :=
  List.mem_reverse.mp ((suffix_pieces shape).subset hpiece)

omit h in
theorem mem_splitOn_of_mem_dropWhile {piece : List Char}
    (hpiece : piece ∈ more.dropWhile isIdle) : piece ∈ List.splitOn '/' p.text.toList :=
  mem_splitOn_of_mem shape (List.mem_cons_of_mem _ ((List.dropWhile_suffix _).subset hpiece))

theorem parent_eq : p.parent = some (ofLead [] (more.dropWhile isIdle)) := by
  rw [parent, h.lead_eq]
  dsimp only
  rw [shape]

theorem pieces_dropLast : (pieces p).dropLast
    = (((more.dropWhile isIdle).filter (!·.isEmpty)).map String.ofList).reverse := by
  have full : last.isEmpty = false := by
    have head := List.head?_dropWhile_not isIdle (List.splitOn '/' p.text.toList).reverse
    rw [shape] at head
    rw [← h.isIdle_iff (mem_splitOn_of_mem shape List.mem_cons_self)]
    simpa using head
  have whole := h.filter_dropWhile_isIdle fun piece hpiece => List.mem_reverse.mp hpiece
  rw [shape, List.filter_cons_of_pos (by simp [full]), List.filter_reverse] at whole
  have within : ∀ piece ∈ more, piece ∈ List.splitOn '/' p.text.toList :=
    fun piece hpiece => mem_splitOn_of_mem shape (List.mem_cons_of_mem _ hpiece)
  rw [h.filter_dropWhile_isIdle within, pieces,
    ← List.reverse_reverse ((List.splitOn _ _).filter _), ← whole]
  simp

omit h shape in
theorem toList_ofLead_nil (cut : List (List Char)) :
    (ofLead [] cut).text.toList = List.intercalate ['/'] cut.reverse := by
  rw [ofLead, String.toList_ofList, List.nil_append]

theorem pieces_ofLead (some_ : more.dropWhile isIdle ≠ []) :
    pieces (ofLead [] (more.dropWhile isIdle)) = (pieces p).dropLast := by
  have separated : ∀ piece ∈ (more.dropWhile isIdle).reverse, '/' ∉ piece :=
    fun piece hpiece => not_mem_of_mem_splitOn
      (mem_splitOn_of_mem_dropWhile shape (List.mem_reverse.mp hpiece))
  rw [pieces, toList_ofLead_nil, List.splitOn_intercalate _ separated (by simpa using some_),
    h.pieces_dropLast shape, List.filter_reverse, List.map_reverse]

omit h in
/-- The text of the directory begins the text of the path. -/
theorem isPrefix_ofLead :
    (ofLead [] (more.dropWhile isIdle)).text.toList <+: p.text.toList := by
  have whole : List.intercalate ['/'] (List.splitOn '/' p.text.toList) = p.text.toList :=
    List.intercalate_splitOn '/'
  rw [toList_ofLead_nil, ← whole]
  refine intercalate_prefix ?_
  rw [← List.reverse_suffix, List.reverse_reverse]
  exact (List.dropWhile_suffix _).trans
    ((List.suffix_cons _ _).trans (suffix_pieces shape))

theorem isNamed_ofLead (some_ : more.dropWhile isIdle ≠ []) :
    IsNamed (ofLead [] (more.dropWhile isIdle)) where
  nonempty := by
    intro empty
    obtain ⟨next, rest, following⟩ := List.exists_cons_of_ne_nil some_
    have idle := List.head?_dropWhile_not isIdle more
    have none_ : pieces (ofLead [] (more.dropWhile isIdle)) = [] := by
      rw [pieces, empty]
      rfl
    rw [h.pieces_ofLead shape some_, h.pieces_dropLast shape, following,
      List.filter_cons_of_pos] at none_
    · simp at none_
    · rw [following] at idle
      rw [← h.isIdle_iff (mem_splitOn_of_mem_dropWhile shape (following ▸ List.mem_cons_self))]
      simpa using idle
  relative := by
    have relative := h.relative
    rw [isAbsolute, decide_eq_false_iff_not] at relative ⊢
    intro absolute
    obtain ⟨rest, hrest⟩ := isPrefix_ofLead shape
    rw [← hrest, List.head?_append, absolute] at relative
    exact relative rfl
  names := by
    rw [h.pieces_ofLead shape some_]
    exact fun name hname => h.names name (List.mem_of_mem_dropLast hname)

end Parent

/-- **A named path lies in the directory of its other names**, which may be the empty path. -/
theorem exists_parent : ∃ dir, p.parent = some dir ∧
    (dir.text = "" ∧ (pieces p).dropLast = [] ∨
      IsNamed dir ∧ pieces dir = (pieces p).dropLast) := by
  obtain ⟨last, more, shape⟩ := h.exists_last
  refine ⟨_, h.parent_eq shape, ?_⟩
  by_cases none_ : more.dropWhile isIdle = []
  · refine .inl ⟨?_, by rw [h.pieces_dropLast shape, none_]; rfl⟩
    rw [none_]
    rfl
  · exact .inr ⟨h.isNamed_ofLead shape none_, h.pieces_ofLead shape none_⟩

end IsNamed

/-! ## Specifiers -/

/-- The directory itself, or a named one. -/
def IsNamedDir (p : Path) : Prop := p = ⟨"."⟩ ∨ IsNamed p

/-- What the working directory adds to the names of a path does not depend on the path. -/
theorem exists_names_eq (here : Path) : ∃ base, ∀ p : Path, IsNamedDir p →
    normal here p = .root :: (base ++ placeOf p).map .item := by
  obtain ⟨base, hbase⟩ := exists_base here
  refine ⟨base, fun p hp => ?_⟩
  rcases hp with rfl | hp
  · rw [normal, if_neg (by decide), hbase _ (by decide), show placeOf ⟨"."⟩ = [] from rfl,
      List.append_nil]
    rfl
  · have followed : ∀ (names : List String) (base : List String),
        (names.map Component.item).foldl follow base = base ++ names := by
      intro names
      induction names with
      | nil => simp
      | cons name more ih =>
          intro base
          rw [List.map_cons, List.foldl_cons, ih]
          simp [follow]
    rw [normal, if_neg (by simpa using hp.nonempty), hbase p hp.relative, hp.inner_eq,
      followed, hp.placeOf_eq]

/-- The longest list that both lists start with. -/
structure IsLongestCommonPrefix {α : Type} (common a b : List α) : Prop where
  left : common <+: a
  right : common <+: b
  longest : ∀ other, other <+: a → other <+: b → other.length ≤ common.length

/-- What is left of two lists stands behind their longest common prefix. -/
theorem exists_longest_common {α : Type} [DecidableEq α] (a b : List α) :
    ∃ common, IsLongestCommonPrefix common a b ∧ a = common ++ (dropCommon a b).1 ∧
      b = common ++ (dropCommon a b).2 := by
  fun_induction dropCommon a b with
  | case1 as c bs ih =>
      obtain ⟨common, ⟨left, right, longest⟩, first, second⟩ := ih
      refine ⟨c :: common, ⟨List.cons_prefix_cons.mpr ⟨rfl, left⟩,
        List.cons_prefix_cons.mpr ⟨rfl, right⟩, ?_⟩,
        congrArg (c :: ·) first, congrArg (c :: ·) second⟩
      intro other ha hb
      cases other with
      | nil => exact Nat.zero_le _
      | cons d more =>
          exact Nat.succ_le_succ (longest more (List.cons_prefix_cons.mp ha).2
            (List.cons_prefix_cons.mp hb).2)
  | case2 c as d bs differ =>
      refine ⟨[], ⟨List.nil_prefix, List.nil_prefix, fun other ha hb => ?_⟩, rfl, rfl⟩
      cases other with
      | nil => exact Nat.le_refl 0
      | cons e more =>
          exact absurd ((List.cons_prefix_cons.mp ha).1.symm.trans
            (List.cons_prefix_cons.mp hb).1) differ
  | case3 as bs exhausted =>
      refine ⟨[], ⟨List.nil_prefix, List.nil_prefix, fun other ha hb => ?_⟩, rfl, rfl⟩
      cases other with
      | nil => exact Nat.le_refl 0
      | cons e more =>
          obtain ⟨restA, rfl⟩ := ha
          obtain ⟨restB, rfl⟩ := hb
          exact (exhausted e _ e _ rfl rfl).elim

theorem pieces_here (p : String) : pieces ⟨"./" ++ p⟩ = "." :: pieces ⟨p⟩ := by
  have cut : List.splitOn '/' ("./" ++ p).toList = ['.'] :: List.splitOn '/' p.toList := by
    rw [String.toList_append]
    exact List.splitOn_append_cons_self ['.'] p.toList
  simp only [pieces, cut]
  rw [List.filter_cons_of_pos rfl, List.map_cons]

/-- Two lists of names part behind their common front. -/
theorem exists_common (a b : List String) :
    ∃ common ups downs, a = common ++ ups ∧ b = common ++ downs ∧
    dropCommon (a.map Component.item) (b.map .item) = (ups.map .item, downs.map .item) := by
  obtain ⟨front, -, first, second⟩ :=
    exists_longest_common (a.map Component.item) (b.map .item)
  obtain ⟨common, ups, ha, hfront, hups⟩ := List.map_eq_append_iff.mp first
  obtain ⟨common', downs, hb, hfront', hdowns⟩ := List.map_eq_append_iff.mp second
  obtain rfl : common' = common :=
    List.map_injective_iff.mpr (fun a b h => Component.item.inj h) (hfront'.trans hfront.symm)
  exact ⟨common', ups, downs, ha, hb, Prod.ext hups.symm hdowns.symm⟩

section Specifier

variable (here : Path) {source target : Path}

theorem relative_eq_join (way : steps here source target ≠ []) :
    (relative here source target).toList
      = List.intercalate ['/'] (((steps here source target).map Component.text).map
        String.toList) := by
  unfold relative
  split
  · contradiction
  · rw [toList_join]
    rfl

/-- A way that only leads down starts with the name of its first entry. -/
theorem prefix_relative {name : String} {more : List String}
    (way : steps here source target = (name :: more).map .item) :
    name.toList <+: (relative here source target).toList := by
  rw [relative_eq_join here (by simp [way]), way]
  cases more with
  | nil => simp [Component.text]
  | cons next more =>
      simp only [List.map_cons, List.intercalate_cons_cons, List.append_assoc]
      exact List.prefix_append _ _

theorem pieces_relative (start : source.text ≠ "") (way : steps here source target ≠ []) :
    pieces ⟨relative here source target⟩ = (steps here source target).map Component.text := by
  have items : ∀ piece ∈ ((steps here source target).map Component.text).map String.toList,
    IsItem piece := by
    intro piece hpiece
    rw [List.map_map] at hpiece
    obtain ⟨c, hc, rfl⟩ := List.mem_map.mp hpiece
    exact isItem_of_mem_steps start hc
  rw [pieces, relative_eq_join here way,
    List.splitOn_intercalate _ (fun piece hpiece => (items piece hpiece).2)
      (by simpa using way),
    List.filter_eq_self.mpr fun piece hpiece => by simpa using (items piece hpiece).1,
    List.map_map]
  exact (List.map_congr_left fun s _ => String.ofList_toList).trans (List.map_id _)

/-- A way is followed as the steps that it is made of: up to a common place, and down. -/
theorem climb_relative_of_steps (start : source.text ≠ "") {ups downs : List String}
    (way : steps here source target = ups.map (fun _ => .up) ++ downs.map .item)
    (names : ∀ name ∈ downs, IsEntryName name) (common : Place) :
    climb (common ++ ups) (pieces ⟨relative here source target⟩) = common ++ downs := by
  have stepwise : climb (common ++ ups) (pieces ⟨relative here source target⟩)
      = climb (common ++ ups) ((steps here source target).map Component.text) := by
    by_cases nothing : steps here source target = []
    · rw [relative, nothing]
      rfl
    · rw [pieces_relative here start nothing]
  rw [stepwise, way, List.map_append, List.map_map, List.map_map, climb, List.foldl_append,
    ← climb, ← climb]
  calc climb (climb (common ++ ups) (ups.map fun _ => "..")) (downs.map id)
      = climb common downs := by rw [climb_ups, List.map_id]
    _ = common ++ downs := climb_of_isEntryName names common

/-- A dot in front of a specifier leads nowhere. -/
theorem climb_specifier_of_steps (start : source.text ≠ "") {ups downs : List String}
    (way : steps here source target = ups.map (fun _ => .up) ++ downs.map .item)
    (names : ∀ name ∈ downs, IsEntryName name) (common : Place) :
    climb (common ++ ups) (pieces ⟨specifier here source target⟩) = common ++ downs := by
  rw [← climb_relative_of_steps here start way names, specifier, dotted]
  split
  · rfl
  · rw [pieces_here, climb, List.foldl_cons, ← climb, step, if_pos rfl]

variable (hs : IsNamedDir source) (ht : IsNamed target)
include hs ht

/-- The way leads up to a common place and down to the target. -/
theorem exists_steps_eq : ∃ common ups downs, placeOf source = common ++ ups ∧
    placeOf target = common ++ downs ∧
    steps here source target = ups.map (fun _ => .up) ++ downs.map .item := by
  obtain ⟨base, normal_⟩ := exists_names_eq here
  obtain ⟨common, ups, downs, hsource, htarget, parted⟩ :=
    exists_common (placeOf source) (placeOf target)
  refine ⟨common, ups, downs, hsource, htarget, ?_⟩
  rw [steps, normal_ source hs, normal_ target (.inr ht), List.map_append, List.map_append,
    ← List.cons_append,
    ← List.cons_append, dropCommon_append, parted]
  dsimp only
  rw [List.map_map]
  rfl

/-- **A specifier arrives at its target.** -/
theorem climb_specifier (root : Place) :
    climb (root ++ placeOf source) (pieces ⟨specifier here source target⟩)
      = root ++ placeOf target := by
  obtain ⟨common, ups, downs, hsource, htarget, way⟩ := exists_steps_eq here hs ht
  have start : source.text ≠ "" := by
    rcases hs with rfl | hs
    · decide
    · exact hs.nonempty
  have names : ∀ name ∈ downs, IsEntryName name := by
    intro name hname
    refine ht.isEntryName ?_
    rw [← ht.placeOf_eq, htarget]
    exact List.mem_append_right _ hname
  rw [hsource, htarget, ← List.append_assoc, climb_specifier_of_steps here start way names,
    List.append_assoc]

end Specifier

/-- A specifier that starts at the importing script.  The four forms are those that a loader
tells from the name of a package. -/
def IsExplicit (specifier : String) : Prop :=
  specifier = "." ∨ specifier = ".." ∨ "./".toList <+: specifier.toList ∨
  "../".toList <+: specifier.toList

/-- A way that leads up, or down into an entry without a leading dot, has an explicit
specifier. -/
theorem isExplicit_of_steps (here : Path) {source target : Path} {ups downs : List String}
    (way : steps here source target = ups.map (fun _ => .up) ++ downs.map .item)
    (first : ups = [] → ∀ name ∈ downs.head?, name ≠ "" ∧ name.toList.head? ≠ some '.') :
    IsExplicit (specifier here source target) := by
  rw [specifier, dotted]
  split
  · next dot =>
      cases ups with
      | nil =>
          cases downs with
          | nil => exact .inl (by rw [relative, way]; rfl)
          | cons name more =>
              obtain ⟨nonempty, head⟩ := first rfl name rfl
              obtain ⟨rest, text⟩ := prefix_relative here way
              rw [← text, List.head?_append_of_ne_nil _ (by simpa using nonempty)] at dot
              exact absurd dot head
      | cons up more =>
          have way : steps here source target
              = .up :: (more.map (fun _ => .up) ++ downs.map .item) := way
          cases more : more.map (fun _ => Component.up) ++ downs.map .item with
          | nil => exact .inr (.inl (by rw [relative, way, more]; rfl))
          | cons second rest =>
              refine .inr (.inr (.inr ?_))
              rw [relative_eq_join here (by simp [way]), way, more, List.map_cons,
                List.map_cons, List.map_cons,
                List.map_cons, List.intercalate_cons_cons]
              exact List.prefix_append _ _
  · refine .inr (.inr (.inl ?_))
    rw [String.toList_append]
    exact List.prefix_append _ _

theorem isExplicit_specifier (here : Path) {source target : Path} (hs : IsNamedDir source)
    (ht : IsNamed target) :
    IsExplicit (specifier here source target) := by
  obtain ⟨common, ups, downs, -, htarget, way⟩ := exists_steps_eq here hs ht
  refine isExplicit_of_steps here way fun _ name first => ?_
  have hname : name ∈ pieces target := by
    rw [← ht.placeOf_eq, htarget]
    exact List.mem_append_right _ (List.mem_of_mem_head? first)
  exact ⟨(ht.isEntryName hname).nonempty, ht.names name hname⟩

end Path

end Attestation
