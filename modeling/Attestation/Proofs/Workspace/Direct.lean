import Attestation.Proofs.Path.Parent
import Attestation.Proofs.Workspace.Sound

/-!
# Direct paths

A parent step of a path leads somewhere only once there is a directory to leave.  A path is
direct when each of its parent steps leaves a directory that is there.  Then the directory of
the path is found by the path wherever it is there (`Direct.walk`), and making it makes nothing
but the directories that it lies in (`Direct.prefix_of_addDirs`); otherwise directories are
made on the way that the path leaves again, and what it leads to may come into view only with
them.

* `FileTree.Direct`: paths whose parent steps leave directories that are there.

## Design notes

The file system follows a path step by step, and a parent step of a directory that is not there
fails, where a computation on the text would go on.  Both agree for direct paths.  The
condition is on the tree that a run starts from, and it is kept when directories are added.
-/

namespace Attestation.FileTree

open Attestation.Path

variable {t t' : FileTree} {p : Path}

/-! ## Walks -/

/-- A walk goes on from the directory that its first names lead to. -/
theorem walk_append {dir q : Place} {front : List String}
    (walked : t.walk dir front = .ok (.found q .dir))
    (back : List String) : t.walk dir (front ++ back) = t.walk q back := by
  induction front generalizing dir with
  | nil =>
      cases walked
      rfl
  | cons name more ih =>
      by_cases here : name = "."
      · subst here
        exact ih walked
      · by_cases up : name = ".."
        · subst up
          exact ih walked
        · rw [walk_name here up] at walked
          rw [List.cons_append, walk_name here up]
          split at walked
          · exact ih walked
          · split at walked <;> cases walked
          · split at walked <;> cases walked

/-- Dots make no difference to a walk that ends at a directory. -/
theorem walk_filter_iff {dir q : Place} {names : List String} :
    t.walk dir (names.filter (· ≠ ".")) = .ok (.found q .dir) ↔
    t.walk dir names = .ok (.found q .dir) := by
  induction names generalizing dir with
  | nil => exact Iff.rfl
  | cons name more ih =>
      by_cases here : name = "."
      · subst here
        exact ih
      · rw [List.filter_cons_of_pos (by simpa using here)]
        by_cases up : name = ".."
        · subst up
          exact ih
        · rw [walk_name here up, walk_name here up]
          split
          · exact ih
          · constructor <;> intro h <;> split at h <;> cases h
          · constructor <;> intro h <;> split at h <;> cases h

theorem walk_moves_iff {q : Place} :
    t.walk [] p.moves = .ok (.found q .dir) ↔ t.walk [] (pieces p) = .ok (.found q .dir) := by
  rw [moves_eq_filter]
  exact walk_filter_iff

/-- Names without steps lead on through directories. -/
theorem walk_of_isEntryName {dir : Place} {names : List String}
    (entries : ∀ name ∈ names, IsEntryName name)
    (inside : ∀ front, front <+: names → front ≠ [] → t.get? (dir ++ front) = some .dir) :
    t.walk dir names = .ok (.found (dir ++ names) .dir) := by
  induction names generalizing dir with
  | nil => rw [walk, List.append_nil]
  | cons name more ih =>
      have first := entries name List.mem_cons_self
      have found : t.get? (dir ++ [name]) = some .dir :=
        inside [name] (List.cons_prefix_cons.mpr ⟨rfl, List.nil_prefix⟩) (List.cons_ne_nil _ _)
      have step : t.walk dir (name :: more) = t.walk (dir ++ [name]) more := by
        rw [walk_name first.ne_here first.ne_up, found]
      rw [step, List.append_cons dir name more]
      refine ih (fun other hother => entries other (List.mem_cons_of_mem _ hother)) fun front
        hfront _ => ?_
      rw [List.append_assoc]
      exact inside (name :: front) (List.cons_prefix_cons.mpr ⟨rfl, hfront⟩)
        (List.cons_ne_nil _ _)

theorem placeOf_eq_climb_moves (p : Path) : placeOf p = climb [] p.moves := by
  have dots : ∀ (names : List String) (dir : Place), climb dir (names.filter (· ≠ "."))
      = climb dir names := by
    intro names
    induction names with
    | nil => exact fun _ => rfl
    | cons name more ih =>
        intro dir
        by_cases here : name = "."
        · subst here
          exact ih dir
        · rw [List.filter_cons_of_pos (by simpa using here)]
          exact ih (step dir name)
  rw [moves_eq_filter, dots, placeOf]

theorem moves_entry {name : String} (hname : IsEntryName name) (dir : Path) :
    (dir.entry name).moves = dir.moves ++ [name] := by
  have one : [name].filter (fun n => decide (n ≠ ".")) = [name] := by
    rw [List.filter_cons_of_pos (by simpa using hname.ne_here), List.filter_nil]
  rw [moves_eq_filter, moves_eq_filter, pieces_entry hname, List.filter_append, one]

/-! ## Parent steps -/

/-- Each parent step of the path leaves a directory that is there.  The walk that the system
makes is then the one on names, and what is at the end of it can be told before any directory
is made. -/
def Direct (t : FileTree) (p : Path) : Prop :=
  ∃ front back, p.moves = front ++ back ∧
    t.walk [] front = .ok (.found (climb [] front) .dir) ∧ ".." ∉ back

/-- A path without parent steps is direct. -/
theorem direct_of_not_mem (t : FileTree) (h : ".." ∉ p.moves) : t.Direct p :=
  ⟨[], p.moves, rfl, rfl, h⟩

namespace Direct

theorem of_moves_eq {dir : Path} (h : t.Direct p) (same : dir.moves = p.moves) :
    t.Direct dir := by
  rwa [Direct, same]

theorem mono (h : t.Direct p) (keeps : KeepsDirs t t') : t'.Direct p := by
  obtain ⟨front, back, cut, walked, down⟩ := h
  exact ⟨front, back, cut, keeps.walk walked, down⟩

theorem isEntryName {back front : List String} (cut : p.moves = front ++ back)
    (down : ".." ∉ back) :
    ∀ name ∈ back, IsEntryName name := by
  intro name hname
  have hmoves : name ∈ p.moves := cut ▸ List.mem_append_right _ hname
  rw [moves_eq_filter, List.mem_filter] at hmoves
  have item := isItem_of_mem_pieces hmoves.1
  exact ⟨by rintro rfl; exact item.1 rfl, by simpa using hmoves.2, fun up => down (up ▸
    hname), item.2⟩

theorem entry (h : t.Direct p) {name : String} (hname : IsEntryName name) :
    t.Direct (p.entry name) := by
  obtain ⟨front, back, cut, walked, down⟩ := h
  refine ⟨front, back ++ [name], ?_, walked, ?_⟩
  · rw [moves_entry hname, cut, List.append_assoc]
  · rw [List.mem_append, List.mem_singleton, not_or]
    exact ⟨down, fun up => hname.ne_up up.symm⟩

/-- **A directory is found by a direct path.** -/
theorem walk (h : t.Direct p) (sound : t.Sound) (there : t.get? (placeOf p) = some .dir) :
    t.walk [] (pieces p) = .ok (.found (placeOf p) .dir) := by
  obtain ⟨front, back, cut, walked, down⟩ := h
  have entries := isEntryName cut down
  have place : placeOf p = climb [] front ++ back := by
    rw [placeOf_eq_climb_moves, cut, climb, List.foldl_append, ← climb]
    exact climb_of_isEntryName entries _
  rw [place] at there ⊢
  rw [← walk_moves_iff, cut, walk_append walked]
  refine walk_of_isEntryName entries fun some_ hsome _ => ?_
  by_cases whole : some_ = back
  · rw [whole, there]
  · exact sound.of_prefix (by simp [there]) (List.prefix_append_right_inj _ |>.mpr hsome)
      (by simpa using whole)

end Direct

/-! ## Making directories -/

/-- A directory that is made is the one that the path stands for. -/
theorem eq_of_ensureDir (made : t.ensureDir p = .ok t') {q : Place} (before : t.get? q = none)
    (after : t'.get? q ≠ none) : q = placeOf p := by
  unfold ensureDir makeDir at made
  cases target : t.follow p with
  | error e =>
      simp only [target, bind, Except.bind] at made
      split at made
      · cases made
        exact absurd before after
      · cases made
  | ok found =>
      have place := walk_place (follow_eq_walk target)
      cases found with
      | found place node =>
          simp only [target, bind, Except.bind] at made
          split at made
          · cases made
            exact absurd before after
          · cases made
      | missing place' =>
          simp only [target, bind, Except.bind] at made
          cases made
          obtain rfl : place' = placeOf p := place
          obtain ⟨hne, -⟩ := walk_look (follow_eq_walk target) nofun
          rw [get?_set t (p := placeOf p) hne] at after
          split at after
          · assumption
          · exact absurd before after

theorem eq_of_settle_ensureDir {q : Place} (before : t.get? q = none)
    (after : (t.settle (t.ensureDir p)).2.get? q ≠ none) : q = placeOf p := by
  cases made : t.ensureDir p with
  | error e =>
      rw [made] at after
      exact absurd before after
  | ok t' =>
      rw [made] at after
      exact eq_of_ensureDir made before after

/-- A directory that is there does not lack another one. -/
theorem ensureDir_ne_notFound {dir : Place} (nonempty : p.text ≠ "")
    (walked : t.walk [] (pieces p) = .ok (.found dir .dir)) :
    t.ensureDir p ≠ .error .notFound := by
  by_cases hp : IsPath p
  · have found : t.follow p = .ok (.found dir .dir) := follow_of_walk hp walked fun _ =>
      ⟨dir, .inl rfl⟩
    simp [ensureDir, makeDir, isDir, found, bind, Except.bind]
  · have nul : p.text.toList.contains '\x00' = true := by
      by_contra h
      exact hp ⟨by simpa using h, nonempty⟩
    have invalid : t.follow p = .error .invalidInput := by rw [follow, if_pos nul]
    simp [ensureDir, makeDir, isDir, invalid, bind, Except.bind]

/-- The parent of a direct path that does not lead anywhere yet is direct, and the path leads
on from there. -/
theorem Direct.parent {dir : Path} (h : t.Direct p) (nonempty : p.text ≠ "")
    (lost : t.ensureDir p = .error .notFound)
    (parent : p.parent = some dir) : t.Direct dir ∧ placeOf dir <+: placeOf p := by
  obtain ⟨front, back, cut, walked, down⟩ := h
  have entries := isEntryName cut down
  induction back using List.reverseRecOn with
  | nil =>
      rw [← List.append_nil front, ← cut, walk_moves_iff] at walked
      exact absurd lost (ensureDir_ne_notFound nonempty walked)
  | append_singleton back last _ =>
      have moves : dir.moves = front ++ back := by
        rw [moves_of_parent parent, cut, ← List.append_assoc, List.dropLast_concat]
      refine ⟨⟨front, back, moves, walked, fun up => down (List.mem_append_left _ up)⟩, ?_⟩
      rw [placeOf_eq_climb_moves dir, placeOf_eq_climb_moves p, moves, cut,
        ← List.append_assoc,
        climb_concat (entries last (by simp))]
      exact List.prefix_append _ _

theorem Direct.prefix_of_addDirsWithin {fuel : Nat} (h : t.Direct p) {q : Place}
    (before : t.get? q = none)
    (after : (addDirsWithin fuel t p).2.get? q ≠ none) : q <+: placeOf p := by
  -- A directory that is made on the way is made by the parent or is the one that the path
  -- itself stands for.
  induction fuel generalizing p with
  | zero => rw [eq_of_settle_ensureDir before after]
  | succ fuel ih =>
      rw [addDirsWithin] at after
      split at after
      · exact absurd before after
      · next nonempty =>
          split at after
          · next lost =>
              split at after
              · next dir parent =>
                  obtain ⟨direct, within⟩ := h.parent (by simpa using nonempty) lost parent
                  have first : (addDirsWithin fuel t dir).2.get? q ≠ none → q <+: placeOf p :=
                    fun there => (ih direct there).trans within
                  split at after
                  · next made hmade =>
                      rw [hmade] at first
                      by_cases there : made.get? q = none
                      · rw [eq_of_settle_ensureDir there after]
                      · exact first there
                  · exact first after
              · exact absurd before after
          · rw [eq_of_settle_ensureDir before after]

/-- **Along a direct path only the directories are made that it lies in.** -/
theorem Direct.prefix_of_addDirs (h : t.Direct p) {q : Place} (before : t.get? q = none)
    (after : (t.addDirs p).2.get? q ≠ none) : q <+: placeOf p :=
  h.prefix_of_addDirsWithin before after

/-- Only directories are made that an entry lies in when its parent is made. -/
theorem Direct.prefix_of_addDirs_parent {dir parent : Path} {name : String} (h : t.Direct dir)
    (hname : IsEntryName name)
    (isParent : (dir.entry name).parent = some parent) {q : Place} (before : t.get? q = none)
    (after : (t.addDirs parent).2.get? q ≠ none) : q <+: placeOf dir := by
  have same : parent.moves = dir.moves := by
    rw [moves_of_parent isParent, moves_entry hname, List.dropLast_concat]
  have place : placeOf parent = placeOf dir := by
    rw [placeOf_eq_climb_moves, placeOf_eq_climb_moves, same]
  exact place ▸ (h.of_moves_eq same).prefix_of_addDirs before after

end Attestation.FileTree
