import Attestation.Proofs.Path.Arrival
import Attestation.Proofs.Workspace.Run

/-!
# Sound trees stay sound

Entries lie in directories, whatever a plan asks for (`Plan.sound_runIn`): what is made is put
into a directory that a path has led to, and what is removed goes with all below it.

* `FileTree.Sound.of_prefix`: in a sound tree a place that is taken lies in directories only.
* `FileTree.Sound.exists_parent`: where a walk ends that does not end at a directory.

## Design notes

Soundness is a property of the tree that is stored and is not built into its type, since trees
are compared and written down as lists of nodes.  It is preserved by every request, which makes
it an invariant of all plans by one induction, and only the first tree has to be examined.
-/

namespace Attestation

namespace FileTree

variable {t t' : FileTree}

namespace Sound

variable (h : t.Sound)
include h

theorem dropLast {dir : Place} (hdir : t.get? dir = some .dir) :
    t.get? dir.dropLast = some .dir := by
  induction dir using List.reverseRecOn with
  | nil => exact hdir
  | append_singleton front name _ =>
      rw [List.dropLast_concat]
      exact h.parent front name (by simp [hdir])

/-- What a place lies in are directories. -/
theorem of_prefix {q r : Place} (there : t.get? q ≠ none) (front : r <+: q) (proper : r ≠ q) :
    t.get? r = some .dir := by
  induction q using List.reverseRecOn with
  | nil => exact absurd (List.prefix_nil.mp front) proper
  | append_singleton q name ih =>
      have parent := h.parent q name there
      rcases List.prefix_concat_iff.mp front with rfl | front
      · exact absurd rfl proper
      · by_cases same : r = q
        · rw [same, parent]
        · exact ih (by simp [parent]) front same

/-- A walk that does not end at a directory ends at an entry of one. -/
theorem exists_parent {dir : Place} {names : List String} {target : Target}
    (hdir : t.get? dir = some .dir)
    (items : ∀ name ∈ names, Path.IsItem name.toList) (walked : t.walk dir names = .ok target)
    (notDir : ∀ q, target ≠ .found q .dir) :
    ∃ parent name, target.place = parent ++ [name] ∧ t.get? parent = some .dir ∧
      IsEntryName name := by
  induction names generalizing dir with
  | nil =>
      cases walked
      exact absurd rfl (notDir dir)
  | cons name more ih =>
      have more_ := fun other hother => items other (List.mem_cons_of_mem _ hother)
      by_cases here : name = "."
      · subst here
        exact ih hdir more_ walked
      · by_cases up : name = ".."
        · subst up
          exact ih (h.dropLast hdir) more_ walked
        · have item := items name List.mem_cons_self
          have entry : IsEntryName name := ⟨by rintro rfl; exact item.1 rfl, here, up, item.2⟩
          rw [walk_name here up] at walked
          split at walked
          · next found => exact ih found more_ walked
          all_goals
            split at walked
            · cases walked
              exact ⟨dir, name, rfl, hdir, entry⟩
            · cases walked

theorem exists_parent_of_follow {p : Path} {target : Target} (found : t.follow p = .ok target)
    (notDir : ∀ q, target ≠ .found q .dir) :
    ∃ parent name, target.place = parent ++ [name] ∧ t.get? parent = some .dir ∧
      IsEntryName name :=
  h.exists_parent (get?_root t) (fun _ => Path.isItem_of_mem_pieces) (follow_eq_walk found)
    notDir

/-- Something new, or another file in the place of one, can be put into a directory. -/
theorem set {parent : Place} {name : String} {n : Node} (hparent : t.get? parent = some .dir)
    (hname : IsEntryName name)
    (free : n = .dir ∨ t.get? (parent ++ [name]) ≠ some .dir) :
    (t.set (parent ++ [name]) n).Sound := by
  have look : ∀ q, (t.set (parent ++ [name]) n).get? q
      = if q = parent ++ [name] then some n else t.get? q :=
    get?_set t (by simp) n
  constructor
  · intro dir other there
    have hdir : t.get? dir = some .dir := by
      rw [look] at there
      split at there
      · next same => rwa [List.append_inj_left' same rfl]
      · exact h.parent dir other there
    rw [look]
    split
    · next same =>
        rcases free with rfl | file
        · rfl
        · exact absurd (same ▸ hdir) file
    · exact hdir
  · intro dir other there
    rw [look] at there
    split at there
    · next same =>
        rwa [List.singleton_inj.mp (List.append_inj_right' same rfl)]
    · exact h.name dir other there

/-- A directory can be taken out with all that lies in it. -/
theorem eraseWhere {gone : Place → Bool}
    (within : ∀ dir name, gone dir = true → t.get? (dir ++ [name]) ≠ none →
      gone (dir ++ [name]) = true) :
    (t.eraseWhere gone).Sound := by
  have look : ∀ dir name, (t.eraseWhere gone).get? (dir ++ [name]) ≠ none →
      gone (dir ++ [name]) = false ∧ t.get? (dir ++ [name]) ≠ none := by
    intro dir name there
    rw [get?_eraseWhere t gone (by simp)] at there
    split at there
    · exact absurd rfl there
    · next kept => exact ⟨by simpa using kept, there⟩
  constructor
  · intro dir name there
    obtain ⟨kept, there⟩ := look dir name there
    have hdir := h.parent dir name there
    by_cases root : dir = []
    · rw [root, get?_root]
    · have stays : gone dir = false := by
        by_contra hgone
        rw [within dir name (by simpa using hgone) there] at kept
        cases kept
      rw [get?_eraseWhere t gone root, stays, if_neg Bool.false_ne_true, hdir]
  · intro dir name there
    exact h.name dir name (look dir name there).2

/-! ## Operations -/

theorem makeDir {p : Path} (made : t.makeDir p = .ok t') : t'.Sound := by
  unfold FileTree.makeDir at made
  cases target : t.follow p with
  | error e =>
      rw [target] at made
      cases made
  | ok found =>
      rw [target] at made
      cases found with
      | found place node => cases made
      | missing place =>
          cases made
          obtain ⟨parent, name, rfl, hparent, hname⟩ := h.exists_parent_of_follow target nofun
          exact h.set hparent hname (.inl rfl)

theorem ensureDir {p : Path} (made : t.ensureDir p = .ok t') : t'.Sound := by
  unfold FileTree.ensureDir at made
  split at made
  · next made' =>
      cases made
      exact h.makeDir made'
  · split at made
    · cases made
      exact h
    · cases made

theorem settle {result : Except IoError FileTree} (ok : ∀ made, result = .ok made →
    made.Sound) :
    (t.settle result).2.Sound := by
  cases result with
  | ok made => exact ok made rfl
  | error e => exact h

theorem addDirsWithin (fuel : Nat) (p : Path) : (addDirsWithin fuel t p).2.Sound := by
  induction fuel generalizing p with
  | zero => exact h.settle fun _ => h.ensureDir
  | succ fuel ih =>
      rw [FileTree.addDirsWithin]
      split
      · exact h
      · split
        · split
          · next parent _ =>
              have first := ih parent
              split
              · next made hmade =>
                  rw [hmade] at first
                  exact first.settle fun _ => first.ensureDir
              · exact first
          · exact h
        · exact h.settle fun _ => h.ensureDir

theorem write {p : Path} {s : String} (made : t.write p s = .ok t') : t'.Sound := by
  obtain ⟨target, hne, other, rfl⟩ := write_eq_set made
  have notDir : ∀ q, t.look (placeOf p) ≠ .found q .dir := by
    intro q same
    rw [look] at same
    split at same
    · next found =>
        cases same
        exact other found
    · cases same
  obtain ⟨parent, name, place, hparent, hname⟩ := h.exists_parent_of_follow target notDir
  rw [place_look] at place
  rw [place] at other ⊢
  exact h.set hparent hname (.inr other)

theorem removeTree (p : Path) : (t.removeTree p).2.Sound := by
  unfold FileTree.removeTree
  split
  · exact h
  · exact h
  · exact h
  · next place _ =>
      have emptied : (t.eraseWhere (isBelow place)).Sound := by
        refine h.eraseWhere fun dir name below _ => ?_
        simp only [isBelow, Bool.and_eq_true, List.isPrefixOf_iff_prefix,
          decide_eq_true_eq] at below ⊢
        refine ⟨below.1.trans (List.prefix_append dir [name]), ?_⟩
        rintro rfl
        exact absurd below.1.length_le (by simp)
      have removed : ((t.eraseWhere (isBelow place)).eraseWhere (· = place)).Sound := by
        refine emptied.eraseWhere fun dir name same there => absurd ?_ there
        rw [get?_eraseWhere _ _ (by simp), if_pos]
        simp [isBelow, show dir = place by simpa using same]
      dsimp only
      split
      · exact emptied
      · split
        · exact emptied
        · exact removed

end Sound

end FileTree

/-- The texts that a program writes leave a tree sound. -/
theorem FileTree.Sound.applyTo {t : FileTree} (h : t.Sound) (outcome : Tool.Outcome) :
    (outcome.applyTo t).Sound := by
  rw [Tool.Outcome.applyTo]
  induction outcome.writes generalizing t with
  | nil => exact h
  | cons file more ih => exact ih (h.settle fun _ => h.write)

namespace Plan

variable {α : Type}

/-- **A sound tree stays sound**, whatever a plan asks for. -/
theorem sound_runIn (p : Plan α) {w : Workspace} (h : w.files.Sound) :
    (p.runIn w).2.files.Sound := by
  induction p generalizing w with
  | done a => exact h
  | fail failure => exact h
  | ask r next ih =>
      refine ih _ ?_
      cases r with
      | makeDirs path => exact h.addDirsWithin _ path
      | write path text => exact h.settle fun _ => h.write
      | removeTree path => exact h.removeTree path
      | run program arguments =>
          show (Request.perform w (.run program arguments)).2.files.Sound
          unfold Request.perform
          dsimp only
          split
          · exact h.applyTo _
          · exact h
      | _ => exact h

end Plan

end Attestation
