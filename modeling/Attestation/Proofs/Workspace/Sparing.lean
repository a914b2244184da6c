import Attestation.Proofs.Workspace.Run

/-!
# Files that a run spares

What a plan leaves alone, however it ends: each request by itself, plans in sequence
(`sparesIn_bind`), and a plan for each member of a list (`sparesIn_foldlM`).

* `FileTree.Spares`: the files outside some places are still there.
* `Plan.SparesIn`: a run of a plan spares the files outside some places.

## Design notes

A run may fail at any request, and the files that it was not to touch must be there then, too.
`Plan.SparesIn` therefore says nothing about the result, and it starts from one workspace: which
places are at risk can depend on what has been read before.
-/

namespace Attestation

namespace FileTree

variable {t t' t'' : FileTree} {places : Set Place}

/-- Every file outside some places is still there, with the same content.  Other than
`ChangesOnly` it allows new files anywhere. -/
def Spares (t t' : FileTree) (places : Set Place) : Prop :=
  ∀ q content, q ∉ places → t.get? q = some (.file content) → t'.get? q = some (.file content)

theorem Spares.refl (t : FileTree) (places : Set Place) : Spares t t places := fun _ _ _ h => h

theorem Spares.trans (h : Spares t t' places) (h' : Spares t' t'' places) :
    Spares t t'' places :=
  fun q content hq found => h' q content hq (h q content hq found)

theorem ChangesOnly.spares (h : ChangesOnly t t' places) : Spares t t' places :=
  fun q content hq found => (h.elsewhere q content hq).mpr found

theorem spares_eraseWhere {gone : Place → Bool} (h : ∀ q content, gone q = true →
    t.get? q = some (.file content) → q ∈ places) :
    Spares t (t.eraseWhere gone) places := by
  intro q content hq found
  have hne : q ≠ [] := by
    rintro rfl
    cases found
  rw [get?_eraseWhere t gone hne, if_neg fun hgone => hq (h q content hgone found), found]

/-- A walk through directories arrives at one. -/
theorem get?_of_walk {dir q : Place} {names : List String} (inside : ∀ r, r <+: dir →
    t.get? r = some .dir)
    (h : t.walk dir names = .ok (.found q .dir)) : t.get? q = some .dir := by
  -- A parent step leads back to a directory that the walk has come through, so all fronts are
  -- kept in view.
  induction names generalizing dir with
  | nil =>
      cases h
      exact inside q (List.prefix_refl q)
  | cons name more ih =>
      by_cases here : name = "."
      · subst here
        exact ih inside h
      · by_cases up : name = ".."
        · subst up
          exact ih (fun r hr => inside r (hr.trans (List.dropLast_prefix dir))) h
        · rw [walk_name here up] at h
          split at h
          · next hdir =>
              refine ih (fun r hr => ?_) h
              rcases List.prefix_concat_iff.mp hr with rfl | hr
              · exact hdir
              · exact inside r hr
          · split at h <;> cases h
          · split at h <;> cases h

/-- A directory is removed with what lies below it, and nothing else, also when it is only
emptied. -/
theorem spares_removeTree {p : Path} (h : ∀ q, isBelow (placeOf p) q = true → q ∈ places) :
    Spares t (t.removeTree p).2 places := by
  unfold removeTree
  split
  · exact .refl _ _
  · exact .refl _ _
  · exact .refl _ _
  · next place target =>
      have walked := follow_eq_walk target
      obtain rfl : place = placeOf p := walk_place walked
      have emptied : Spares t (t.eraseWhere (isBelow (placeOf p))) places :=
        spares_eraseWhere fun q _ below _ => h q below
      have dir : t.get? (placeOf p) = some .dir := by
        refine get?_of_walk (fun r hr => ?_) walked
        rw [List.prefix_nil.mp hr, get?_root]
      dsimp only
      split
      · exact emptied
      · split
        · exact emptied
        · -- What is at the place itself is the directory, so no file goes with it.
          refine emptied.trans (spares_eraseWhere fun q content same found => ?_)
          obtain rfl : q = placeOf p := by simpa using same
          by_cases root : placeOf p = []
          · rw [root] at found
            cases found
          · rw [get?_eraseWhere _ _ root, dir] at found
            split at found <;> cases found

end FileTree

/-! ## Plans -/

namespace Plan

variable {α β : Type} {w : Workspace} {places : Set Place}

/-- A run spares the files outside some places, however it ends. -/
def SparesIn (p : Plan α) (w : Workspace) (places : Set Place) : Prop :=
  FileTree.Spares w.files (p.runIn w).2.files places

theorem KeepsFiles.sparesIn {p : Plan α} (h : p.KeepsFiles) : p.SparesIn w places := by
  rw [SparesIn, h w]
  exact .refl _ _

theorem sparesIn_bind {p : Plan α} {f : α → Plan β} (h : p.SparesIn w places)
    (hf : ∀ a v, p.runIn w = (.ok a, v) → (f a).SparesIn v places) :
    (p >>= f).SparesIn w places := by
  show FileTree.Spares w.files ((p.bind f).runIn w).2.files places
  rw [runIn_bind]
  unfold SparesIn at h hf
  cases hrun : p.runIn w with
  | mk result v =>
      rw [hrun] at h
      cases result with
      | error failure => exact h
      | ok a => exact h.trans (hf a v hrun)

theorem sparesIn_change {context : String} {operation : Except IoError Unit × FileTree}
    (h : FileTree.Spares w.files operation.2 places) :
    FileTree.Spares w.files ((checked context (w.change operation).1).runIn
      (w.change operation).2).2.files places := by
  rw [keepsFiles_checked context (w.change operation).1 (w.change operation).2]
  exact h

theorem sparesIn_makeDirs (context : String) (path : Path) :
    (makeDirs context path).SparesIn w places :=
  sparesIn_change fun q content _ found =>
  ((w.files.addsDirs_addDirs path).file_iff q content).mpr found

theorem sparesIn_write {context text : String} {path : Path}
    (h : FileTree.placeOf path ∈ places) :
    (write context path text).SparesIn w places := by
  refine sparesIn_change ?_
  cases written : w.files.write path text with
  | error e => exact .refl _ _
  | ok files =>
      have changes := FileTree.changesOnly_of_write (FileTree.AddsDirs.refl _) written
      exact (changes.mono (Set.singleton_subset_iff.mpr h)).spares

theorem sparesIn_removeTree {context : String} {path : Path}
    (h : ∀ q, FileTree.isBelow (FileTree.placeOf path) q = true → q ∈ places) :
    (removeTree context path).SparesIn w places :=
  sparesIn_change (FileTree.spares_removeTree h)

theorem sparesIn_writeGenerated {label text : String} {path : Path}
    (h : FileTree.placeOf path ∈ places) :
    (writeGenerated label path text).SparesIn w places := by
  have written : ∀ v, (do
      write s!"Failed to write {path.text}" path text
      printLine s!"✅ Generated {label} → {Text.quotedPath path.text}" :
      Plan Unit).SparesIn v places :=
    fun v => sparesIn_bind (sparesIn_write h) fun _ _ _ => (keepsFiles_print _).sparesIn
  unfold writeGenerated
  split
  · exact sparesIn_bind (sparesIn_makeDirs _ _) fun _ v _ => written v
  · exact written w

theorem sparesIn_foldlM {f : β → α → Plan β} {as : List α} (h : ∀ b a v, a ∈ as →
    (f b a).SparesIn v places) (b : β)
    (w : Workspace) : (as.foldlM f b).SparesIn w places := by
  induction as generalizing b w with
  | nil => exact (keepsFiles_pure b).sparesIn
  | cons a as ih =>
      refine sparesIn_bind (h b a w List.mem_cons_self) fun c v _ => ?_
      exact ih (fun b a v ha => h b a v (List.mem_cons_of_mem _ ha)) c v

end Plan

end Attestation
