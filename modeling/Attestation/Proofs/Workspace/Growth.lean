import Attestation.Proofs.Workspace.Direct
import Attestation.Proofs.Workspace.Requests

/-!
# Trees that grow

A plan that must not destroy anything asks first whether there is something, and writes only
where nothing is.  Along a direct path the answer can be relied on: a path leads to what is at
its place as soon as there is anything (`Direct.exists_iff`), so what is written takes the
place of nothing.

* `FileTree.Grows`: everything that was there is still there, as it was.
* `FileTree.Supplies`: what has been put to a place that was empty is a certain text.

## Design notes

A check that is made before a write only helps if both mean the same file.  For an indirect
path they need not, since the write makes directories through which the path leads on.  This is
why the careful plans are stated for direct paths, and why `Grows` and `Supplies` are kept
apart: the first holds along any sequence of such plans, and the second says what one of them
has added.
-/

namespace Attestation

namespace FileTree

variable {t t' t'' : FileTree} {p : Path} {q : Place} {s : String}

/-- Everything that was there is still there, as it was.  New files and directories may have
come. -/
def Grows (t t' : FileTree) : Prop := ∀ q n, t.get? q = some n → t'.get? q = some n

theorem Grows.refl (t : FileTree) : Grows t t := fun _ _ h => h

theorem Grows.trans (h : Grows t t') (h' : Grows t' t'') : Grows t t'' :=
  fun q n found => h' q n (h q n found)

theorem Grows.keepsDirs (h : Grows t t') : KeepsDirs t t' := fun q => h q .dir

theorem AddsDirs.grows (h : AddsDirs t t') : Grows t t' := by
  intro q n found
  rcases h q with same | ⟨nothing, -⟩
  · rw [same, found]
  · rw [found] at nothing
    cases nothing

/-- A file that is written where there was nothing but possibly a new directory. -/
theorem grows_of_write {made : FileTree} (added : AddsDirs t made)
    (free : t.get? (placeOf p) = none)
    (written : made.write p s = .ok t') : Grows t t' := by
  obtain ⟨-, hne, -, rfl⟩ := write_eq_set written
  intro q n found
  rw [get?_set made hne, if_neg, added.grows q n found]
  rintro rfl
  rw [free] at found
  cases found

/-! ## Paths to what is there -/

section Entry

variable {dir : Path} {name : String} (hname : IsEntryName name)
include hname

theorem exists_entry_of_walk (path : IsPath (dir.entry name))
    (walked : t.walk [] (pieces dir) = .ok (.found (placeOf dir) .dir)) :
    t.exists (dir.entry name) = true ↔ t.get? (placeOf dir ++ [name]) ≠ none := by
  rw [FileTree.exists, follow_entry_of_walk hname path walked, look]
  cases t.get? (placeOf dir ++ [name]) <;> simp

/-- What exists is found behind its directory. -/
theorem walked_of_exists (there : t.exists (dir.entry name) = true) :
    IsPath (dir.entry name) ∧ t.walk [] (pieces dir) = .ok (.found (placeOf dir) .dir) := by
  unfold FileTree.exists at there
  split at there
  · next target => exact ⟨isPath_of_follow target, (follow_entry hname target).1⟩
  · cases there

/-- **A direct path leads to what is at its place** as soon as there is anything. -/
theorem Direct.exists_iff (h : t.Direct dir) (sound : t.Sound)
    (path : IsPath (dir.entry name)) :
    t.exists (dir.entry name) = true ↔ t.get? (placeOf dir ++ [name]) ≠ none := by
  constructor
  · intro there
    exact (exists_entry_of_walk hname path (walked_of_exists hname there).2).mp there
  · intro there
    exact (exists_entry_of_walk hname path (h.walk sound (sound.parent _ _ there))).mpr there

theorem Grows.exists_entry (h : Grows t t') (there : t.exists (dir.entry name) = true) :
    t'.exists (dir.entry name) = true := by
  obtain ⟨path, walked⟩ := walked_of_exists hname there
  obtain ⟨n, found⟩ := Option.ne_none_iff_exists'.mp
    ((exists_entry_of_walk hname path walked).mp there)
  refine (exists_entry_of_walk hname path (h.keepsDirs.walk walked)).mpr ?_
  rw [h _ n found]
  exact Option.some_ne_none n

end Entry

/-! ## Places that are supplied -/

/-- If there was nothing at the place, then there still is nothing, or a file with the text.
With `Grows` this says what is at the place in each case. -/
def Supplies (t t' : FileTree) (q : Place) (s : String) : Prop :=
  t.get? q = none → t'.get? q = none ∨ t'.get? q = some (.file (.text s))

theorem Supplies.refl (t : FileTree) (q : Place) (s : String) : Supplies t t q s := .inl

theorem Supplies.trans (h : Supplies t t' q s) (h' : Supplies t' t'' q s)
    (grows : Grows t' t'') : Supplies t t'' q s := by
  intro nothing
  rcases h nothing with still | supplied
  · exact h' still
  · exact .inr (grows q _ supplied)

end FileTree

/-! ## Plans -/

namespace Plan

open FileTree

variable {α β : Type} {w : Workspace}

/-- The files that a run leaves behind, however it ends. -/
def leaves (p : Plan α) (w : Workspace) : FileTree := (p.runIn w).2.files

theorem leaves_of_run {p : Plan α} {w' : Workspace} {result : Except Failure α}
    (run : p.runIn w = (result, w')) :
    p.leaves w = w'.files := by rw [leaves, run]

theorem leaves_congr {p q : Plan α} {w' : Workspace} (same : p.runIn w = q.runIn w') :
    p.leaves w = q.leaves w' := by
  rw [leaves, same, leaves]

/-- What a run shows tells how it ends and what it leaves. -/
theorem eq_of_visible_eq {p : Plan α} {result : Except Failure α} {files : FileTree}
    {output : String}
    (shown : p.visible w = (result, files, output)) :
    (p.runIn w).1 = result ∧ p.leaves w = files :=
  ⟨congrArg (·.1) shown, congrArg (·.2.1) shown⟩

theorem congr_of_visible_eq {p q : Plan α} {w' : Workspace}
    (same : p.visible w = q.visible w') :
    (p.runIn w).1 = (q.runIn w').1 ∧ p.leaves w = q.leaves w' :=
  eq_of_visible_eq same

theorem KeepsFiles.leaves_eq {p : Plan α} (h : p.KeepsFiles) (w : Workspace) :
    p.leaves w = w.files := h w

/-- Behind plans in sequence are the files behind the first one, or those behind the second one
after it. -/
theorem leaves_bind_induction (inv : FileTree → Prop) {p : Plan α} {f : α → Plan β}
    (first : inv (p.leaves w))
    (second : ∀ a v, p.runIn w = (.ok a, v) → inv v.files → inv ((f a).leaves v)) :
    inv ((p >>= f).leaves w) := by
  show inv ((p.bind f).runIn w).2.files
  rw [runIn_bind]
  cases run : p.runIn w with
  | mk result v =>
      rw [leaves_of_run run] at first
      cases result with
      | ok a => exact second a v run first
      | error failure => exact first

/-- What each step preserves however it ends, a plan for each member of a list preserves. -/
theorem leaves_forM_induction (inv : FileTree → Prop) {f : α → Plan Unit} {as : List α}
    (step : ∀ a ∈ as, ∀ v : Workspace, inv v.files → inv ((f a).leaves v))
    (start : inv w.files) :
    inv ((as.forM f).leaves w) := by
  induction as generalizing w with
  | nil => exact start
  | cons a as ih =>
      refine leaves_bind_induction inv (step a List.mem_cons_self w start) fun _ v _ hv => ?_
      exact ih (fun b hb => step b (List.mem_cons_of_mem a hb)) hv

/-- When a plan for each member of a list ends well, then so has each plan, and what it has led
to has lasted. -/
theorem forM_runIn_ok (inv : FileTree → Prop) (post : α → FileTree → Prop) {f : α → Plan Unit}
    {as : List α}
    {w' : Workspace} (keeps : ∀ a ∈ as, ∀ v : Workspace, inv v.files → inv ((f a).leaves v))
    (step : ∀ a ∈ as, ∀ v v', inv v.files → (f a).runIn v = (.ok (), v') → post a v'.files)
    (lasts : ∀ a ∈ as, ∀ b ∈ as, ∀ v : Workspace, inv v.files → post a v.files →
      post a ((f b).leaves v))
    (start : inv w.files) (run : (as.forM f).runIn w = (.ok (), w')) :
    ∀ a ∈ as, post a w'.files := by
  induction as generalizing w with
  | nil => nofun
  | cons a as ih =>
      obtain ⟨⟨⟩, v, first, rest⟩ := runIn_bind_ok_iff (p := f a).mp run
      have later := keeps a List.mem_cons_self w start
      rw [leaves_of_run first] at later
      have behind : ∀ b ∈ as, b ∈ a :: as := fun b hb => List.mem_cons_of_mem a hb
      intro b hb
      rcases List.mem_cons.mp hb with rfl | hb
      · have kept := @leaves_forM_induction _ v (fun files => inv files ∧ post b files) f as
          (fun c hc v hv =>
            ⟨keeps c (behind c hc) v hv.1,
              lasts b List.mem_cons_self c (behind c hc) v hv.1 hv.2⟩)
          ⟨later, step b List.mem_cons_self w v start first⟩
        rw [leaves_of_run rest] at kept
        exact kept.2
      · exact ih (fun c hc => keeps c (behind c hc)) (fun c hc => step c (behind c hc))
          (fun c hc d hd => lasts c (behind c hc) d (behind d hd)) later rest b hb

theorem leaves_change (context : String) (operation : Except IoError Unit × FileTree) :
    ((checked context (w.change operation).1).runIn (w.change operation).2).2.files
      = operation.2 :=
  keepsFiles_checked context (w.change operation).1 (w.change operation).2

theorem leaves_makeDirs (context : String) (path : Path) (w : Workspace) :
    (makeDirs context path).leaves w = (w.files.addDirs path).2 := leaves_change context _

theorem leaves_write (context : String) (path : Path) (text : String) (w : Workspace) :
    (write context path text).leaves w = (w.files.settle (w.files.write path text)).2 :=
  leaves_change context _

/-- A file is written or not, whatever else is shown then. -/
theorem leaves_write_bind {context text : String} {path : Path} {next : Unit → Plan α}
    (keeps : ∀ u, (next u).KeepsFiles) :
    (write context path text >>= next).leaves w = w.files ∨
      w.files.write path text = .ok ((write context path text >>= next).leaves w) := by
  refine leaves_bind_induction (fun after => after = w.files ∨
    w.files.write path text = .ok after) ?_ fun u v _ hv => ?_
  · rw [leaves_write]
    cases w.files.write path text with
    | error e => exact .inl rfl
    | ok after => exact .inr rfl
  · rwa [(keeps u).leaves_eq v]

/-- What is behind a generated file, however the run ends: perhaps directories have been made,
and perhaps then the file has been written. -/
theorem exists_leaves_writeGenerated (label text : String) (path : Path) (w : Workspace) :
    ∃ made, (made = w.files ∨ ∃ dir, path.parent = some dir ∧ made = (w.files.addDirs dir).2) ∧
      ((writeGenerated label path text).leaves w = made ∨
        made.write path text = .ok ((writeGenerated label path text).leaves w)) := by
  unfold writeGenerated
  cases path.parent with
  | none => exact ⟨w.files, .inl rfl, leaves_write_bind fun _ => keepsFiles_print _⟩
  | some dir =>
      refine ⟨_, .inr ⟨dir, rfl, rfl⟩, ?_⟩
      have made := leaves_makeDirs s!"Failed to create directory {dir.text}" dir w
      refine leaves_bind_induction (fun after => after = (w.files.addDirs dir).2 ∨
        (w.files.addDirs dir).2.write path text = .ok after) (.inl made) fun _ v run _ => ?_
      rw [← made, leaves_of_run run]
      exact leaves_write_bind fun _ => keepsFiles_print _

/-- **What did not exist is written where nothing was**, and else nothing but directories above
it is made. -/
theorem careful_writeGenerated (label text : String) {dir : Path} {name : String}
    (hname : IsEntryName name)
    (direct : w.files.Direct dir) (sound : w.files.Sound)
    (absent : w.files.exists (dir.entry name) = false) :
    Grows w.files ((writeGenerated label (dir.entry name) text).leaves w) ∧
      ∀ q, w.files.get? q = none → ¬ q <+: placeOf dir →
        ((writeGenerated label (dir.entry name) text).leaves w).get? q = none ∨
        q = placeOf dir ++ [name] ∧
          ((writeGenerated label (dir.entry name) text).leaves w).get? q
            = some (.file (.text text)) := by
  have place := placeOf_entry hname dir
  have free : IsPath (dir.entry name) → w.files.get? (placeOf (dir.entry name)) = none := by
    intro path
    by_contra taken
    rw [place] at taken
    rw [(direct.exists_iff hname sound path).mpr taken] at absent
    cases absent
  obtain ⟨made, how, written⟩ := exists_leaves_writeGenerated label text (dir.entry name) w
  have added : AddsDirs w.files made := by
    obtain rfl | ⟨parent, -, rfl⟩ := how
    · exact .refl _
    · exact addsDirs_addDirs _ _
  constructor
  · rcases written with same | written
    · rw [same]
      exact added.grows
    · exact grows_of_write added (free (isPath_of_follow (write_eq_set written).1)) written
  · intro q nothing elsewhere
    -- Only directories on the way to the file have been made.
    have still : made.get? q = none := by
      by_contra taken
      obtain rfl | ⟨parent, isParent, rfl⟩ := how
      · exact taken nothing
      · exact elsewhere (direct.prefix_of_addDirs_parent hname isParent nothing taken)
    rcases written with same | written
    · exact .inl (same ▸ still)
    · obtain ⟨-, hne, -, after⟩ := write_eq_set written
      rw [after, get?_set _ hne, place]
      split
      · next here => exact .inr ⟨here, rfl⟩
      · exact .inl still

end Plan

end Attestation
