import Attestation.Proofs.Workspace.FileTree
import Attestation.Workspace.Generated
import Attestation.Workspace.Listing
import Attestation.Workspace.Run

/-!
# Runs that end well

What a run has done to the files when its plan ends with a value: each request by itself, plans
in sequence (`runIn_bind_ok_iff`), and a plan for each member of a list
(`foldlM_runIn_induction`).

* `Plan.KeepsFiles`: plans that only look at files.
* `Plan.ChangesOnly`: plans that change no files but those at some places.
* `Plan.Demands`: plans that make some request on every way that ends well.

## Design notes

Plans are trees of requests, and opening one leads to all the answers that it may get.  So a
program is never opened in a proof: each request has a lemma that says what a good end of it
means, and `runIn_bind_ok_iff` takes a sequence apart at its steps.  A frame is proved in the
same way, and for every end where that is true (`KeepsFiles`), or for good ends only
(`ChangesOnly`).
-/

namespace Attestation.Plan

variable {α β : Type} {w w' : Workspace}

/-- A sequence of plans ends well exactly when both do, one after the other. -/
theorem runIn_bind_ok_iff {p : Plan α} {f : α → Plan β} {b : β} :
    (p >>= f).runIn w = (.ok b, w') ↔
    ∃ a v, p.runIn w = (.ok a, v) ∧ (f a).runIn v = (.ok b, w') := by
  show (p.bind f).runIn w = _ ↔ _
  rw [runIn_bind]
  constructor
  · intro h
    split at h
    · next a v first => exact ⟨a, v, first, h⟩
    · cases h
  · rintro ⟨a, v, first, h⟩
    rw [first]
    exact h

theorem runIn_bind_of_ok {p : Plan α} {f : α → Plan β} {a : α} (h : p.runIn w = (.ok a, w')) :
    (p >>= f).runIn w = (f a).runIn w' := by
  show (p.bind f).runIn w = _
  rw [runIn_bind, h]

theorem exists_runIn_ok {p : Plan α} {a : α} (h : (p.runIn w).1 = .ok a) :
    ∃ v, p.runIn w = (.ok a, v) :=
  ⟨(p.runIn w).2, Prod.ext h rfl⟩

theorem runIn_pure_ok_iff {a b : α} : (pure a : Plan α).runIn w = (.ok b, w') ↔
    a = b ∧ w = w' := by
  show ((Except.ok a : Except Failure α), w) = _ ↔ _
  rw [Prod.mk.injEq, Except.ok.injEq]

theorem runIn_ofExcept_ok_iff {result : Except Failure α} {a : α} :
    (ofExcept result).runIn w = (.ok a, w') ↔ result = .ok a ∧ w = w' := by
  cases result with
  | ok b =>
      show ((Except.ok b : Except Failure α), w) = _ ↔ _
      rw [Prod.mk.injEq]
  | error failure =>
      show ((Except.error failure : Except Failure α), w) = _ ↔ _
      rw [Prod.mk.injEq]

/-- What a plan makes of the answer to a file operation. -/
theorem runIn_checked (context : String) (answer : Except IoError α) (v : Workspace) {a : α} :
    (checked context answer).runIn v = (.ok a, w') ↔ answer = .ok a ∧ v = w' := by
  cases answer with
  | ok b =>
      show ((Except.ok b : Except Failure α), v) = _ ↔ _
      rw [Prod.mk.injEq, Except.ok.injEq, Except.ok.injEq]
  | error e =>
      show ((Except.error _ : Except Failure α), v) = _ ↔ _
      rw [Prod.mk.injEq]
      constructor <;> rintro ⟨⟨⟩, -⟩

/-! ## Requests -/

section Requests

variable {context : String} {path : Path}

theorem runIn_exists_ok_iff {there : Bool} :
    (Plan.exists path).runIn w = (.ok there, w') ↔ w.files.exists path = there ∧ w = w' := by
  show ((Except.ok (w.files.exists path) : Except Failure Bool), w) = _ ↔ _
  rw [Prod.mk.injEq, Except.ok.injEq]

theorem runIn_readText_ok_iff {s : String} :
    (readText context path).runIn w = (.ok s, w') ↔ w.files.readText path = .ok s ∧ w = w' :=
  runIn_checked context _ w

theorem runIn_list_ok_iff {entries : List DirEntry} :
    (list context path).runIn w = (.ok entries, w') ↔
    w.files.list path = .ok entries ∧ w = w' :=
  runIn_checked context _ w

/-- A change of the files that is checked. -/
theorem runIn_change_ok_iff {operation : Except IoError Unit × FileTree} {u : Unit} :
    (checked context (w.change operation).1).runIn (w.change operation).2 = (.ok u, w') ↔
      operation.1 = .ok u ∧ { w with files := operation.2 } = w' :=
  runIn_checked context _ _

theorem runIn_makeDirs_ok {u : Unit} (h : (makeDirs context path).runIn w = (.ok u, w')) :
    w.files.makeDirs path = .ok w'.files := by
  obtain ⟨made, rfl⟩ := runIn_change_ok_iff.mp h
  exact FileTree.addDirs_eq_ok_iff.mp (Prod.ext made rfl)

theorem runIn_write_ok {text : String} {u : Unit}
    (h : (write context path text).runIn w = (.ok u, w')) :
    w.files.write path text = .ok w'.files := by
  obtain ⟨made, rfl⟩ := runIn_change_ok_iff.mp h
  exact FileTree.settle_eq_ok_iff.mp (Prod.ext (made : _ = Except.ok ()) rfl)

theorem runIn_makeDirs {after : FileTree} (h : w.files.makeDirs path = .ok after) :
    (makeDirs context path).runIn w = (.ok (), { w with files := after }) := by
  have made := FileTree.addDirs_eq_ok_iff.mpr h
  exact runIn_change_ok_iff.mpr ⟨congrArg Prod.fst made, by rw [made]⟩

theorem runIn_write {text : String} {after : FileTree}
    (h : w.files.write path text = .ok after) :
    (write context path text).runIn w = (.ok (), { w with files := after }) :=
  runIn_change_ok_iff.mpr (by simp [h, FileTree.settle])

theorem runIn_removeTree_ok {u : Unit} (h : (removeTree context path).runIn w = (.ok u, w')) :
    w.files.removeTree path = (.ok (), w'.files) := by
  obtain ⟨made, rfl⟩ := runIn_change_ok_iff.mp h
  exact Prod.ext made rfl

end Requests

/-! ## A plan for each member of a list -/

/-- What each step preserves, a whole run preserves. -/
theorem foldlM_runIn_induction {f : β → α → Plan β} {as : List α}
    (inv : List α → β → Workspace → Prop)
    (step : ∀ done a b b' v v', a ∈ as → inv done b v → (f b a).runIn v = (.ok b', v') →
      inv (done ++ [a]) b' v')
    {b b' : β} (start : inv [] b w) (h : (as.foldlM f b).runIn w = (.ok b', w')) :
    inv as b' w' := by
  have run : ∀ (more done : List α) (b : β) (w : Workspace), (∀ a ∈ more, a ∈ as) →
    inv done b w →
      (more.foldlM f b).runIn w = (.ok b', w') → inv (done ++ more) b' w' := by
    intro more
    induction more with
    | nil =>
        intro done b w _ hinv h
        obtain ⟨rfl, rfl⟩ := runIn_pure_ok_iff.mp h
        rwa [List.append_nil]
    | cons a more ih =>
        intro done b w hmem hinv h
        obtain ⟨c, v, first, h⟩ := runIn_bind_ok_iff.mp h
        rw [List.append_cons]
        exact ih _ c v (fun x hx => hmem x (List.mem_cons_of_mem _ hx))
          (step done a b c w v (hmem a List.mem_cons_self) hinv first) h
  exact run as [] b w (fun _ ha => ha) start h

/-! ## Plans that only look -/

/-- The plan leaves the files as they are. -/
def KeepsFiles (p : Plan α) : Prop := ∀ w, (p.runIn w).2.files = w.files

theorem KeepsFiles.files_eq {p : Plan α} (h : p.KeepsFiles) {result : Except Failure α}
    (run : p.runIn w = (result, w')) : w'.files = w.files := by
  rw [← h w, run]

theorem keepsFiles_bind {p : Plan α} {f : α → Plan β} (h : p.KeepsFiles)
    (hf : ∀ a, (f a).KeepsFiles) :
    (p >>= f).KeepsFiles := by
  intro w
  show ((p.bind f).runIn w).2.files = _
  rw [runIn_bind]
  split
  · next a v first => rw [hf a v, h.files_eq first]
  · next failure v first => exact h.files_eq first

theorem keepsFiles_pure (a : α) : (pure a : Plan α).KeepsFiles := fun _ => rfl

theorem keepsFiles_fail (failure : Failure) : (fail failure : Plan α).KeepsFiles :=
  fun _ => rfl

theorem keepsFiles_ofExcept (result : Except Failure α) : (ofExcept result).KeepsFiles := by
  cases result <;> exact fun _ => rfl

theorem keepsFiles_checked (context : String) (answer : Except IoError α) :
    (checked context answer).KeepsFiles := by
  cases answer <;> exact fun _ => rfl

theorem keepsFiles_print (text : String) : (print text).KeepsFiles := fun _ => rfl

theorem keepsFiles_log (event : Log.Event) : (log event).KeepsFiles := fun _ => rfl

theorem keepsFiles_exists (path : Path) : (Plan.exists path).KeepsFiles := fun _ => rfl

theorem keepsFiles_readText (context : String) (path : Path) :
    (readText context path).KeepsFiles :=
  fun w => keepsFiles_checked context (w.files.readText path) w

theorem keepsFiles_list (context : String) (path : Path) : (list context path).KeepsFiles :=
  fun w => keepsFiles_checked context (w.files.list path) w

theorem keepsFiles_filesEnding (ending : String) (dir : Path) :
    (filesEnding ending dir).KeepsFiles :=
  keepsFiles_bind (keepsFiles_list _ _) fun _ => keepsFiles_pure _

theorem keepsFiles_foldlM {f : β → α → Plan β} (h : ∀ b a, (f b a).KeepsFiles) (as : List α)
    (b : β) :
    (as.foldlM f b).KeepsFiles := by
  induction as generalizing b with
  | nil => exact keepsFiles_pure b
  | cons a as ih => exact keepsFiles_bind (h b a) fun c => ih c

theorem keepsFiles_logAll (events : List Log.Event) : (logAll events).KeepsFiles := by
  induction events with
  | nil => exact keepsFiles_pure _
  | cons event more ih => exact keepsFiles_bind (keepsFiles_log event) fun _ => ih

/-! ## Listings -/

theorem mem_fileNames_iff {ending file : String} {entries : List DirEntry} :
    file ∈ fileNames ending entries ↔
      ⟨file, true⟩ ∈ entries ∧ (Text.dropEndString? ending file).isSome = true := by
  rw [fileNames, (sortedNames_perm _).mem_iff]
  constructor
  · intro h
    obtain ⟨⟨name, isFile⟩, hmem, rfl⟩ := List.mem_map.mp h
    obtain ⟨hmem, kept⟩ := List.mem_filter.mp hmem
    simp only [Bool.and_eq_true] at kept
    obtain ⟨rfl, ends⟩ := kept
    exact ⟨hmem, ends⟩
  · rintro ⟨hmem, ends⟩
    exact List.mem_map.mpr ⟨⟨file, true⟩, List.mem_filter.mpr ⟨hmem, by simp [ends]⟩, rfl⟩

/-- The files that are listed are the files of the directory that have the ending. -/
theorem mem_fileNames_entriesAt_iff {t : FileTree} {p : Place} {ending file : String} :
    file ∈ fileNames ending (t.entriesAt p) ↔
      (∃ content, t.get? (p ++ [file]) = some (.file content)) ∧
      (Text.dropEndString? ending file).isSome = true := by
  rw [mem_fileNames_iff, FileTree.mem_entriesAt_iff]
  refine and_congr_left fun _ => ?_
  constructor
  · rintro ⟨n, found, isFile⟩
    cases n with
    | dir => simp at isFile
    | file content => exact ⟨content, found⟩
  · rintro ⟨content, found⟩
    exact ⟨_, found, rfl⟩

theorem runIn_filesEnding_ok {ending : String} {dir : Path} {files : List String}
    (h : (filesEnding ending dir).runIn w = (.ok files, w')) :
    files = fileNames ending (w.files.entriesAt (FileTree.placeOf dir)) := by
  obtain ⟨entries, v, listed, h⟩ := runIn_bind_ok_iff.mp h
  obtain ⟨rfl, -⟩ := runIn_pure_ok_iff.mp h
  rw [FileTree.list_eq_entriesAt (runIn_list_ok_iff.mp listed).1]

/-- A directory that a path leads to is listed. -/
theorem runIn_filesEnding {dir : Path} (ending : String) (path : FileTree.IsPath dir)
    (walked : w.files.walk [] (FileTree.pieces dir)
      = .ok (.found (FileTree.placeOf dir) .dir)) :
    (filesEnding ending dir).runIn w
      = (.ok (fileNames ending (w.files.entriesAt (FileTree.placeOf dir))), w) :=
  runIn_bind_ok_iff.mpr ⟨_, w,
    runIn_list_ok_iff.mpr ⟨FileTree.list_of_walk path walked, rfl⟩, rfl⟩

/-! ## Generated files -/

/-- A generated file is written where its directory can be made and the file can be written. -/
theorem exists_runIn_writeGenerated {label text : String} {path dir : Path}
    {between after : FileTree}
    (parent : path.parent = some dir) (made : w.files.makeDirs dir = .ok between)
    (written : between.write path text = .ok after) :
    ∃ w', (writeGenerated label path text).runIn w = (.ok (), w') ∧ w'.files = after := by
  have steps : (writeGenerated label path text).runIn w
      = (.ok (), { w with
          files := after
          output := w.output ++ (s!"✅ Generated {label} → {Text.quotedPath path.text}" ++ "\n")
            }) := by
    unfold writeGenerated
    rw [parent]
    exact (runIn_bind_of_ok (runIn_makeDirs made)).trans
      ((runIn_bind_of_ok (runIn_write (w := { w with files := between }) written)).trans rfl)
  exact ⟨_, steps, rfl⟩

/-- A generated file is written where its directory is there. -/
theorem exists_runIn_writeGenerated_of_accepts (label text : String) {path : Path}
    (h : w.files.Accepts path) :
    ∃ w', (writeGenerated label path text).runIn w = (.ok (), w') ∧
      w'.files = w.files.set (FileTree.placeOf path) (.file (.text text)) := by
  have written := h.write text
  obtain ⟨dir, name, rfl, takes⟩ := h
  exact exists_runIn_writeGenerated takes.parent takes.makeDirs written

/-- A text is written where the tree takes it. -/
theorem exists_runIn_write (context : String) {text : String} {path : Path} {after : FileTree}
    (written : w.files.write path text = .ok after) :
    ∃ w', (write context path text).runIn w = (.ok (), w') ∧ w'.files = after :=
  ⟨_, runIn_write written, rfl⟩

/-- A file that is generated is written where directories have been made. -/
theorem runIn_writeGenerated_ok {label text : String} {path : Path} {u : Unit}
    (h : (writeGenerated label path text).runIn w = (.ok u, w')) :
    ∃ files, FileTree.AddsDirs w.files files ∧ files.write path text = .ok w'.files := by
  have written : ∀ {v : Workspace}, (do
      write s!"Failed to write {path.text}" path text
      printLine s!"✅ Generated {label} → {Text.quotedPath path.text}" : Plan Unit).runIn v
        = (.ok u, w') →
      v.files.write path text = .ok w'.files := by
    intro v h
    obtain ⟨_, v', first, last⟩ := runIn_bind_ok_iff.mp h
    rw [(keepsFiles_print _).files_eq last]
    exact runIn_write_ok first
  unfold writeGenerated at h
  cases parent : path.parent with
  | none =>
      rw [parent] at h
      exact ⟨w.files, FileTree.AddsDirs.refl _, written h⟩
  | some dir =>
      rw [parent] at h
      obtain ⟨_, v, made, h⟩ := runIn_bind_ok_iff (p := makeDirs _ dir).mp h
      exact ⟨v.files, FileTree.addsDirs_makeDirs (runIn_makeDirs_ok made), written h⟩

theorem writes_of_runIn {label text : String} {dir : Path} {name : String} {u : Unit}
    (hname : FileTree.IsEntryName name)
    (h : (writeGenerated label (dir.entry name) text).runIn w = (.ok u, w')) :
    FileTree.Writes w.files w'.files dir name text := by
  obtain ⟨files, added, written⟩ := runIn_writeGenerated_ok h
  exact FileTree.writes_of_write hname added written

/-! ## Plans that change some files -/

/-- When the plan ends well, no file has changed but those at some places.  A plan that fails
may have written some of them. -/
def ChangesOnly (p : Plan α) (places : Set Place) : Prop :=
  ∀ w a w', p.runIn w = (.ok a, w') → FileTree.ChangesOnly w.files w'.files places

variable {places : Set Place}

theorem KeepsFiles.changesOnly {p : Plan α} (h : p.KeepsFiles) : p.ChangesOnly places := by
  intro w a w' run
  rw [h.files_eq run]
  exact FileTree.ChangesOnly.refl _ _

theorem changesOnly_bind {p : Plan α} {f : α → Plan β} (h : p.ChangesOnly places)
    (hf : ∀ a, (f a).ChangesOnly places) : (p >>= f).ChangesOnly places := by
  intro w b w' run
  obtain ⟨a, v, first, run⟩ := runIn_bind_ok_iff.mp run
  exact (h w a v first).trans (hf a v b w' run)

theorem changesOnly_writeGenerated {label text : String} {path : Path}
    (h : FileTree.placeOf path ∈ places) :
    (writeGenerated label path text).ChangesOnly places := by
  intro w u w' run
  obtain ⟨files, added, written⟩ := runIn_writeGenerated_ok run
  exact (FileTree.changesOnly_of_write added written).mono (Set.singleton_subset_iff.mpr h)

/-! ## Requests that every run makes -/

/-- Every way through the plan that ends well makes a request of some kind.  The answers may be
any, so this is said of the plan and of no run. -/
inductive Demands (kind : Request → Prop) : Plan α → Prop where
  | fail (failure : Failure) : Demands kind (.fail failure)
  | made {r : Request} (next : r.Answer → Plan α) (h : kind r) : Demands kind (.ask r next)
  | later {r : Request} {next : r.Answer → Plan α} (h : ∀ answer, Demands kind (next answer)) :
      Demands kind (.ask r next)

section Demands

variable {kind : Request → Prop} {p : Plan α} {f : α → Plan β}

theorem demands_bind (h : ∀ a, (f a).Demands kind) : (p >>= f).Demands kind := by
  show (p.bind f).Demands kind
  induction p with
  | done a => exact h a
  | fail failure => exact .fail failure
  | ask r next ih => exact .later ih

theorem Demands.bind (h : p.Demands kind) : (p >>= f).Demands kind := by
  show (p.bind f).Demands kind
  induction h with
  | fail failure => exact .fail failure
  | made next h => exact .made _ h
  | later _ ih => exact .later ih

theorem demands_ofExcept {result : Except Failure α} (h : ∀ a, result = .ok a →
    (f a).Demands kind) :
    (ofExcept result >>= f).Demands kind := by
  cases result with
  | ok a => exact h a rfl
  | error failure => exact .fail failure

theorem demands_writeGenerated {label text : String} {path : Path}
    (h : kind (.write path text)) :
    (writeGenerated label path text).Demands kind := by
  have written : (write s!"Failed to write {path.text}" path text).Demands kind := .made _ h
  unfold writeGenerated
  split
  · exact demands_bind fun _ => written.bind
  · exact written.bind

end Demands

end Attestation.Plan
