import Attestation.Proofs.Path.Joining
import Attestation.Proofs.Workspace.Run

/-!
# Runs in a working directory

A plan names files by paths, and those that are relative are seen from the working directory.
A run in a file tree that holds the working directory is a run of the plan with its paths
behind that of the working directory, and what it writes is read off its requests.

* `Path.seenFrom`, `Plan.seenFrom`: a path and a plan behind the working directory.
* `Plan.writes`: the files that a run writes, with their texts.
* `FileTree.Fills`: files have been written to some places, and the other files are as before.
* `Plan.Fills`: plans that write known texts to known places.

## Design notes

Plans do not know where they are run.  What is written through a relative path is therefore
stated for the plan with all its paths moved behind the working directory, and the texts are
those of the plan itself.  `Fills` names all places that have changed, which is what two runs
in a row need from the first one.
-/

namespace Attestation

open FileTree

/-- The path as the file system takes it. The empty path names nothing, wherever it is seen
from. -/
def Path.seenFrom (p here : Path) : Path := if p.text.isEmpty then p else here.join p

theorem Path.placeOf_seenFrom (here : Path) {p : Path} (h : p.text ≠ "") :
    placeOf (p.seenFrom here) = Path.names here p := by
  rw [names_eq_climb, seenFrom, if_neg (by simpa using h)]

/-- What a request writes to a file. -/
def Request.written : Request → List (Path × String)
  | .write path text => [(path, text)]
  | _ => []

namespace FileTree

variable {t t' t'' : FileTree} {places places' : Set Place}

/-- Each of the places has been given a file, the other files are as before, and no file is
gone. -/
structure Fills (t t' : FileTree) (places : Set Place) :
    Prop extends ChangesOnly t t' places where
  file : ∀ q ∈ places, ∃ content, t'.get? q = some (.file content)
  stays : ∀ q content, t.get? q = some (.file content) →
  ∃ content', t'.get? q = some (.file content')

theorem fills_of_addsDirs (h : AddsDirs t t') : Fills t t' ∅ where
  keepsDirs := h.keepsDirs
  elsewhere q content _ := h.file_iff q content
  file _ h := absurd h (Set.notMem_empty _)
  stays q content found := ⟨content, (h.file_iff q content).mpr found⟩

theorem Fills.refl (t : FileTree) : Fills t t ∅ := fills_of_addsDirs (.refl t)

theorem Fills.trans (h : Fills t t' places) (h' : Fills t' t'' places') :
    Fills t t'' (places ∪ places') where
  toChangesOnly := (h.toChangesOnly.mono Set.subset_union_left).trans
    (h'.toChangesOnly.mono Set.subset_union_right)
  file q hq := by
    rcases hq with hq | hq
    · obtain ⟨content, found⟩ := h.file q hq
      exact h'.stays q content found
    · exact h'.file q hq
  stays q content found := by
    obtain ⟨content', found'⟩ := h.stays q content found
    exact h'.stays q content' found'

theorem fills_of_write {between : FileTree} {p : Path} {s : String}
    (added : AddsDirs t between)
    (h : between.write p s = .ok t') : Fills t t' {placeOf p} := by
  have changes := changesOnly_of_write added h
  obtain ⟨-, hne, -, rfl⟩ := write_eq_set h
  have here : (between.set (placeOf p) (.file (.text s))).get? (placeOf p)
      = some (.file (.text s)) := by
    rw [get?_set _ hne, if_pos rfl]
  refine ⟨changes, ?_, fun q content found => ?_⟩
  · rintro q rfl
    exact ⟨_, here⟩
  · by_cases same : q = placeOf p
    · subst same
      exact ⟨_, here⟩
    · exact ⟨content, (changes.elsewhere q content same).mpr found⟩

end FileTree

namespace Plan

variable {α β : Type} {w w' : Workspace}

/-! ## Plans behind a working directory -/

/-- The plan with its paths seen from the working directory. -/
def seenFrom (here : Path) : Plan α → Plan α
  | .done a => .done a
  | .fail failure => .fail failure
  | .ask (.exists path) next =>
      .ask (.exists (path.seenFrom here)) fun answer => (next answer).seenFrom here
  | .ask (.readText path) next =>
      .ask (.readText (path.seenFrom here)) fun answer => (next answer).seenFrom here
  | .ask (.list path) next =>
      .ask (.list (path.seenFrom here)) fun answer => (next answer).seenFrom here
  | .ask (.makeDirs path) next =>
      .ask (.makeDirs (path.seenFrom here)) fun answer => (next answer).seenFrom here
  | .ask (.write path text) next =>
      .ask (.write (path.seenFrom here) text) fun answer => (next answer).seenFrom here
  | .ask (.removeTree path) next =>
      .ask (.removeTree (path.seenFrom here)) fun answer => (next answer).seenFrom here
  | .ask (.run program arguments) next =>
      .ask (.run program arguments) fun answer => (next answer).seenFrom here
  | .ask (.print text) next => .ask (.print text) fun answer => (next answer).seenFrom here
  | .ask (.log event) next => .ask (.log event) fun answer => (next answer).seenFrom here

variable (here : Path)

@[simp]
theorem seenFrom_pure (a : α) : (pure a : Plan α).seenFrom here = pure a := rfl

@[simp]
theorem seenFrom_bind (p : Plan α) (f : α → Plan β) :
    (p >>= f).seenFrom here = p.seenFrom here >>= fun a => (f a).seenFrom here := by
  show (p.bind f).seenFrom here = (p.seenFrom here).bind fun a => (f a).seenFrom here
  induction p with
  | done a => rfl
  | fail failure => rfl
  | ask r next ih => cases r <;> exact congrArg (Plan.ask _) (funext ih)

@[simp]
theorem seenFrom_checked (context : String) (answer : Except IoError α) :
    (checked context answer).seenFrom here = checked context answer := by
  cases answer <;> rfl

@[simp]
theorem seenFrom_list (context : String) (path : Path) :
    (list context path).seenFrom here = list context (path.seenFrom here) :=
  congrArg (Plan.ask _) (funext fun _ => seenFrom_checked here _ _)

@[simp]
theorem seenFrom_makeDirs (context : String) (path : Path) :
    (makeDirs context path).seenFrom here = makeDirs context (path.seenFrom here) :=
  congrArg (Plan.ask _) (funext fun _ => seenFrom_checked here _ _)

@[simp]
theorem seenFrom_write (context : String) (path : Path) (text : String) :
    (write context path text).seenFrom here = write context (path.seenFrom here) text :=
  congrArg (Plan.ask _) (funext fun _ => seenFrom_checked here _ _)

@[simp]
theorem seenFrom_print (text : String) : (print text).seenFrom here = print text := rfl

@[simp]
theorem seenFrom_log (event : Log.Event) : (log event).seenFrom here = log event := rfl

@[simp]
theorem seenFrom_forM (f : α → Plan Unit) (as : List α) :
    (as.forM f).seenFrom here = as.forM fun a => (f a).seenFrom here := by
  induction as with
  | nil => rfl
  | cons a more ih =>
      exact (seenFrom_bind here (f a) fun _ => more.forM f).trans (by rw [ih]; rfl)

/-! ## What a run writes -/

/-- The files that a run writes, in order, with their texts. -/
def writes (w : Workspace) : Plan α → List (Path × String)
  | .done _ => []
  | .fail _ => []
  | .ask r next => r.written ++ (next (r.perform w).1).writes (r.perform w).2

variable {here}

theorem writes_bind {p : Plan α} {f : α → Plan β} {a : α} (h : p.runIn w = (.ok a, w')) :
    (p >>= f).writes w = p.writes w ++ (f a).writes w' := by
  show (p.bind f).writes w = _
  induction p generalizing w with
  | done b =>
      cases h
      rfl
  | fail failure => cases h
  | ask r next ih =>
      rw [bind, writes, ih _ h, writes, List.append_assoc]

@[simp]
theorem writes_checked (context : String) (answer : Except IoError α) :
    (checked context answer).writes w = [] := by
  cases answer <;> rfl

theorem writes_list (context : String) (path : Path) : (list context path).writes w = [] :=
  writes_checked context _

theorem writes_makeDirs (context : String) (path : Path) :
    (makeDirs context path).writes w = [] :=
  writes_checked context _

theorem writes_write (context : String) (path : Path) (text : String) :
    (write context path text).writes w = [(path, text)] :=
  congrArg ((path, text) :: ·) (writes_checked context _)

/-! ## Plans that write known files -/

/-- When the plan ends well, it has written these files, and they have been given to the
places. -/
def Fills (p : Plan α) (places : Set Place) (files : List (Path × String)) : Prop :=
  ∀ w a w', p.runIn w = (.ok a, w') → FileTree.Fills w.files w'.files places ∧
    p.writes w = files

variable {places places' : Set Place} {files files' : List (Path × String)}

theorem fills_bind {p : Plan α} {f : α → Plan β} (h : p.Fills places files)
    (hf : ∀ a, (f a).Fills places' files') :
    (p >>= f).Fills (places ∪ places') (files ++ files') := by
  intro w b w' run
  obtain ⟨a, v, first, run⟩ := runIn_bind_ok_iff.mp run
  obtain ⟨filled, wrote⟩ := h w a v first
  obtain ⟨filled', wrote'⟩ := hf a v b w' run
  exact ⟨filled.trans filled', by rw [writes_bind first, wrote, wrote']⟩

/-- Behind a plan that only looks. -/
theorem fills_bind_of_empty {p : Plan α} {f : α → Plan β} (h : p.Fills ∅ [])
    (hf : ∀ a, (f a).Fills places files) :
    (p >>= f).Fills places files := by
  simpa using fills_bind h hf

theorem fills_pure (a : α) : (pure a : Plan α).Fills ∅ [] := by
  intro w b w' run
  obtain ⟨-, rfl⟩ := runIn_pure_ok_iff.mp run
  exact ⟨.refl _, rfl⟩

/-- A plan for each member of a list. -/
theorem fills_forM {f : α → Plan Unit} {place : α → Place} {file : α → Path × String}
    (as : List α)
    (h : ∀ a ∈ as, (f a).Fills {place a} [file a]) :
    (as.forM f).Fills {q | ∃ a ∈ as, q = place a} (as.map file) := by
  induction as with
  | nil =>
      have none_ : {q | ∃ a ∈ ([] : List α), q = place a} = ∅ := by simp
      rw [none_]
      exact fills_pure ()
  | cons a more ih =>
      have both : {q | ∃ b ∈ a :: more, q = place b}
          = {place a} ∪ {q | ∃ b ∈ more, q = place b} := by
        ext q
        simp
      rw [both]
      exact fills_bind (h a List.mem_cons_self) fun _ => ih fun b hb =>
        h b (List.mem_cons_of_mem a hb)

theorem fills_makeDirs (context : String) (path : Path) : (makeDirs context path).Fills ∅ [] :=
  fun _ _ _ run =>
  ⟨FileTree.fills_of_addsDirs (FileTree.addsDirs_makeDirs (runIn_makeDirs_ok run)),
    writes_makeDirs context path⟩

theorem fills_write (context : String) (path : Path) (text : String) :
    (write context path text).Fills {FileTree.placeOf path} [(path, text)] := fun _ _ _ run =>
  ⟨FileTree.fills_of_write (.refl _) (runIn_write_ok run), writes_write context path text⟩

theorem fills_list (context : String) (path : Path) : (list context path).Fills ∅ [] := by
  intro w _ w' run
  exact ⟨(keepsFiles_list context path).files_eq run ▸ .refl _, writes_list context path⟩

theorem fills_log (event : Log.Event) : (log event).Fills ∅ [] := by
  intro w _ w' run
  exact ⟨(keepsFiles_log event).files_eq run ▸ .refl _, rfl⟩

theorem fills_print (text : String) : (print text).Fills ∅ [] := by
  intro w _ w' run
  exact ⟨(keepsFiles_print text).files_eq run ▸ .refl _, rfl⟩

/-- A generated file is given to its place, seen from the working directory. -/
theorem fills_writeGenerated (label text : String) {path : Path} (nonempty : path.text ≠ "") :
    ((writeGenerated label path text).seenFrom here).Fills {Path.names here path}
    [(path.seenFrom here, text)] := by
  have written := fills_bind (fills_write s!"Failed to write {path.text}" (path.seenFrom here)
    text)
    fun _ => fills_print (s!"✅ Generated {label} → {Text.quotedPath path.text}" ++ "\n")
  rw [Set.union_empty, List.append_nil, Path.placeOf_seenFrom here nonempty] at written
  unfold writeGenerated
  cases path.parent with
  | none => simpa [printLine] using written
  | some dir =>
      have made := fills_bind_of_empty
        (fills_makeDirs s!"Failed to create directory {dir.text}" (dir.seenFrom here)) fun _ =>
        written
      simpa [printLine] using made

/-- A generated file is written where its directory can be made and the file can be written. -/
theorem exists_runIn_seenFrom_writeGenerated {label text : String} {path dir : Path}
    {between after : FileTree}
    (parent : path.parent = some dir)
    (made : w.files.makeDirs (dir.seenFrom here) = .ok between)
    (written : between.write (path.seenFrom here) text = .ok after) :
    ∃ w', ((writeGenerated label path text).seenFrom here).runIn w = (.ok (), w') ∧
      w'.files = after := by
  have steps : ((writeGenerated label path text).seenFrom here).runIn w
      = (.ok (), { w with
          files := after
          output := w.output ++ (s!"✅ Generated {label} → {Text.quotedPath path.text}" ++ "\n")
            }) := by
    unfold writeGenerated
    rw [parent]
    simp only [printLine, seenFrom_bind, seenFrom_makeDirs, seenFrom_write, seenFrom_print]
    have second : (write s!"Failed to write {path.text}" (path.seenFrom here) text).runIn
      { w with files := between }
        = (.ok (), { w with files := after }) := runIn_write written
    rw [runIn_bind_of_ok (runIn_makeDirs made), runIn_bind_of_ok second]
    rfl
  exact ⟨_, steps, rfl⟩

/-! ## Listings -/

theorem fills_filesEnding (ending : String) (dir : Path) :
    ((filesEnding ending dir).seenFrom here).Fills ∅ [] := by
  unfold filesEnding
  simp only [seenFrom_bind, seenFrom_list, seenFrom_pure]
  exact fills_bind_of_empty (fills_list _ _) fun _ => fills_pure _

theorem runIn_seenFrom_filesEnding_ok {ending : String} {dir : Path} {files : List String}
    (h : ((filesEnding ending dir).seenFrom here).runIn w = (.ok files, w')) :
    files = fileNames ending (w.files.entriesAt (FileTree.placeOf (dir.seenFrom here))) := by
  unfold filesEnding at h
  simp only [seenFrom_bind, seenFrom_list, seenFrom_pure] at h
  obtain ⟨entries, v, listed, h⟩ := runIn_bind_ok_iff.mp h
  obtain ⟨rfl, -⟩ := runIn_pure_ok_iff.mp h
  rw [FileTree.list_eq_entriesAt (runIn_list_ok_iff.mp listed).1]

end Plan

end Attestation
