import Attestation.Proofs.Command.LoadFaults
import Attestation.Proofs.Contract.Resolution
import Attestation.Proofs.Verifier.GivenName
import Attestation.Proofs.Workspace.Growth

/-!
# Scaffolding is never overwritten

The files of a server are meant to be completed by hand, so a run writes those that are missing
and keeps the others.  Along a direct path any number of runs, with whatever types and
directories, leaves all that is there as it is and completes what is missing
(`Scaffold.kept_and_completed`).

## Main definitions

* `Server.Completes`: a tree in which what was missing of the servers of some types has been
  added.
* `Scaffold`: a run that scaffolds servers, without force.
* `Scaffold.IsDirect`: runs whose directory is reached without leaving a directory that is not
  there.

## Design notes

Whether a file is missing is asked before its directory is made.  Along a direct path this
makes no difference.  When the path leaves a directory that is not there yet, the file comes
into view only after that, and is overwritten (`exists_overwritten`); so directness is asked of
the directory of each run in the tree that the run finds, and is kept by the runs before it,
which only add.
-/

namespace Attestation

open FileTree Plan Text

/-! ## Files of a server -/

namespace Server

variable {name serverDir : String}

/-- The directory of a server. -/
def dirName (name : String) : String := "I" ++ name

theorem isEntryName_dirName (slash : '/' ∉ name.toList) : IsEntryName (dirName name) := by
  have chars : (dirName name).toList = 'I' :: name.toList := by
    rw [dirName, String.toList_append]
    rfl
  have other : ∀ {text : String}, text.toList.head? ≠ some 'I' → dirName name ≠ text := by
    rintro _ differs rfl
    exact differs (by rw [chars, List.head?_cons])
  refine ⟨other (by decide), other (by decide), other (by decide), ?_⟩
  rw [chars, List.mem_cons, not_or]
  exact ⟨by decide, slash⟩

theorem isEntryName_of_mem_files (slash : '/' ∉ name.toList) {file : String × String}
    (h : file ∈ files name serverDir) :
    IsEntryName file.1 := by
  have ending : ∀ word : String, 2 < word.toList.length → '/' ∉ word.toList →
    IsEntryName ("I" ++ name ++ word) := by
    intro word long separate
    refine isEntryName_of_suffix word.toList ?_ long ?_
    · rw [String.toList_append]
      exact List.suffix_append _ _
    · simp [slash, separate]
  simp only [files, List.mem_cons, List.not_mem_nil, or_false] at h
  rcases h with rfl | rfl | rfl | rfl | rfl
  · exact ending ".service.ts" (by decide) (by decide)
  · exact ending ".controller.ts" (by decide) (by decide)
  · exact ending ".module.ts" (by decide) (by decide)
  · exact ending ".server.ts" (by decide) (by decide)
  · exact show IsEntryName "Dockerfile" by decide

/-- No two files of a server have the same name. -/
theorem nodup_files : ((files name serverDir).map (·.1)).Nodup := by
  have start : ∀ word : String, "I" ++ name ++ word ≠ "Dockerfile" := by
    intro word same
    have chars := congrArg String.toList same
    simp at chars
  simp [files, start, String.append_right_inj]

theorem eq_of_mem_files {file other : String × String} (h : file ∈ files name serverDir)
    (h' : other ∈ files name serverDir)
    (same : file.1 = other.1) : file = other :=
  List.inj_on_of_nodup_map nodup_files h h' same

/-! ## Runs -/

section Runs

variable {t : FileTree} {out : Path} {w w' : Workspace}

/-- The path of a file of a server. -/
def filePath (out : Path) (name : String) (file : String × String) : Path :=
  (out.entry (dirName name)).entry file.1

/-- The place of a file of a server. -/
def filePlace (out : Path) (name : String) (file : String × String) : Place :=
  placeOf out ++ [dirName name] ++ [file.1]

/-- What has become of a tree while servers are written: everything that was there is as
before, and what is there of a server is what was there or what has been written.  It is the
invariant of a run, kept by the write of each file. -/
structure Completes (t : FileTree) (out : Path) (serverDir : String) (t' : FileTree) :
    Prop where
  sound : t'.Sound
  grows : t.Grows t'
  supplies : ∀ name, ∀ file ∈ files name serverDir,
    t.Supplies t' (filePlace out name file) file.2

theorem Completes.refl (sound : t.Sound) : Completes t out serverDir t :=
  ⟨sound, .refl t, fun _ _ _ => .refl t _ _⟩

theorem runIn_writeFile (dir : Path) (file : String × String) (w : Workspace) :
    (writeFile false dir file).runIn w =
      if w.files.exists (dir.entry file.1) = true then
        (printLine s!"⚠️  Skipping existing server file: {quotedPath (dir.entry file.1).text}").runIn w
      else (writeGenerated "server file" (dir.entry file.1) file.2).runIn w := by
  have asked : (Plan.exists (dir.entry file.1)).runIn w
      = (.ok (w.files.exists (dir.entry file.1)), w) := rfl
  unfold writeFile
  rw [runIn_bind_of_ok asked, Bool.not_false, Bool.and_true]
  split <;> rfl

section File

variable {file : String × String} (slash : '/' ∉ name.toList)
  (hfile : file ∈ files name serverDir)
include slash hfile

/-- **A file of a server is written where nothing is**, and it is what is written there. -/
theorem Completes.writeFile (direct : t.Direct out) (h : Completes t out serverDir w.files) :
    Completes t out serverDir ((Server.writeFile false (out.entry (dirName name)) file).leaves
      w) := by
  have hdir := isEntryName_dirName slash
  have hname := isEntryName_of_mem_files slash hfile
  have sound : ((Server.writeFile false (out.entry (dirName name)) file).leaves w).Sound :=
    sound_runIn _ h.sound
  have run := runIn_writeFile (out.entry (dirName name)) file w
  split at run
  · rw [leaves_congr run]
    exact h
  · next absent =>
      rw [leaves_congr run] at sound ⊢
      have here : w.files.Direct (out.entry (dirName name)) :=
        (direct.mono h.grows.keepsDirs).entry hdir
      have above : placeOf (out.entry (dirName name)) = placeOf out ++ [dirName name] :=
        placeOf_entry hdir out
      obtain ⟨grows, careful⟩ := careful_writeGenerated "server file" file.2 hname here h.sound
        (by simpa using absent)
      refine ⟨sound, h.grows.trans grows, fun name' file' hfile' =>
        (h.supplies name' file' hfile').trans ?_ grows⟩
      intro nothing
      have below : ¬ filePlace out name' file' <+: placeOf (out.entry (dirName name)) := by
        intro within
        have long := within.length_le
        simp [above, filePlace] at long
      refine (careful _ nothing below).imp id fun ⟨same, written⟩ => ?_
      have entries : dirName name' = dirName name ∧ file'.1 = file.1 := by
        simpa [above, filePlace] using same
      obtain rfl : name' = name := String.append_right_inj "I" |>.mp entries.1
      rw [written, eq_of_mem_files hfile' hfile entries.2]

/-- A file of a server that did not exist and is there now holds what has been made for it. -/
theorem Completes.readText {t' : FileTree} (h : Completes t out serverDir t') (sound : t.Sound)
    (direct : t.Direct out)
    (there : t'.exists (filePath out name file) = true)
    (absent : t.exists (filePath out name file) = false) :
    t'.readText (filePath out name file) = .ok file.2 := by
  have hdir := isEntryName_dirName slash
  have hname := isEntryName_of_mem_files slash hfile
  obtain ⟨path, walked⟩ := walked_of_exists hname there
  have place : filePlace out name file = placeOf (out.entry (dirName name)) ++ [file.1] := by
    rw [filePlace, placeOf_entry hdir]
  have nothing : t.get? (filePlace out name file) = none := by
    by_contra taken
    rw [place] at taken
    rw [filePath, ((direct.entry hdir).exists_iff hname sound path).mpr taken] at absent
    cases absent
  have held : t'.get? (filePlace out name file) = some (.file (.text file.2)) := by
    refine (h.supplies name file hfile nothing).resolve_left ?_
    rw [place]
    exact (exists_entry_of_walk hname path walked).mp there
  exact Holds.readText hname ⟨path, walked, place ▸ held⟩

/-- A file of a server is there when its step has ended well. -/
theorem exists_of_writeFile
    (run : (Server.writeFile false (out.entry (dirName name)) file).runIn w = (.ok (), w')) :
    w'.files.exists (filePath out name file) = true := by
  have hname := isEntryName_of_mem_files slash hfile
  rw [runIn_writeFile] at run
  split at run
  · next there =>
      rw [(keepsFiles_print _).files_eq run]
      exact there
  · have holds := (writes_of_runIn hname run).holds
    refine (exists_entry_of_walk hname holds.path holds.walked).mpr ?_
    rw [holds.here]
    exact Option.some_ne_none _

end File

theorem writeOne_eq (out : Path) (serverDir name : String) :
    Server.writeOne false out serverDir name
    = (files name serverDir).forM (Server.writeFile false (out.entry (dirName name))) := rfl

/-- Files are written, or kept, where the tree takes them. -/
theorem exists_runIn_writeFiles {dir : Path} {added : List (String × String)}
    (accepts : ∀ file ∈ added, w.files.Accepts (dir.entry file.1)) :
    ∃ w', (added.forM (Server.writeFile false dir)).runIn w = (.ok (), w') := by
  induction added generalizing w with
  | nil => exact ⟨w, rfl⟩
  | cons file more ih =>
      obtain ⟨accepted, others⟩ := List.forall_mem_cons.mp accepts
      obtain ⟨v, wrote, still⟩ : ∃ v, (Server.writeFile false dir file).runIn w = (.ok (), v) ∧
          ∀ other ∈ more, v.files.Accepts (dir.entry other.1) := by
        rw [runIn_writeFile]
        split
        · exact ⟨_, rfl, others⟩
        · obtain ⟨v, wrote, after⟩ :=
            exists_runIn_writeGenerated_of_accepts "server file" file.2 accepted
          exact ⟨v, wrote, fun other hother => after ▸ (others other hother).set accepted _⟩
      obtain ⟨w', rest⟩ := ih still
      exact ⟨w', (runIn_bind_of_ok wrote).trans rest⟩

section Servers

variable {names : List String} (slashes : ∀ name ∈ names, '/' ∉ name.toList)
  (direct : t.Direct out)
include slashes direct

theorem Completes.writeOne (hname : name ∈ names) (h : Completes t out serverDir w.files) :
    Completes t out serverDir ((Server.writeOne false out serverDir name).leaves w) := by
  have step : ∀ file ∈ files name serverDir, ∀ v :
    Workspace, Completes t out serverDir v.files →
      Completes t out serverDir
        ((Server.writeFile false (out.entry (dirName name)) file).leaves v) :=
    fun file hfile v hv => hv.writeFile (slashes name hname) hfile direct
  rw [writeOne_eq]
  exact leaves_forM_induction (Completes t out serverDir) step h

theorem Completes.writeEach (h : Completes t out serverDir w.files) :
    Completes t out serverDir ((names.forM (Server.writeOne false out serverDir)).leaves w) :=
  leaves_forM_induction (Completes t out serverDir)
    (fun _ hname _ hv => hv.writeOne slashes direct hname) h

/-- All files of the servers are there when the run has ended well. -/
theorem exists_of_writeEach (h : Completes t out serverDir w.files)
    (run : (names.forM (Server.writeOne false out serverDir)).runIn w = (.ok (), w')) :
    ∀ name ∈ names, ∀ file ∈ files name serverDir, w'.files.exists (filePath out name file)
      = true := by
  have entry : ∀ name ∈ names, ∀ file ∈ files name serverDir, IsEntryName file.1 :=
    fun name hname _ hfile =>
    isEntryName_of_mem_files (slashes name hname) hfile
  have directIn : ∀ v : Workspace, Completes t out serverDir v.files → v.files.Direct out :=
    fun v hv =>
    direct.mono hv.grows.keepsDirs
  refine forM_runIn_ok (Completes t out serverDir)
    (fun name after => ∀ file ∈ files name serverDir, after.exists (filePath out name file)
      = true)
    (fun name hname v hv => hv.writeOne slashes direct hname) ?_ ?_ h run
  · intro name hname v v' hv run
    have slash := slashes name hname
    rw [writeOne_eq] at run
    refine forM_runIn_ok (Completes t out serverDir) (fun file after =>
      after.exists (filePath out name file) = true)
      (fun file hfile v hv => hv.writeFile slash hfile direct)
      (fun file hfile v v' _ run => exists_of_writeFile slash hfile run) ?_ hv run
    intro file hfile other hother v hv there
    have grown := (Completes.refl hv.sound).writeFile slash hother (directIn v hv)
    exact grown.grows.exists_entry (entry name hname file hfile) there
  · intro name hname other hother v hv there file hfile
    have start : Completes v.files out serverDir v.files := .refl hv.sound
    have grown := start.writeOne slashes (directIn v hv) hother
    exact grown.grows.exists_entry (entry name hname file hfile) (there file hfile)

end Servers

/-! ## Types that are meant -/

variable {s : Settings} {specific : Option String}

theorem mem_typeNames_iff {names : List String}
    (run : (typeNames s).runIn w = (.ok names, w')) :
    name ∈ names.filter (TypeName.isMeant specific) ↔
      Contract.Declares w.files (placeOf (Contract.typeDir s)) specific name := by
  obtain ⟨interfaces, v, listed, run⟩ := runIn_bind_ok_iff.mp run
  obtain ⟨rfl, -⟩ := runIn_pure_ok_iff.mp run
  rw [List.mem_filter, (sortedNames_perm _).mem_iff, and_comm, runIn_filesEnding_ok listed]
  refine and_congr_right fun _ => ?_
  simp only [List.mem_map, mem_fileNames_entriesAt_iff]
  constructor
  · rintro ⟨file, ⟨⟨content, there⟩, ends⟩, rfl⟩
    exact ⟨file, content, there, ends, rfl⟩
  · rintro ⟨file, content, there, ends, rfl⟩
    exact ⟨file, ⟨⟨content, there⟩, ends⟩, rfl⟩

theorem not_slash_of_declares {dir : Place} (sound : t.Sound)
    (h : Contract.Declares t dir specific name) :
    '/' ∉ name.toList := by
  obtain ⟨-, file, content, there, -, rfl⟩ := h
  intro slash
  exact (sound.name dir file (by simp [there])).not_slash (TypeName.mem_ofFile slash)

/-- Where the servers are put: to the given directory, else to the usual one. -/
def place (s : Settings) (outPath : Option Path) : Path := outPath.getD s.locations.server

theorem keepsFiles_typeNames : (typeNames s).KeepsFiles :=
  keepsFiles_bind (keepsFiles_filesEnding _ _) fun _ => keepsFiles_pure _

/-- What is known about the names that are found. -/
theorem completes_typeNames (specific : Option String) {names : List String}
    (sound : w.files.Sound)
    (run : (typeNames s).runIn w = (.ok names, w')) :
    (∀ name ∈ names.filter (TypeName.isMeant specific), '/' ∉ name.toList) ∧
      Completes w.files out serverDir w'.files := by
  refine ⟨fun _ hname => not_slash_of_declares sound ((mem_typeNames_iff run).mp hname), ?_⟩
  rw [keepsFiles_typeNames.files_eq run]
  exact .refl sound

theorem keepsFiles_noneMeant (names : List String) :
    (if names.isEmpty then
      Plan.log (Log.noneMeant "attestation_gen::generator::server"
        "no attestation type interface matched" specific)
      else pure ()).KeepsFiles := by
  split
  · exact keepsFiles_log _
  · exact keepsFiles_pure _

section WriteAll

variable {outPath : Option Path} (sound : w.files.Sound)
  (direct : w.files.Direct (s.resolve (place s outPath)))
include sound direct

theorem completes_writeAll (specific : Option String) :
    Completes w.files (s.resolve (place s outPath)) (place s outPath).plainText
    ((writeAll s specific outPath false).leaves w) := by
  refine leaves_bind_induction (Completes w.files (s.resolve (place s outPath))
    (place s outPath).plainText) ?_
    fun names v run _ => ?_
  · show Completes _ _ _ ((typeNames s).runIn w).2.files
    rw [keepsFiles_typeNames w]
    exact .refl sound
  · obtain ⟨slashes, start⟩ := completes_typeNames specific sound run
    refine leaves_bind_induction _ (start.writeEach slashes direct) fun _ v' _ hv => ?_
    show Completes _ _ _ (Plan.runIn v' (if _ then _ else _)).2.files
    rwa [keepsFiles_noneMeant _ v']

/-- **The servers of all types that are meant** are there when the run has ended well. -/
theorem exists_of_writeAll (run : (writeAll s specific outPath false).runIn w = (.ok (), w')) :
    ∀ name, Contract.Declares w.files (placeOf (Contract.typeDir s)) specific name →
      ∀ file ∈ files name (place s outPath).plainText,
        w'.files.exists (filePath (s.resolve (place s outPath)) name file) = true := by
  intro name declared file hfile
  obtain ⟨names, v, named, rest⟩ := runIn_bind_ok_iff.mp run
  obtain ⟨_, v', wrote, last⟩ := runIn_bind_ok_iff.mp rest
  obtain ⟨slashes, start⟩ := completes_typeNames specific sound named
  rw [(keepsFiles_noneMeant _).files_eq last]
  exact exists_of_writeEach slashes direct start wrote name
    ((mem_typeNames_iff named).mpr declared) file hfile

end WriteAll

end Runs

end Server

/-! ## Runs of the command -/

/-- A run that scaffolds servers, without force. -/
structure Scaffold where
  environment : Environment := {}
  root : Path
  config : Option Path := none
  type : Option String := none
  outPath : Option Path := none

namespace Scaffold

variable {here : Path} {r : Scaffold} {w : Workspace}

/-- What a run does. -/
def plan (here : Path) (r : Scaffold) : Plan Unit :=
  Invocation.plan here r.environment ⟨r.root, r.config, .server r.type r.outPath false⟩

/-- The settings that a run works with. -/
def HasSettings (r : Scaffold) (files : FileTree) (s : Settings) : Prop :=
  ∃ file, SettingsFile.Found files r.root r.config file ∧
    s = file.settings r.environment r.root

/-- The directory of a run. -/
def dir (r : Scaffold) (s : Settings) : Path := s.resolve (Server.place s r.outPath)

/-- The directory of a run is reached without leaving a directory that is not there.  A path
that is not direct names nothing until directories have been made on its way. -/
def IsDirect (r : Scaffold) (files : FileTree) : Prop := ∀ s, r.HasSettings files s →
    files.Direct (r.dir s)

/-- What is left behind runs one after the other. -/
def runAll (here : Path) (runs : List Scaffold) (w : Workspace) : Workspace :=
  runs.foldl (fun v r => ((r.plan here).runIn v).2) w

/-- What a run is meant to do: no file that existed is changed, and when the run ends well all
files of the servers that are meant are there, those that did not exist with the text that is
made for them. -/
structure Fulfils (r : Scaffold) (before : FileTree) (result : Except Failure Unit)
    (after : FileTree) : Prop where
  kept : ∀ q content, before.get? q = some (.file content) →
  after.get? q = some (.file content)
  completed : result = .ok () → ∃ s, r.HasSettings before s ∧
    ∀ name, Contract.Declares before (placeOf (Contract.typeDir s)) r.type name →
      ∀ file ∈ Server.files name (Server.place s r.outPath).plainText,
        after.exists (Server.filePath (r.dir s) name file) = true ∧
          (before.exists (Server.filePath (r.dir s) name file) = false →
            after.readText (Server.filePath (r.dir s) name file) = .ok file.2)

/-- A run without settings changes nothing; any other one writes servers. -/
theorem plan_cases (here : Path) (r : Scaffold) (w : Workspace) :
    (∃ failure, ((r.plan here).runIn w).1 = .error failure ∧
      (r.plan here).leaves w = w.files) ∨
      ∃ s, r.HasSettings w.files s ∧
        ((r.plan here).runIn w).1 = ((Server.writeAll s r.type r.outPath false).runIn w).1 ∧
        (r.plan here).leaves w = (Server.writeAll s r.type r.outPath false).leaves w := by
  cases loaded : (Settings.load r.environment r.root r.config).runIn w with
  | mk result v =>
      cases result with
      | error failure =>
          have shown : (r.plan here).visible w = _ :=
            visible_bind_of_error (Settings.asksOnly_load _ _ _)
            (congrArg (·.1) loaded)
          exact .inl ⟨failure, eq_of_visible_eq shown⟩
      | ok s =>
          obtain ⟨file, found, hs⟩ := SettingsFile.found_of_load loaded
          have shown : (r.plan here).visible w
              = (Server.writeAll s r.type r.outPath false).visible w :=
            Invocation.visible_plan loaded
          exact .inr ⟨s, ⟨file, found, hs⟩, congr_of_visible_eq shown⟩

theorem grows_plan (here : Path) (sound : w.files.Sound) (direct : r.IsDirect w.files) :
    w.files.Grows ((r.plan here).leaves w) := by
  rcases plan_cases here r w with ⟨failure, -, same⟩ | ⟨s, found, -, same⟩
  · rw [same]
    exact .refl _
  · rw [same]
    exact (Server.completes_writeAll sound (direct s found) r.type).grows

/-- A single run along a direct path does what it is meant to do. -/
theorem fulfils_plan (here : Path) (sound : w.files.Sound) (direct : r.IsDirect w.files) :
    r.Fulfils w.files ((r.plan here).runIn w).1 ((r.plan here).leaves w) := by
  refine ⟨fun q _ => grows_plan here sound direct q _, fun ended => ?_⟩
  rcases plan_cases here r w with ⟨failure, failed, -⟩ | ⟨s, found, sameEnd, same⟩
  · rw [failed] at ended
    cases ended
  · have direct := direct s found
    refine ⟨s, found, fun name declared file hfile => ?_⟩
    obtain ⟨w', wrote⟩ := exists_runIn_ok (sameEnd.symm.trans ended)
    have completes := Server.completes_writeAll sound direct r.type
    rw [same, leaves_of_run wrote]
    rw [leaves_of_run wrote] at completes
    have there := Server.exists_of_writeAll sound direct wrote name declared file hfile
    have slash := Server.not_slash_of_declares sound declared
    exact ⟨there, completes.readText slash hfile sound direct there⟩

theorem sound_runAll (here : Path) (runs : List Scaffold) (sound : w.files.Sound) :
    (runAll here runs w).files.Sound := by
  induction runs generalizing w with
  | nil => exact sound
  | cons r runs ih => exact ih (sound_runIn _ sound)

theorem grows_runAll {runs : List Scaffold} (sound : w.files.Sound)
    (direct : ∀ earlier r later, runs = earlier ++ r :: later →
      r.IsDirect (runAll here earlier w).files) :
    w.files.Grows (runAll here runs w).files := by
  induction runs generalizing w with
  | nil => exact .refl _
  | cons r runs ih =>
      refine (grows_plan here sound (direct [] r runs rfl)).trans (ih (sound_runIn _ sound) ?_)
      rintro earlier next later rfl
      exact direct (r :: earlier) next later rfl

/-- **Scaffolding never overwrites**: any number of runs whose directories are reached by
direct paths changes no file, and each of them completes what is missing.  A run that fails has
changed no file either. -/
theorem kept_and_completed (here : Path) {runs : List Scaffold} (sound : w.files.Sound)
    (direct : ∀ earlier r later, runs = earlier ++ r :: later →
      r.IsDirect (runAll here earlier w).files) :
    (∀ q content, w.files.get? q = some (.file content) →
        (runAll here runs w).files.get? q = some (.file content)) ∧
      ∀ earlier r later, runs = earlier ++ r :: later →
        r.Fulfils (runAll here earlier w).files ((r.plan here).runIn (runAll here earlier w)).1
          ((r.plan here).leaves (runAll here earlier w)) :=
  ⟨fun q _ => grows_runAll sound direct q _, fun earlier r later cut =>
    fulfils_plan here (sound_runAll here earlier sound) (direct earlier r later cut)⟩

/-- A given directory without parent steps is reached in every tree. -/
theorem isDirect_of_not_mem {out : Path} (given : r.outPath = some out)
    (down : ".." ∉ (r.root.join out).moves)
    (files : FileTree) : r.IsDirect files := by
  rintro s ⟨file, -, rfl⟩
  refine direct_of_not_mem files ?_
  rwa [dir, Server.place, given]

/-- A project with a service that has been completed by hand. -/
def handWritten : FileTree where
  nodes := [(["p"], .dir), (["p", "contracts"], .dir),
    (["p", "contracts", "interfaces"], .dir),
    (["p", "contracts", "interfaces", "types"], .dir),
    (["p", "contracts", "interfaces", "types", "IPayment.sol"], .file (.text "")),
    (["p", "b"], .dir), (["p", "b", "IPayment"], .dir),
    (["p", "b", "IPayment", "IPayment.service.ts"], .file (.text "// hand written\n"))]
  distinct := by decide

theorem sound_handWritten : handWritten.Sound := sound_of_nodes (by decide)

/-- A run that puts the servers of that project into the given directory. -/
def into (out : String) : Scaffold := { root := ⟨"p"⟩, outPath := some ⟨out⟩ }

/-- What such a run does to the project. -/
theorem visible_into (out : String) :
    ((into out).plan ⟨"/"⟩).visible { files := handWritten }
    = ((["Payment"].forM (Server.writeOne false (usualSettings.resolve ⟨out⟩)
      (Path.plainText ⟨out⟩))).bind
      fun _ => pure ()).visible { files := handWritten } := by
  have settings : (Settings.load {} ⟨"p"⟩ none).runIn { files := handWritten }
      = (.ok usualSettings, { files := handWritten }) := rfl
  have listed : handWritten.list ⟨"p/contracts/interfaces/types"⟩
      = .ok [⟨"IPayment.sol", true⟩] := rfl
  have names : (typeNames usualSettings).runIn { files := handWritten } = (.ok ["Payment"],
    { files := handWritten }) := by
    refine runIn_bind_ok_iff.mpr ⟨["IPayment.sol"], _, ?_,
      runIn_pure_ok_iff.mpr ⟨List.mergeSort_singleton _, rfl⟩⟩
    exact runIn_bind_ok_iff.mpr ⟨_, _, runIn_list_ok_iff.mpr ⟨listed, rfl⟩,
      runIn_pure_ok_iff.mpr ⟨List.mergeSort_singleton _, rfl⟩⟩
  have meant : ["Payment"].filter (TypeName.isMeant (into out).type) = ["Payment"] := rfl
  have looks : (typeNames usualSettings).AsksOnly Request.Looks :=
    asksOnly_filesEnding trivial fun _ => .done _
  refine (Invocation.visible_plan settings).trans ((looks.visible_bind names).trans ?_)
  rw [meant]
  rfl

/-- The project takes all files of its server. -/
theorem accepts_handWritten : ∀ file ∈ Server.files "Payment" "b",
    handWritten.Accepts ((⟨"p/b/IPayment"⟩ : Path).entry file.1) := by
  have walked : handWritten.walk [] (pieces ⟨"p/b/IPayment"⟩)
      = .ok (.found (placeOf ⟨"p/b/IPayment"⟩) .dir) := rfl
  have named : ∀ name ∈ ["IPayment.service.ts", "IPayment.controller.ts", "IPayment.module.ts",
    "IPayment.server.ts",
        "Dockerfile"],
      (IsEntryName name ∧ IsPath ((⟨"p/b/IPayment"⟩ : Path).entry name) ∧
        (⟨"p/b/IPayment"⟩ : Path).text ≠ "" ∧
        ((⟨"p/b/IPayment"⟩ : Path).entry name).parent = some ⟨"p/b/IPayment"⟩) ∧
      handWritten.get? (placeOf ⟨"p/b/IPayment"⟩ ++ [name]) ≠ some .dir := by
    decide +kernel
  intro file hfile
  obtain ⟨entry, free⟩ := named file.1 (List.mem_map_of_mem hfile)
  exact accepts_of_walk _ file.1 ⟨rfl, entry⟩ walked free

theorem ended_handWritten : (((into "b").plan ⟨"/"⟩).runIn { files := handWritten }).1
      = .ok () := by
  have shown := visible_into "b"
  rw [show usualSettings.resolve ⟨"b"⟩ = ⟨"p/b"⟩ from rfl,
    show Path.plainText ⟨"b"⟩ = "b" from rfl] at shown
  rw [(congr_of_visible_eq shown).1]
  obtain ⟨w', wrote⟩ := Server.exists_runIn_writeFiles (w := { files := handWritten })
    accepts_handWritten
  have one : (Server.writeOne false ⟨"p/b"⟩ "b" "Payment").runIn { files := handWritten }
      = (.ok (), w') := wrote
  have each : (["Payment"].forM (Server.writeOne false ⟨"p/b"⟩ "b")).runIn
    { files := handWritten } = (.ok (), w') :=
    (runIn_bind_of_ok one).trans rfl
  have all : ((["Payment"].forM (Server.writeOne false ⟨"p/b"⟩ "b")).bind fun _ =>
    (pure () : Plan Unit)).runIn
      { files := handWritten } = (.ok (), w') := (runIn_bind_of_ok each).trans rfl
  rw [all]

/-- Two runs keep the service of that project, and add the recipe for its image. -/
theorem kept_and_completed_handWritten :
    (runAll ⟨"/"⟩ [into "b", into "b"] { files := handWritten }).files.get?
    ["p", "b", "IPayment", "IPayment.service.ts"]
        = some (.file (.text "// hand written\n")) ∧
      (((into "b").plan ⟨"/"⟩).leaves { files := handWritten }).readText
      ⟨"p/b/IPayment/Dockerfile"⟩
        = .ok (Server.dockerfile "Payment" "IPayment" "b") := by
  have direct : ∀ earlier r later, [into "b", into "b"] = earlier ++ r :: later →
      r.IsDirect (runAll ⟨"/"⟩ earlier { files := handWritten }).files := by
    intro earlier r later cut
    have hr : r ∈ [into "b", into "b"] := by simp [cut]
    obtain rfl : r = into "b" := by simpa using hr
    exact isDirect_of_not_mem rfl (by decide) _
  obtain ⟨kept, each⟩ := kept_and_completed ⟨"/"⟩ (w := { files := handWritten })
    sound_handWritten direct
  refine ⟨kept _ _ rfl, ?_⟩
  obtain ⟨s, ⟨file, found, rfl⟩, completed⟩ :=
    (each [] (into "b") [into "b"] rfl).completed ended_handWritten
  obtain rfl := found.unique (.usual rfl rfl)
  have declared : Contract.Declares handWritten ["p", "contracts", "interfaces", "types"] none
    "Payment" :=
    ⟨rfl, "IPayment.sol", .text "", rfl, rfl, rfl⟩
  have listed : ("Dockerfile", Server.dockerfile "Payment" "IPayment" "b") ∈ Server.files
    "Payment" "b" := by
    simp [Server.files]
  exact (completed "Payment" declared _ listed).2 rfl

/-- What is known once the service has been written over the old one: it stays, for its path is
direct now. -/
def Overwritten (after : FileTree) : Prop :=
  after.get? ["p", "b", "IPayment", "IPayment.service.ts"]
    = some (.file (.text (Server.service "Payment" "IPayment"))) ∧
    after.walk [] ["p", "a", ".."] = .ok (.found ["p"] .dir)

theorem overwritten_writeOne :
    Overwritten ((Server.writeOne false ⟨"p/a/../b"⟩ "a/../b" "Payment").leaves
      { files := handWritten }) := by
  refine leaves_bind_induction Overwritten ⟨rfl, rfl⟩ fun _ v run written => ?_
  have sound : v.files.Sound := by
    have behind := congrArg (·.2.files) run
    dsimp only at behind
    rw [← behind]
    exact sound_runIn _ sound_handWritten
  have direct : v.files.Direct ⟨"p/a/../b"⟩ :=
    ⟨["p", "a", ".."], ["b"], rfl, written.2, by decide⟩
  have slash : '/' ∉ "Payment".toList := by decide
  have grown := leaves_forM_induction (Server.Completes v.files ⟨"p/a/../b"⟩ "a/../b")
    (fun _ hfile _ hv => hv.writeFile slash (List.mem_cons_of_mem _ hfile) direct)
    (.refl sound)
  exact ⟨grown.grows _ _ written.1, grown.grows.keepsDirs.walk written.2⟩

/-- The directory `a` is not there when the service is looked for behind it, and then it is
made.  So the service behind `a/../b` is not found, and is written over. -/
theorem exists_overwritten :
    handWritten.Sound ∧
      handWritten.get? ["p", "b", "IPayment", "IPayment.service.ts"]
        = some (.file (.text "// hand written\n")) ∧
      ∃ content, (((into "a/../b").plan ⟨"/"⟩).leaves { files := handWritten }).get?
        ["p", "b", "IPayment", "IPayment.service.ts"] = some (.file (.text content)) ∧
        content ≠ "// hand written\n" := by
  have shown := visible_into "a/../b"
  rw [show usualSettings.resolve ⟨"a/../b"⟩ = ⟨"p/a/../b"⟩ from rfl,
    show Path.plainText ⟨"a/../b"⟩ = "a/../b" from rfl]
    at shown
  refine ⟨sound_handWritten, rfl, Server.service "Payment" "IPayment", ?_, fun same => ?_⟩
  · rw [(congr_of_visible_eq shown).2]
    have whole :
      Overwritten (((["Payment"].forM (Server.writeOne false ⟨"p/a/../b"⟩ "a/../b")).bind
        fun _ => pure ()).leaves { files := handWritten }) :=
      leaves_bind_induction Overwritten
        (leaves_bind_induction Overwritten overwritten_writeOne fun _ _ _ written => written)
          fun _ _ _ written => written
    exact whole.1
  · have first := congrArg (·.toList.head?) same
    rw [Server.service, unlines, toList_join, List.map_cons, List.map_cons,
      List.intercalate_cons_cons,
      List.head?_append_of_ne_nil _ (by decide)] at first
    cases first

end Scaffold

end Attestation
