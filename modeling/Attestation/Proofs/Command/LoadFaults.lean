import Attestation.Command.Run
import Attestation.Proofs.Record.Sparing
import Attestation.Proofs.Workspace.Faults

/-!
# Inputs that cannot be loaded

Each command loads all its inputs before it changes anything.  What can be wrong with an input
is listed kind by kind, with the failure that tells it; a run that has such a fault before it
ends with one, and all files and directories are as before (`Invocation.unchanged_of_fault`).
Previous records are only cleared behind all of this.

## Main definitions

* `SettingsFile.Fault`, `BuildInfo.Fault`, `TypeUnit.Fault`, `Abi.Fault`, `TypeRecord.Fault`:
  what can be wrong with the settings file, the build info, the types, the shapes of their
  messages and the records.
* `Command.Fault`, `Invocation.Fault`: what can be wrong with the inputs of a command and of an
  invocation.

## Design notes

A fault is a property of the workspace and not of a run, and says nothing about the order in
which inputs are loaded.  When there are several, the run ends with the first one that it
meets, so `Plan.FailsFor` speaks of one of the failures of a predicate.  A type that has no
temporary contract at all is no fault: it is noticed when the type is written.
-/

namespace Attestation

open Plan

variable {files : FileTree}

/-! ## The settings file -/

namespace SettingsFile

/-- The path of the settings file: the one that is named, else the usual one. -/
def pathOf (root : Path) (named : Option Path) : Path := named.getD (root.entry usualName)

/-- What is wrong with the settings file. -/
inductive Fault (files : FileTree) (root : Path) (named : Option Path) : Failure → Prop where
  /-- A file that is named must be there. -/
  | missing {path : Path} : named = some path → files.exists path = false →
      Fault files root named (Failure.of (.other s!"Config file not found: {path.text}"))
  | unreadable {e : IoError} : files.exists (pathOf root named) = true →
      files.readText (pathOf root named) = .error e →
      Fault files root named
        ⟨[s!"Failed to read generator config: {(pathOf root named).text}"], .io e⟩
  | malformed {text : String} : files.exists (pathOf root named) = true →
      files.readText (pathOf root named) = .ok text → parse text = none →
      Fault files root named
        ⟨[s!"Failed to parse generator config: {(pathOf root named).text}"], .toml⟩

/-- What the settings file says. Without one it says nothing. -/
inductive Found (files : FileTree) (root : Path) (named : Option Path) : SettingsFile →
    Prop where
  | usual : named = none → files.exists (root.entry usualName) = false →
      Found files root named {}
  | read {text : String} {file : SettingsFile} : files.exists (pathOf root named) = true →
      files.readText (pathOf root named) = .ok text → parse text = some file →
      Found files root named file

variable {e : Environment} {root : Path} {named : Option Path}

/-- Whether there is a settings file is asked first. -/
theorem load_eq : Settings.load e root named = (do
    if ← Plan.exists (pathOf root named) then
      Plan.log {
        level := .debug
        target := "attestation_gen::config"
        message := "loading generator config"
        fields := [("config", .shown (pathOf root named).text)] }
      return (← load (pathOf root named)).settings e root
    else
      match named with
      | some path => Plan.failWith s!"Config file not found: {path.text}"
      | none => return settings {} e root) := by
  cases named <;> exact congrArg (Plan.ask _) (funext fun there => by cases there <;> rfl)

/-- A settings file that is there is read. -/
theorem failsFor_load (there : files.exists (pathOf root named) = true) :
    (load (pathOf root named)).FailsFor files (Fault files root named) := by
  refine failsFor_readText (fun _ unread => .unreadable there unread) fun text read => ?_
  cases parsed : parse text with
  | none => exact failsFor_fail (.malformed there read parsed)
  | some file =>
      refine failsFor_pure file fun failure fault => ?_
      cases fault with
      | missing named_ absent =>
          rw [pathOf, named_, Option.getD_some, absent] at there
          cases there
      | unreadable _ unread =>
          rw [read] at unread
          cases unread
      | malformed _ read' unparsed =>
          rw [read] at read'
          cases read'
          rw [parsed] at unparsed
          cases unparsed

theorem failsFor_loadSettings :
    (Settings.load e root named).FailsFor files (Fault files root named) := by
  rw [load_eq]
  refine failsFor_exists ?_
  cases there : files.exists (pathOf root named) with
  | true => exact failsFor_log ((failsFor_load there).bind_pure (keepsFiles_load _) _)
  | false =>
      cases hnamed : named with
      | some path =>
          rw [hnamed, pathOf, Option.getD_some] at there
          exact failsFor_fail (.missing rfl there)
      | none =>
          refine failsFor_pure _ fun failure fault => ?_
          cases fault with
          | missing named_ => cases named_
          | unreadable there' => rw [← hnamed, there] at there'; cases there'
          | malformed there' => rw [← hnamed, there] at there'; cases there'

/-- The settings are those that the settings file and the environment give. -/
theorem found_of_load {w w' : Workspace} {s : Settings}
    (h : (Settings.load e root named).runIn w = (.ok s, w')) :
    ∃ file, Found w.files root named file ∧ s = file.settings e root := by
  rw [load_eq] at h
  obtain ⟨there, v, asked, h⟩ := runIn_bind_ok_iff.mp h
  obtain ⟨found, rfl⟩ := runIn_exists_ok_iff.mp asked
  cases there with
  | true =>
      obtain ⟨_, v, logged, h⟩ := runIn_bind_ok_iff.mp h
      obtain ⟨file, v', loaded, h⟩ := runIn_bind_ok_iff.mp h
      obtain ⟨rfl, -⟩ := runIn_pure_ok_iff.mp h
      obtain ⟨text, v'', read, h⟩ := runIn_bind_ok_iff.mp loaded
      obtain ⟨read, -⟩ := runIn_readText_ok_iff.mp read
      rw [(keepsFiles_log _).files_eq logged] at read
      split at h
      · next file' parsed =>
          obtain ⟨rfl, -⟩ := runIn_pure_ok_iff.mp h
          exact ⟨file', .read found read parsed, rfl⟩
      · cases h
  | false =>
      cases named with
      | some path => cases h
      | none =>
          obtain ⟨rfl, -⟩ := runIn_pure_ok_iff.mp h
          exact ⟨{}, .usual rfl found, rfl⟩

/-- A settings file says one thing. -/
theorem Found.unique {file file' : SettingsFile} (h : Found files root named file)
    (h' : Found files root named file') :
    file = file' := by
  cases h with
  | usual named_ absent =>
      cases h' with
      | usual => rfl
      | read there =>
          rw [pathOf, named_, Option.getD_none, absent] at there
          cases there
  | read there read parsed =>
      cases h' with
      | usual named_ absent =>
          rw [pathOf, named_, Option.getD_none, absent] at there
          cases there
      | read _ read' parsed' =>
          rw [read] at read'
          cases read'
          rw [parsed] at parsed'
          exact Option.some.inj parsed'

end SettingsFile

/-! ## The types and their build -/

/-- What the only build-info file says. -/
def BuildInfo.Found (files : FileTree) (s : Settings) (build : BuildInfo) : Prop :=
  ∃ only text, files.list (s.resolve s.locations.buildInfo) = .ok [only] ∧
    files.readText ((s.resolve s.locations.buildInfo).entry only.name) = .ok text ∧
    (Json.parse text).bind BuildInfo.ofJson? = some build

/-- What is wrong with the build info. -/
inductive BuildInfo.Fault (files : FileTree) (s : Settings) : Failure → Prop where
  | unlisted {e : IoError} : files.list (s.resolve s.locations.buildInfo) = .error e →
      Fault files s ⟨[s!"Failed to read build info dir {(s.resolve s.locations.buildInfo).text}"], .io e⟩
  /-- There must be one file, not none and not several. -/
  | count {entries : List DirEntry} :
      files.list (s.resolve s.locations.buildInfo) = .ok entries → entries.length ≠ 1 →
      Fault files s (Failure.of
        (.load (.buildInfoCount (s.resolve s.locations.buildInfo) entries.length)))
  | unreadable {only : DirEntry} {e : IoError} :
      files.list (s.resolve s.locations.buildInfo) = .ok [only] →
      files.readText ((s.resolve s.locations.buildInfo).entry only.name) = .error e →
      Fault files s
        ⟨[s!"Failed to read build info {((s.resolve s.locations.buildInfo).entry only.name).text}"], .io e⟩
  | malformed {only : DirEntry} {text : String} :
      files.list (s.resolve s.locations.buildInfo) = .ok [only] →
      files.readText ((s.resolve s.locations.buildInfo).entry only.name) = .ok text →
      (Json.parse text).bind BuildInfo.ofJson? = none →
      Fault files s
        ⟨[s!"Failed to parse build info {((s.resolve s.locations.buildInfo).entry only.name).text}"], .json⟩

/-- What is wrong with the types of a project. -/
inductive TypeUnit.Fault (files : FileTree) (s : Settings) : Failure → Prop where
  | build {failure : Failure} : BuildInfo.Fault files s failure → Fault files s failure
  | unlisted {e : IoError} : files.list (s.resolve s.locations.typeInterfaceDefinitions)
    = .error e →
      Fault files s
        ⟨[s!"Failed to read directory {(s.resolve s.locations.typeInterfaceDefinitions).text}"], .io e⟩
  /-- An interface file must have been compiled. -/
  | missingSource {build : BuildInfo} {entries : List DirEntry} {file : String} :
      BuildInfo.Found files s build →
      files.list (s.resolve s.locations.typeInterfaceDefinitions) = .ok entries →
      file ∈ fileNames ".sol" entries →
      build.sources.get? (TypeUnit.sourcePath s.locations.typeInterfaceDefinitions file)
        = none →
      Fault files s
        (Failure.of (.load (.missingSource
          (TypeUnit.sourcePath s.locations.typeInterfaceDefinitions file))))

section Types

variable {s : Settings}

theorem BuildInfo.Found.unique {build build' : BuildInfo} (h : Found files s build)
    (h' : Found files s build') :
    build = build' := by
  obtain ⟨only, text, listed, read, parsed⟩ := h
  obtain ⟨only', text', listed', read', parsed'⟩ := h'
  rw [listed] at listed'
  cases listed'
  rw [read] at read'
  cases read'
  rw [parsed] at parsed'
  exact Option.some.inj parsed'

/-- A build info that can be used leaves no fault. -/
theorem BuildInfo.Found.not_fault {build : BuildInfo} (h : Found files s build)
    (failure : Failure) :
    ¬ Fault files s failure := by
  obtain ⟨only, text, listed, read, parsed⟩ := h
  intro fault
  cases fault with
  | unlisted unlisted => cases listed.symm.trans unlisted
  | count listed' count =>
      cases listed.symm.trans listed'
      exact count rfl
  | unreadable listed' unread =>
      cases listed.symm.trans listed'
      cases read.symm.trans unread
  | malformed listed' read' unparsed =>
      cases listed.symm.trans listed'
      cases read.symm.trans read'
      cases parsed.symm.trans unparsed

theorem BuildInfo.failsFor_load : (BuildInfo.load s).FailsFor files (Fault files s) := by
  refine failsFor_list (fun _ unlisted => .unlisted unlisted) fun entries listed => ?_
  split
  · next only =>
      refine failsFor_readText (fun _ unread => .unreadable listed unread) fun text read => ?_
      cases parsed : (Json.parse text).bind ofJson? with
      | none => exact failsFor_fail (.malformed listed read parsed)
      | some build =>
          exact failsFor_pure build (Found.not_fault ⟨only, text, listed, read, parsed⟩)
  · next several =>
      refine failsFor_fail (.count listed fun one => ?_)
      obtain ⟨only, rfl⟩ := List.length_eq_one_iff.mp one
      exact several only rfl

theorem BuildInfo.found_of_load {w : Workspace} {build : BuildInfo}
    (h : ((BuildInfo.load s).runIn w).1 = .ok build) :
    Found w.files s build := by
  obtain ⟨w', h⟩ := exists_runIn_ok h
  obtain ⟨entries, v, asked, h⟩ := runIn_bind_ok_iff.mp h
  obtain ⟨listed, rfl⟩ := runIn_list_ok_iff.mp asked
  clear asked
  split at h
  · next only =>
      obtain ⟨text, v, asked, h⟩ := runIn_bind_ok_iff.mp h
      obtain ⟨read, rfl⟩ := runIn_readText_ok_iff.mp asked
      clear asked
      split at h
      · next parsed =>
          obtain ⟨rfl, -⟩ := runIn_pure_ok_iff.mp h
          exact ⟨only, text, listed, read, parsed⟩
      · cases h
  · cases h

theorem TypeUnit.find_eq_error_iff {build : BuildInfo} {dir : Path} {file : String}
    {error : LoadError} :
    find build dir file = .error error ↔
      build.sources.get? (sourcePath dir file) = none ∧
      error = .missingSource (sourcePath dir file) := by
  unfold find
  dsimp only
  cases found : build.sources.get? (sourcePath dir file) with
  | none => simp [eq_comm]
  | some tree => simp

theorem TypeUnit.failsFor_loadAll : (loadAll s).FailsFor files (Fault files s) := by
  refine failsFor_bind (keepsFiles_buildInfo s) (fun w failure hw run => ?_) fun w build hw
    run => ?_
  · exact .build (BuildInfo.failsFor_load.error w failure hw run)
  have found : BuildInfo.Found files s build := hw ▸ BuildInfo.found_of_load run
  refine failsFor_filesEnding (fun _ unlisted => .unlisted unlisted) fun entries listed => ?_
  refine failsFor_ofExcept (fun failure failed => ?_) fun units made =>
    failsFor_pure _ fun failure fault => ?_
  · cases compiled : (fileNames ".sol" entries).mapM
      (find build s.locations.typeInterfaceDefinitions) with
    | ok units =>
        rw [compiled] at failed
        cases failed
    | error error =>
        rw [compiled] at failed
        cases failed
        obtain ⟨file, hfile, bad⟩ := exists_of_mapM_eq_error compiled
        obtain ⟨missing, rfl⟩ := find_eq_error_iff.mp bad
        exact .missingSource found listed hfile missing
  · cases fault with
    | build fault => exact found.not_fault failure fault
    | unlisted unlisted => cases listed.symm.trans unlisted
    | missingSource found' listed' hfile missing =>
        cases found.unique found'
        cases listed.symm.trans listed'
        obtain ⟨unit, good⟩ := exists_mapM_eq_ok_iff.mp ⟨units, orFail_eq_ok_iff.mp made⟩ _
          hfile
        cases good.symm.trans (find_eq_error_iff.mpr ⟨missing, rfl⟩)

end Types

/-! ## The shapes of messages -/

namespace Abi

/-- Where the compiler has put what it made of the contract in a file. -/
def artifactPath (compiled : Path) (file : String) : Path :=
  let contract := Text.dropEnds ".sol" file
  (compiled.entry file).entry s!"{contract}.json"

/-- The names of the functions that take the messages. -/
def functions : List String := ["request", "response", "proof"]

/-- What is wrong with what the compiler made of a file. Only a temporary contract is of
interest. -/
inductive FileFault (files : FileTree) (compiled : Path) (file : String) : Failure → Prop where
  | unreadable {interface : String} {e : IoError} :
      Text.dropEndString? ending (Text.dropEnds ".sol" file) = some interface →
      files.readText (artifactPath compiled file) = .error e →
      FileFault files compiled file
        ⟨[s!"Failed to read artifact {(artifactPath compiled file).text}"], .io e⟩
  | malformed {interface text : String} :
      Text.dropEndString? ending (Text.dropEnds ".sol" file) = some interface →
      files.readText (artifactPath compiled file) = .ok text → (Json.parse text).bind entriesOf
        = none →
      FileFault files compiled file
        ⟨[s!"Failed to parse artifact {(artifactPath compiled file).text}"], .json⟩
  /-- Each message must have a function that takes it. -/
  | missingEntry {interface text function : String} {entries : List Json} {error : LoadError} :
      Text.dropEndString? ending (Text.dropEnds ".sol" file) = some interface →
      files.readText (artifactPath compiled file) = .ok text → (Json.parse text).bind entriesOf
        = some entries →
      function ∈ functions → firstInput entries (Text.dropEnds ".sol" file) function
        = .error error →
      FileFault files compiled file (Failure.of (.load error))

/-- What is wrong with the shapes of messages. -/
inductive Fault (files : FileTree) (s : Settings) : Failure → Prop where
  | unlisted {e : IoError} : files.list (s.resolve s.locations.temporaryContracts) = .error e →
      Fault files s ⟨[s!"Failed to read directory {(s.resolve s.locations.temporaryContracts).text}"], .io e⟩
  | artifact {entries : List DirEntry} {file : String} {failure : Failure} :
      files.list (s.resolve s.locations.temporaryContracts) = .ok entries →
      file ∈ fileNames ".sol" entries →
      FileFault files (s.resolve s.locations.temporaryContractsCompilation) file failure →
      Fault files s failure

theorem ofEntries_eq_error {entries : List Json} {contract : String} {error : LoadError}
    (h : ofEntries entries contract = .error error) :
    ∃ function ∈ functions, firstInput entries contract function = .error error := by
  rcases bind_eq_error h with failed | ⟨_, -, h⟩
  · exact ⟨"request", by simp [functions], failed⟩
  rcases bind_eq_error h with failed | ⟨_, -, h⟩
  · exact ⟨"response", by simp [functions], failed⟩
  rcases bind_eq_error h with failed | ⟨_, -, h⟩
  · exact ⟨"proof", by simp [functions], failed⟩
  · cases h

/-- Where all entries are there, each message has a function that takes it. -/
theorem ofEntries_eq_ok {entries : List Json} {contract : String} {abi : AbiDefinitions}
    (h : ofEntries entries contract = .ok abi) : ∀ function ∈ functions, ∃ j,
      firstInput entries contract function = .ok j := by
  obtain ⟨request, response, proof⟩ := ofEntries_eq_ok_iff.mp h
  simp [functions, request, response, proof]

section Shapes

variable {s : Settings} {compiled : Path}

theorem failsFor_load {file interface : String}
    (temporary : Text.dropEndString? ending (Text.dropEnds ".sol" file) = some interface) :
    (load (artifactPath compiled file) (Text.dropEnds ".sol" file)).FailsFor files
    (FileFault files compiled file) := by
  refine failsFor_readText (fun _ unread => .unreadable temporary unread) fun text read => ?_
  cases parsed : (Json.parse text).bind entriesOf with
  | none => exact failsFor_fail (.malformed temporary read parsed)
  | some entries =>
      show (Plan.ofExcept (orFail .load
        (ofEntries entries (Text.dropEnds ".sol" file)))).FailsFor files _
      cases made : ofEntries entries (Text.dropEnds ".sol" file) with
      | error error =>
          obtain ⟨function, hfunction, failed⟩ := ofEntries_eq_error made
          exact failsFor_fail (FileFault.missingEntry temporary read parsed hfunction failed)
      | ok abi =>
          refine failsFor_pure abi fun failure fault => ?_
          cases fault with
          | unreadable _ unread => cases read.symm.trans unread
          | malformed _ read' unparsed =>
              cases read.symm.trans read'
              cases parsed.symm.trans unparsed
          | missingEntry _ read' parsed' hfunction failed =>
              cases read.symm.trans read'
              cases parsed.symm.trans parsed'
              obtain ⟨j, found⟩ := ofEntries_eq_ok made _ hfunction
              cases found.symm.trans failed

theorem failsFor_addFile (found : NameMap AbiDefinitions) (file : String) :
    (addFile compiled found file).FailsFor files (FileFault files compiled file) := by
  cases temporary : Text.dropEndString? ending (Text.dropEnds ".sol" file) with
  | none =>
      have step : addFile compiled found file = (do
          Plan.log (foreignFile file)
          return found) := by
        rw [addFile, temporary]
      rw [step]
      refine failsFor_log (failsFor_pure found fun failure fault => ?_)
      cases fault with
      | unreadable temporary' => cases temporary.symm.trans temporary'
      | malformed temporary' => cases temporary.symm.trans temporary'
      | missingEntry temporary' => cases temporary.symm.trans temporary'
  | some interface =>
      have step : addFile compiled found file = (do
          let abis ← load (artifactPath compiled file) (Text.dropEnds ".sol" file)
          return found.insert (TypeName.ofFile interface) abis) := by
        rw [addFile, temporary, artifactPath]
      rw [step]
      exact (failsFor_load temporary).bind_pure (keepsFiles_load _ _) _

theorem failsFor_loadAll : (loadAll s).FailsFor files (Fault files s) := by
  refine failsFor_filesEnding (fun _ unlisted => .unlisted unlisted) fun entries listed => ?_
  refine (failsFor_foldlM (keepsFiles_addFile _) (fun found file _ =>
    failsFor_addFile found file) _).congr fun failure => ?_
  constructor
  · rintro ⟨file, hfile, fault⟩
    exact .artifact listed hfile fault
  · intro fault
    cases fault with
    | unlisted unlisted => cases listed.symm.trans unlisted
    | artifact listed' hfile fault =>
        cases listed.symm.trans listed'
        exact ⟨_, hfile, fault⟩

end Shapes

end Abi

/-! ## Records -/

namespace TypeRecord

/-- What is wrong with the record in a file. -/
inductive FileFault (files : FileTree) (dir : Path) (file : String) : Failure → Prop where
  | unreadable {e : IoError} : files.readText (dir.entry file) = .error e →
      FileFault files dir file ⟨[s!"Failed to read config {(dir.entry file).text}"], .io e⟩
  | malformed {text : String} : files.readText (dir.entry file) = .ok text →
      parse text = none →
      FileFault files dir file ⟨[s!"Failed to parse config {(dir.entry file).text}"], .json⟩

/-- What is wrong with a directory of records. -/
inductive Fault (files : FileTree) (dir : Path) : Failure → Prop where
  | unlisted {e : IoError} : files.list dir = .error e →
      Fault files dir ⟨[s!"Failed to read directory {dir.text}"], .io e⟩
  | record {entries : List DirEntry} {file : String} {failure : Failure} :
      files.list dir = .ok entries →
      file ∈ fileNames ".json" entries → FileFault files dir file failure →
      Fault files dir failure

section Records

variable {dir : Path}

theorem failsFor_addFile (found : NameMap TypeRecord) (file : String) :
    (addFile dir none found file).FailsFor files (FileFault files dir file) := by
  have step : addFile dir none found file = (do
      let record ← load (dir.entry file)
      return found.insert (Text.dropEnds ".json" file) record) := rfl
  rw [step]
  refine FailsFor.bind_pure (failsFor_readText (fun _ unread => .unreadable unread) fun text
    read => ?_)
    (keepsFiles_load _) _
  cases parsed : parse text with
  | none => exact failsFor_fail (FileFault.malformed read parsed)
  | some record =>
      refine failsFor_pure record fun failure fault => ?_
      cases fault with
      | unreadable unread => cases read.symm.trans unread
      | malformed read' unparsed =>
          cases read.symm.trans read'
          cases parsed.symm.trans unparsed

/-- Where no type is named all records of a directory are loaded. -/
theorem failsFor_loadAll : (loadAll dir none).FailsFor files (Fault files dir) := by
  refine failsFor_filesEnding (fun _ unlisted => .unlisted unlisted) fun entries listed => ?_
  refine (failsFor_foldlM (keepsFiles_addFile dir none) (fun found file _ =>
    failsFor_addFile found file) _).congr
    fun failure => ?_
  constructor
  · rintro ⟨file, hfile, fault⟩
    exact .record listed hfile fault
  · intro fault
    cases fault with
    | unlisted unlisted => cases listed.symm.trans unlisted
    | record listed' hfile fault =>
        cases listed.symm.trans listed'
        exact ⟨_, hfile, fault⟩

end Records

end TypeRecord

/-! ## Commands -/

/-- What is wrong with the inputs of a command. -/
inductive Command.Fault (files : FileTree) (s : Settings) : Command → Failure → Prop where
  | types {type : Option String} {outPath abiOutPath : Option Path} {failure : Failure} :
      TypeUnit.Fault files s failure → Fault files s (.config type outPath abiOutPath) failure
  | shapes {type : Option String} {outPath abiOutPath : Option Path} {failure : Failure} :
      Abi.Fault files s failure → Fault files s (.config type outPath abiOutPath) failure
  | dto {outPath : Option Path} {failure : Failure} :
      TypeUnit.Fault files s failure → Fault files s (.dto outPath) failure
  | tsType {type : Option String} {outPath : Option Path} {failure : Failure} :
      TypeRecord.Fault files (s.resolve s.locations.configs) failure →
      Fault files s (.tsType type outPath) failure

/-- What is wrong with the inputs of an invocation: the settings file, or what the command
loads. -/
inductive Invocation.Fault (files : FileTree) (e : Environment) (i : Invocation) : Failure →
    Prop where
  | settings {failure : Failure} : SettingsFile.Fault files i.root i.config failure →
      Fault files e i failure
  | command {file : SettingsFile} {failure : Failure} :
      SettingsFile.Found files i.root i.config file →
      i.command.Fault files (file.settings e i.root) failure → Fault files e i failure

/-- A command gives up on a fault of its inputs before it changes anything. -/
theorem Command.givesUpFor_plan (here : Path) (s : Settings) (c : Command) :
    (c.plan here s).GivesUpFor files (c.Fault files s) := by
  cases c with
  | config type outPath abiOutPath =>
      refine (givesUpFor_bind (TypeUnit.keepsFiles_loadAll s) TypeUnit.failsFor_loadAll fun _ _
        _ _ =>
        Abi.failsFor_loadAll.givesUpFor_bind (Abi.keepsFiles_loadAll s)).congr fun failure =>
        ?_
      constructor
      · exact fun fault => fault.elim .types .shapes
      · intro fault
        cases fault with
        | types fault => exact .inl fault
        | shapes fault => exact .inr fault
  | dto outPath =>
      exact (TypeUnit.failsFor_loadAll.givesUpFor_bind (TypeUnit.keepsFiles_loadAll s)).congr
        fun failure =>
        ⟨.dto, fun (.dto fault) => fault⟩
  | tsType type outPath =>
      exact (TypeRecord.failsFor_loadAll.givesUpFor_bind
        (TypeRecord.keepsFiles_loadAll _ none)).congr fun failure =>
        ⟨.tsType, fun (.tsType fault) => fault⟩
  | _ => exact givesUpFor_of_forall_not _ nofun

/-- **A run that cannot load its inputs changes nothing**: it ends with what is wrong with one
of them, and all files and directories are as before.  Where several inputs are wrong, it ends
with the first one that it loads. -/
theorem Invocation.unchanged_of_fault (here : Path) (e : Environment) (i : Invocation)
    (w : Workspace)
    (h : ∃ failure, i.Fault w.files e failure) :
    ∃ failure, i.Fault w.files e failure ∧ ((i.plan here e).runIn w).1 = .error failure ∧
      ((i.plan here e).runIn w).2.files = w.files := by
  have givesUp : (i.plan here e).GivesUpFor w.files (i.Fault w.files e) := by
    refine (@givesUpFor_bind _ _ _ _ (fun failure => ∃ file,
      SettingsFile.Found w.files i.root i.config file ∧
        i.command.Fault w.files (file.settings e i.root) failure) _ _
          (Settings.keepsFiles_load e i.root i.config)
      SettingsFile.failsFor_loadSettings fun v s hv run => ?_).congr fun failure => ?_
    · obtain ⟨v', loaded⟩ := exists_runIn_ok run
      obtain ⟨file, found, rfl⟩ := SettingsFile.found_of_load loaded
      rw [hv] at found
      refine (givesUpFor_log (i.command.givesUpFor_plan here _)).congr fun failure =>
        ⟨fun fault => ⟨file, found, fault⟩, ?_⟩
      rintro ⟨file', found', fault⟩
      rwa [found.unique found']
    · constructor
      · exact fun fault => fault.elim .settings fun ⟨_, found, fault⟩ => .command found fault
      · intro fault
        cases fault with
        | settings fault => exact .inl fault
        | command found fault => exact .inr ⟨_, found, fault⟩
  exact givesUp w rfl h

/-- The usual project after two builds, with a record that nothing can be read from. -/
def twiceBuilt : FileTree where
  nodes := usualTree.nodes ++ [(["p", "artifacts", "build-info", "U.json"],
    .file (.text usualBuild.pretty)),
    (["p", "generated"], .dir), (["p", "generated", "config"], .dir),
    (["p", "generated", "config", "Old.json"], .file (.text ""))]
  distinct := by decide

/-- The command fails in such a project, and all files and directories are as before. -/
def Command.StandsStill (c : Command) : Prop :=
  ∃ failure, (((Invocation.mk ⟨"p"⟩ none c).plan ⟨"/"⟩ {}).runIn { files := twiceBuilt }).1
    = .error failure ∧
    (((Invocation.mk ⟨"p"⟩ none c).plan ⟨"/"⟩ {}).runIn { files := twiceBuilt }).2.files
      = twiceBuilt

/-- Neither the records nor the scripts nor the declarations of such a project are written, and
its old record stays. -/
theorem Invocation.unchanged_of_fault_twiceBuilt :
    (Command.config none none none).StandsStill ∧ (Command.dto none).StandsStill ∧
      (Command.tsType none none).StandsStill := by
  have unchanged : ∀ c : Command, (∃ failure, c.Fault twiceBuilt usualSettings failure) →
    c.StandsStill := by
    rintro c ⟨failure, fault⟩
    have absent : twiceBuilt.exists ((⟨"p"⟩ : Path).entry SettingsFile.usualName) = false :=
      rfl
    obtain ⟨failure', -, gaveUp⟩ :=
      Invocation.unchanged_of_fault ⟨"/"⟩ {} ⟨⟨"p"⟩, none, c⟩ { files := twiceBuilt }
      ⟨failure, .command (.usual rfl absent) fault⟩
    exact ⟨failure', gaveUp⟩
  have builds : TypeUnit.Fault twiceBuilt usualSettings _ :=
    .build (.count (show twiceBuilt.list _ = .ok [⟨"T.json", true⟩, ⟨"U.json", true⟩] from rfl)
      (by decide))
  have record : TypeRecord.Fault twiceBuilt ⟨"p/generated/config"⟩ _ :=
    .record (show twiceBuilt.list _ = .ok [⟨"Old.json", true⟩] from rfl)
      (mem_fileNames_iff.mpr ⟨List.mem_cons_self, rfl⟩)
      (.malformed (show twiceBuilt.readText _ = .ok "" from rfl) rfl)
  refine ⟨?config, ?dto, ?tsType⟩
  case config => exact unchanged _ ⟨_, .types builds⟩
  case dto => exact unchanged _ ⟨_, .dto builds⟩
  case tsType => exact unchanged _ ⟨_, .tsType record⟩

end Attestation
