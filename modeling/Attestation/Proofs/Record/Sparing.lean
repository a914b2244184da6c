import Attestation.Command.Run
import Attestation.Proofs.Path.Entry
import Attestation.Proofs.Record.Kept
import Attestation.Proofs.Workspace.Sparing

/-!
# What writing records leaves alone

The directory of records is disposable: without a type it is removed before all records are
written.  Apart from it only the files of types that are meant are written, however the run
ends (`Invocation.spares_config`).

## Main definitions

* `TypeRecord.outputs`: the places of the files of types that are meant.
* `TypeRecord.atRisk`: those, and what lies in a directory of records that is removed.

## Design notes

A run may fail behind any request, and what it has done by then is done.  So the statement is
not about successful runs: `Plan.SparesIn` says of a plan that it spares the files outside of
some places whether it succeeds or not, and is composed along the binds of the plan.

The places that are removed are those of the tree at the start.  The directory may hold inputs,
in which case these are removed as well (`exists_config_destroys`).
-/

namespace Attestation

open FileTree Plan

namespace TypeRecord

/-- The places that the files of the types of a project have, as far as the types are meant. -/
def outputs (s : Settings) (files : FileTree) (specific : Option String) (dir abiDir : Path) :
    Set Place :=
  {q | ∃ file content,
    files.get? (placeOf (s.resolve s.locations.typeInterfaceDefinitions) ++ [file])
      = some (.file content) ∧
    TypeName.isMeant specific (TypeName.ofFile file) = true ∧
    (q = placeOf (dir.entry (fileName (TypeName.ofFile file))) ∨
      q = placeOf (abiDir.entry (fileName (TypeName.ofFile file))))}

/-- The places of files that writing records may change: all that lies below the directory of
records if that is removed, and the outputs of the types that are meant. -/
def atRisk (s : Settings) (files : FileTree) (specific : Option String)
    (outPath abiOutPath : Option Path) :
    Set Place :=
  {q | specific = none ∧ isBelow (placeOf (s.resolve (outPath.getD s.locations.configs))) q
    = true} ∪
    outputs s files specific (s.resolve (outPath.getD s.locations.configs))
      (s.resolve (abiOutPath.getD s.locations.abi))

variable {s : Settings} {specific : Option String} {outPath abiOutPath : Option Path}
  {w : Workspace} {places : Set Place}

theorem sparesIn_clearDir {dir : Path} (h : specific = none →
    ∀ q, isBelow (placeOf dir) q = true → q ∈ places) :
    (clearDir specific dir).SparesIn w places := by
  unfold clearDir
  split
  · next none_ =>
      refine sparesIn_bind (keepsFiles_exists _).sparesIn fun there v _ => ?_
      split
      · exact sparesIn_bind (sparesIn_removeTree (h (Option.isNone_iff_eq_none.mp none_)))
          fun _ _ _ =>
          (keepsFiles_log _).sparesIn
      · exact (keepsFiles_pure _).sparesIn
  · exact (keepsFiles_pure _).sparesIn

theorem sparesIn_writeUnit {dir abiDir : Path} {t : TypeUnit}
    (h : placeOf (dir.entry (fileName t.name)) ∈ places)
    (h' : placeOf (abiDir.entry (fileName t.name)) ∈ places) (abis : NameMap AbiDefinitions)
    (w : Workspace) :
    (writeUnit dir abiDir abis t).SparesIn w places := by
  unfold writeUnit
  refine sparesIn_bind (TypeUnit.keepsFiles_record t).sparesIn fun record v _ => ?_
  split
  · exact (keepsFiles_fail _).sparesIn
  · exact sparesIn_bind (sparesIn_writeGenerated h) fun _ v _ =>
      sparesIn_bind (sparesIn_writeGenerated h') fun _ v _ => (keepsFiles_pure _).sparesIn

/-- Writing records spares all files that are not at risk. -/
theorem sparesIn_writeAll :
    (writeAll s specific outPath abiOutPath).SparesIn w
    (atRisk s w.files specific outPath abiOutPath) := by
  unfold writeAll
  refine sparesIn_bind (TypeUnit.keepsFiles_loadAll s).sparesIn fun units v loaded => ?_
  refine sparesIn_bind (Abi.keepsFiles_loadAll s).sparesIn fun abis v' _ => ?_
  refine sparesIn_bind (sparesIn_clearDir fun none_ q below => .inl ⟨none_, below⟩) fun _ v''
    _ => ?_
  dsimp only
  refine sparesIn_bind (sparesIn_foldlM (fun abis t v ht => ?_) _ _) fun _ v _ => ?_
  · obtain ⟨ht, meant⟩ := List.mem_filter.mp ht
    obtain ⟨hname, content, there⟩ := (TypeUnit.exists_file_of_loadAll loaded).2 t ht
    rw [hname] at meant
    refine sparesIn_writeUnit (.inr ⟨t.file, content, there, meant, .inl ?_⟩)
      (.inr ⟨t.file, content, there, meant, .inr ?_⟩) abis v
    · rw [hname]
    · rw [hname]
  · refine sparesIn_bind (keepsFiles_log _).sparesIn fun _ v _ => ?_
    split
    · exact (keepsFiles_log _).sparesIn
    · exact (keepsFiles_pure _).sparesIn

/-- The files of types are no Solidity files. -/
theorem not_suffix_of_mem_outputs {files : FileTree} {dir abiDir : Path} {place : Place}
    {file : String}
    (h : place ++ [file] ∈ outputs s files specific dir abiDir) :
    ¬ ".sol".toList <:+ file.toList := by
  have named : ∀ (within : Path) (name : String), place ++ [file]
      = placeOf (within.entry (fileName name)) →
      ".json".toList <:+ file.toList := by
    intro within name same
    have ends : ".json".toList <:+ (within.entry (fileName name)).text.toList := by
      refine List.IsSuffix.trans ?_ (Path.suffix_entry within _)
      rw [fileName, String.toList_append]
      exact List.suffix_append _ _
    obtain ⟨front, last, cut, hlast⟩ := exists_placeOf_of_suffix ends (by decide) (by decide)
    rw [cut] at same
    rwa [(List.append_inj_right' same rfl |> List.singleton_inj.mp)]
  obtain ⟨interface, -, -, -, same⟩ := h
  have json : ".json".toList <:+ file.toList := same.elim (named dir _) (named abiDir _)
  intro sol
  obtain ⟨u, hu⟩ := json
  obtain ⟨v, hv⟩ := sol
  have last := congrArg List.getLast? (hu.trans hv.symm)
  simp at last

end TypeRecord

/-! ## A run of one type -/

namespace TypeRecord

variable {s : Settings} {specific : Option String} {outPath abiOutPath : Option Path}
  {w v v' : Workspace}

theorem exists_runIn_writeUnit (dir abiDir : Path) {t : TypeUnit} {record : TypeRecord}
    {abis : NameMap AbiDefinitions} {abi : AbiDefinitions} {parent parent' : Path}
    {between config made after : FileTree} (hrecord : t.record.runIn w = (.ok record, v))
    (habi : abis.get? t.name = some abi)
    (hparent : (dir.entry (fileName t.name)).parent = some parent)
    (hparent' : (abiDir.entry (fileName t.name)).parent = some parent')
    (first : v.files.makeDirs parent = .ok between)
    (second : between.write (dir.entry (fileName t.name)) (record.withAbis abi).render
      = .ok config)
    (third : config.makeDirs parent' = .ok made)
    (fourth : made.write (abiDir.entry (fileName t.name)) abi.response.pretty = .ok after) :
    ∃ w', (writeUnit dir abiDir abis t).runIn w = (.ok (abis.erase t.name), w') ∧
      w'.files = after := by
  obtain ⟨v₁, wrote, files⟩ := exists_runIn_writeGenerated hparent first second
  obtain ⟨v₂, wrote', files'⟩ := exists_runIn_writeGenerated hparent' (files ▸ third) fourth
  refine ⟨v₂, ?_, files'⟩
  rw [writeUnit, runIn_bind_of_ok hrecord, habi]
  exact (runIn_bind_of_ok wrote).trans (runIn_bind_of_ok wrote')

theorem exists_runIn_writeAll {t : TypeUnit} {abis abis' : NameMap AbiDefinitions}
    (types : (TypeUnit.loadAll s).runIn w = (.ok [t], w))
    (shapes : (Abi.loadAll s).runIn w = (.ok abis, w))
    (cleared : (clearDir specific (s.resolve (outPath.getD s.locations.configs))).runIn w
      = (.ok (), v))
    (meant : TypeName.isMeant specific t.name = true)
    (written : (writeUnit (s.resolve (outPath.getD s.locations.configs))
      (s.resolve (abiOutPath.getD s.locations.abi))
      abis t).runIn v = (.ok abis', v')) :
    ∃ w', (writeAll s specific outPath abiOutPath).runIn w = (.ok (), w') ∧
      w'.files = v'.files := by
  have one : ([t].filter fun t => TypeName.isMeant specific t.name) = [t] := by
    rw [List.filter_cons_of_pos (by exact meant), List.filter_nil]
  rw [writeAll, runIn_bind_of_ok types, runIn_bind_of_ok shapes, runIn_bind_of_ok cleared]
  dsimp only
  rw [one, List.foldlM_cons]
  have folded : ∀ f : NameMap AbiDefinitions → TypeUnit → Plan (NameMap AbiDefinitions),
    f abis t = writeUnit
      (s.resolve (outPath.getD s.locations.configs))
      (s.resolve (abiOutPath.getD s.locations.abi)) abis t →
      (f abis t >>= fun abis => [].foldlM f abis).runIn v = (.ok abis', v') := by
    intro f same
    rw [same, runIn_bind_of_ok written]
    rfl
  rw [runIn_bind_of_ok (folded _ rfl)]
  exact ⟨_, rfl, rfl⟩

/-- The run for the only type writes its record and the shape of its response. -/
theorem exists_runIn_writeAll_of_steps (dir abiDir : Path) {t : TypeUnit} {record : TypeRecord}
    {abis : NameMap AbiDefinitions} {abi : AbiDefinitions} {parent parent' : Path}
    {between config made after : FileTree}
    (types : (TypeUnit.loadAll s).runIn w = (.ok [t], w))
    (shapes : (Abi.loadAll s).runIn w = (.ok abis, w))
    (hdir : s.resolve (outPath.getD s.locations.configs) = dir)
    (habiDir : s.resolve (abiOutPath.getD s.locations.abi) = abiDir)
    (cleared : (clearDir specific dir).runIn w = (.ok (), v))
    (meant : TypeName.isMeant specific t.name = true)
    (hrecord : t.record.runIn v = (.ok record, v')) (habi : abis.get? t.name = some abi)
    (hparent : (dir.entry (fileName t.name)).parent = some parent)
    (hparent' : (abiDir.entry (fileName t.name)).parent = some parent')
    (first : v.files.makeDirs parent = .ok between)
    (second : between.write (dir.entry (fileName t.name)) (record.withAbis abi).render
      = .ok config)
    (third : config.makeDirs parent' = .ok made)
    (fourth : made.write (abiDir.entry (fileName t.name)) abi.response.pretty = .ok after) :
    ∃ w', (writeAll s specific outPath abiOutPath).runIn w = (.ok (), w') ∧
      w'.files = after := by
  subst hdir habiDir
  rw [← t.keepsFiles_record.files_eq hrecord] at first
  obtain ⟨v₁, unit, files⟩ :=
    exists_runIn_writeUnit _ _ hrecord habi hparent hparent' first second third fourth
  obtain ⟨w', ran, same⟩ := exists_runIn_writeAll types shapes cleared meant unit
  exact ⟨w', ran, same.trans files⟩

end TypeRecord

/-! ## Runs -/

theorem SettingsFile.keepsFiles_load (path : Path) : (load path).KeepsFiles := by
  refine keepsFiles_bind (keepsFiles_readText _ _) fun text => ?_
  split
  · exact keepsFiles_pure _
  · exact keepsFiles_fail _

theorem Settings.keepsFiles_load (e : Environment) (root : Path) (named : Option Path) :
    (Settings.load e root named).KeepsFiles := by
  refine keepsFiles_bind ?_ fun found => ?_
  · unfold SettingsFile.find
    split
    · refine keepsFiles_bind (keepsFiles_exists _) fun there => ?_
      split
      · exact keepsFiles_pure _
      · exact keepsFiles_fail _
    · refine keepsFiles_bind (keepsFiles_exists _) fun there => ?_
      split
      · exact keepsFiles_pure _
      · exact keepsFiles_pure _
  · split
    · exact keepsFiles_bind (keepsFiles_log _) fun _ =>
        keepsFiles_bind (SettingsFile.keepsFiles_load _) fun _ => keepsFiles_pure _
    · exact keepsFiles_pure _

/-- **A run that writes records spares all files that are not at risk**, however it ends.  A
Solidity file is only at risk in a directory of records that is removed, because no output has
its ending.  Nothing is asked of the settings, the files or the options. -/
theorem Invocation.spares_config (here : Path) (e : Environment) (root : Path)
    (config : Option Path)
    (specific : Option String) (outPath abiOutPath : Option Path) (w : Workspace) :
    let after := ((Invocation.plan here e ⟨root, config,
      .config specific outPath abiOutPath⟩).runIn w).2.files
    after = w.files ∨ ∃ s v, (Settings.load e root config).runIn w = (.ok s, v) ∧
      Spares w.files after (TypeRecord.atRisk s w.files specific outPath abiOutPath) ∧
      ∀ dir file content, ".sol".toList <:+ file.toList → w.files.get? (dir ++ [file])
        = some (.file content) →
        ¬ (specific = none ∧
          isBelow (placeOf (s.resolve (outPath.getD s.locations.configs))) (dir ++ [file])
            = true) →
        after.get? (dir ++ [file]) = some (.file content) := by
  intro after
  have run : after = (((Settings.load e root config).bind _).runIn w).2.files := rfl
  rw [runIn_bind] at run
  -- Without settings nothing is at risk, since loading them changes no file.
  cases loaded : (Settings.load e root config).runIn w with
  | mk result v =>
      have same : v.files = w.files := (Settings.keepsFiles_load e root config).files_eq loaded
      rw [loaded] at run
      cases result with
      | error failure => exact .inl (run.trans same)
      | ok s =>
          have logged : ∀ event, (Plan.log event >>= fun _ =>
            TypeRecord.writeAll s specific outPath abiOutPath).SparesIn v
              (TypeRecord.atRisk s v.files specific outPath abiOutPath) := by
            intro event
            refine sparesIn_bind (keepsFiles_log event).sparesIn fun _ v' logged => ?_
            have kept : v'.files = v.files := (keepsFiles_log event).files_eq logged
            rw [← kept]
            exact TypeRecord.sparesIn_writeAll
          have spared : Spares w.files after (TypeRecord.atRisk s w.files specific outPath
            abiOutPath) := by
            rw [run, ← same]
            exact logged _
          refine .inr ⟨s, v, rfl, spared, fun dir file content sol found outside =>
            spared _ _ ?_ found⟩
          rintro (below | output)
          · exact outside below
          · exact TypeRecord.not_suffix_of_mem_outputs output sol

/-! ## A directory of records that holds inputs -/

/-- The build of the small interface at the usual place. -/
def usualBuild : Json := TypeRecord.smallBuild "contracts/interfaces/types/IT.sol"

/-- A project of one interface without settings. -/
def usualTree : FileTree where
  nodes := [(["p"], .dir), (["p", "contracts"], .dir),
    (["p", "contracts", "interfaces"], .dir),
    (["p", "contracts", "interfaces", "types"], .dir),
    (["p", "contracts", "interfaces", "types", "IT.sol"], .file (.text "")),
    (["p", "contracts", "generated"], .dir),
    (["p", "contracts", "generated", "temporary"], .dir),
    (["p", "contracts", "generated", "temporary", "ITTemporary.sol"], .file (.text "")),
    (["p", "artifacts"], .dir), (["p", "artifacts", "build-info"], .dir),
    (["p", "artifacts", "build-info", "T.json"], .file (.text usualBuild.pretty)),
    (["p", "artifacts", "contracts"], .dir),
    (["p", "artifacts", "contracts", "generated"], .dir),
    (["p", "artifacts", "contracts", "generated", "temporary"], .dir),
    (["p", "artifacts", "contracts", "generated", "temporary", "ITTemporary.sol"], .dir),
    (["p", "artifacts", "contracts", "generated", "temporary", "ITTemporary.sol",
      "ITTemporary.json"],
      .file (.text TypeRecord.smallArtifact.pretty))]

/-- The settings of the project. -/
def usualSettings : Settings := ⟨⟨"p"⟩, {}, {}, none⟩

section Usual

variable {w : Workspace}

/-- The build holds the interface under its path from the root. -/
theorem runIn_loadBuild_usual
    (builds : w.files.list ⟨"p/artifacts/build-info"⟩ = .ok [⟨"T.json", true⟩])
    (build : w.files.readText ⟨"p/artifacts/build-info/T.json"⟩ = .ok usualBuild.pretty) :
    (BuildInfo.load usualSettings).runIn w
      = (.ok ⟨NameMap.ofList [("contracts/interfaces/types/IT.sol",
        TypeRecord.smallType.tree)]⟩, w) := by
  refine runIn_bind_ok_iff.mpr ⟨[⟨"T.json", true⟩], w, runIn_list_ok_iff.mpr ⟨builds, rfl⟩, ?_⟩
  refine runIn_bind_ok_iff.mpr ⟨usualBuild.pretty, w,
    runIn_readText_ok_iff.mpr ⟨build, rfl⟩, ?_⟩
  rw [usualBuild, Json.parse_pretty (TypeRecord.fits_smallBuild _)]
  rfl

/-- The interface is found where the settings say. -/
theorem runIn_loadTypes_usual
    (builds : w.files.list ⟨"p/artifacts/build-info"⟩ = .ok [⟨"T.json", true⟩])
    (build : w.files.readText ⟨"p/artifacts/build-info/T.json"⟩ = .ok usualBuild.pretty)
    (interfaces : w.files.list ⟨"p/contracts/interfaces/types"⟩ = .ok [⟨"IT.sol", true⟩]) :
    (TypeUnit.loadAll usualSettings).runIn w = (.ok [TypeRecord.smallType], w) := by
  refine runIn_bind_ok_iff.mpr ⟨_, w, runIn_loadBuild_usual builds build, ?_⟩
  refine runIn_bind_ok_iff.mpr ⟨["IT.sol"], w, ?_, ?_⟩
  · refine runIn_bind_ok_iff.mpr ⟨[⟨"IT.sol", true⟩], w,
      runIn_list_ok_iff.mpr ⟨interfaces, rfl⟩, ?_⟩
    exact runIn_pure_ok_iff.mpr ⟨List.mergeSort_singleton _, rfl⟩
  · refine runIn_bind_ok_iff.mpr ⟨[TypeRecord.smallType], w,
      runIn_ofExcept_ok_iff.mpr ⟨rfl, rfl⟩, ?_⟩
    exact runIn_pure_ok_iff.mpr ⟨List.mergeSort_singleton _, rfl⟩

/-- The shapes are found in what the compiler made of the temporary contract. -/
theorem runIn_loadShapes_usual {artifact : Json} {entries : List Json} {abi : AbiDefinitions}
    (fits : Json.Fits Json.maxDepth artifact) (listed : Abi.entriesOf artifact = some entries)
    (made : Abi.ofEntries entries "ITTemporary" = .ok abi)
    (contracts : w.files.list ⟨"p/contracts/generated/temporary"⟩
      = .ok [⟨"ITTemporary.sol", true⟩])
    (compiled : w.files.readText ⟨"p/artifacts/contracts/generated/temporary/ITTemporary.sol/ITTemporary.json"⟩
      = .ok artifact.pretty) :
    (Abi.loadAll usualSettings).runIn w = (.ok (NameMap.empty.insert "T" abi), w) := by
  refine runIn_bind_ok_iff.mpr ⟨["ITTemporary.sol"], w, ?_, ?_⟩
  · refine runIn_bind_ok_iff.mpr ⟨[⟨"ITTemporary.sol", true⟩], w,
      runIn_list_ok_iff.mpr ⟨contracts, rfl⟩, ?_⟩
    exact runIn_pure_ok_iff.mpr ⟨List.mergeSort_singleton _, rfl⟩
  · refine runIn_bind_ok_iff.mpr ⟨NameMap.empty.insert "T" abi, w, ?_, rfl⟩
    refine runIn_bind_ok_iff.mpr ⟨abi, w, ?_, rfl⟩
    refine runIn_bind_ok_iff.mpr ⟨artifact.pretty, w,
      runIn_readText_ok_iff.mpr ⟨compiled, rfl⟩, ?_⟩
    rw [Json.parse_pretty fits, Option.bind_some, listed]
    exact runIn_ofExcept_ok_iff.mpr ⟨orFail_eq_ok_iff.mpr made, rfl⟩

variable (hw : w.files = usualTree)
include hw

theorem runIn_loadTypes_usualTree :
    (TypeUnit.loadAll usualSettings).runIn w = (.ok [TypeRecord.smallType], w) :=
  runIn_loadTypes_usual (by rw [hw]; rfl) (by rw [hw]; rfl) (by rw [hw]; rfl)

theorem runIn_loadShapes_usualTree :
    (Abi.loadAll usualSettings).runIn w = (.ok TypeRecord.smallShapes, w) := by
  have fits : Json.Fits Json.maxDepth TypeRecord.smallArtifact := by
    simp [TypeRecord.smallArtifact, Json.maxDepth]
  exact runIn_loadShapes_usual fits rfl rfl (by rw [hw]; rfl) (by rw [hw]; rfl)

end Usual

/-- The invocation that writes records of the usual project. -/
def usualInvocation (specific : Option String) (outPath abiOutPath : Option Path) :
    Plan Unit :=
  Invocation.plan ⟨"/"⟩ {} ⟨⟨"p"⟩, none, .config specific outPath abiOutPath⟩

theorem exists_runIn_usualInvocation (specific : Option String)
    (outPath abiOutPath : Option Path) :
    ∃ events, (usualInvocation specific outPath abiOutPath).runIn { files := usualTree }
      = (TypeRecord.writeAll usualSettings specific outPath abiOutPath).runIn
        { files := usualTree, events := events } := by
  have loaded : (Settings.load {} ⟨"p"⟩ none).runIn { files := usualTree }
      = (.ok usualSettings, { files := usualTree }) :=
    rfl
  rw [usualInvocation, Invocation.plan, runIn_bind_of_ok loaded]
  exact ⟨_, runIn_bind_of_ok rfl⟩

section Runs

variable {events : List Log.Event}

theorem runIn_writeAll_clears : ∃ w',
    (TypeRecord.writeAll usualSettings none (some ⟨"contracts"⟩) none).runIn
    { files := usualTree, events := events }
      = (.ok (), w') ∧ w'.files.get? ["p", "contracts", "interfaces", "types", "IT.sol"]
        = none := by
  -- The tree behind each request is named, so that no step is computed twice.
  let emptied := usualTree.eraseWhere (isBelow ["p", "contracts"])
  let cleared := emptied.eraseWhere (· = ["p", "contracts"])
  obtain ⟨v, clear, hv⟩ : ∃ v, (TypeRecord.clearDir none ⟨"p/contracts"⟩).runIn
    { files := usualTree, events := events }
      = (.ok (), v) ∧ v.files = cleared := ⟨_, rfl, rfl⟩
  obtain ⟨v', hrecord, -⟩ := TypeRecord.exists_runIn_smallType v
  let between := cleared.set ["p", "contracts"] .dir
  let config := between.set ["p", "contracts", "T.json"]
    (.file (.text (TypeRecord.smallRecord.withAbis
    ⟨.string "request", .string "response", .string "proof"⟩).render))
  let made := (config.set ["p", "generated"] .dir).set ["p", "generated", "abi"] .dir
  let after := made.set ["p", "generated", "abi", "T.json"] (.file (.text "\"response\""))
  have first : v.files.makeDirs ⟨"p/contracts"⟩ = .ok between := by
    rw [hv]
    rfl
  have second : between.write ⟨"p/contracts/T.json"⟩ (TypeRecord.smallRecord.withAbis
      ⟨.string "request", .string "response", .string "proof"⟩).render = .ok config := by rfl
  have third : config.makeDirs ⟨"p/generated/abi"⟩ = .ok made := by rfl
  have fourth : made.write ⟨"p/generated/abi/T.json"⟩ "\"response\"" = .ok after := by rfl
  obtain ⟨w', ran, files⟩ :=
    TypeRecord.exists_runIn_writeAll_of_steps ⟨"p/contracts"⟩ ⟨"p/generated/abi"⟩
    (runIn_loadTypes_usualTree rfl) (runIn_loadShapes_usualTree rfl)
    (show usualSettings.resolve ((some ⟨"contracts"⟩ : Option Path).getD
      usualSettings.locations.configs) = _ from rfl)
    (show usualSettings.resolve ((none : Option Path).getD usualSettings.locations.abi)
      = _ from rfl) clear rfl hrecord
    (rfl : TypeRecord.smallShapes.get? "T" = _) rfl rfl first second third fourth
  refine ⟨w', ran, ?_⟩
  rw [files]
  rfl

theorem runIn_writeAll_overwrites : ∃ w',
    (TypeRecord.writeAll usualSettings (some "T") none (some ⟨"artifacts/build-info"⟩)).runIn
        { files := usualTree, events := events } = (.ok (), w') ∧
      w'.files.get? ["p", "artifacts", "build-info", "T.json"]
        = some (.file (.text "\"response\"")) := by
  -- With a type nothing is cleared.
  obtain ⟨v, clear, hv⟩ : ∃ v, (TypeRecord.clearDir (some "T") ⟨"p/generated/config"⟩).runIn
      { files := usualTree, events := events } = (.ok (), v) ∧ v.files = usualTree :=
      ⟨_, rfl, rfl⟩
  obtain ⟨v', hrecord, -⟩ := TypeRecord.exists_runIn_smallType v
  let between := (usualTree.set ["p", "generated"] .dir).set ["p", "generated", "config"] .dir
  let config := between.set ["p", "generated", "config", "T.json"]
    (.file (.text (TypeRecord.smallRecord.withAbis
    ⟨.string "request", .string "response", .string "proof"⟩).render))
  let after := config.set ["p", "artifacts", "build-info", "T.json"]
    (.file (.text "\"response\""))
  have first : v.files.makeDirs ⟨"p/generated/config"⟩ = .ok between := by
    rw [hv]
    rfl
  have second : between.write ⟨"p/generated/config/T.json"⟩ (TypeRecord.smallRecord.withAbis
      ⟨.string "request", .string "response", .string "proof"⟩).render = .ok config := by rfl
  have third : config.makeDirs ⟨"p/artifacts/build-info"⟩ = .ok config := by rfl
  have fourth : config.write ⟨"p/artifacts/build-info/T.json"⟩ "\"response\"" = .ok after := by
    rfl
  obtain ⟨w', ran, files⟩ := TypeRecord.exists_runIn_writeAll_of_steps ⟨"p/generated/config"⟩
    ⟨"p/artifacts/build-info"⟩ (runIn_loadTypes_usualTree rfl) (runIn_loadShapes_usualTree rfl)
    (show usualSettings.resolve ((none : Option Path).getD usualSettings.locations.configs)
      = _ from rfl)
    (show usualSettings.resolve ((some ⟨"artifacts/build-info"⟩ : Option Path).getD
      usualSettings.locations.abi) = _
      from rfl) clear rfl hrecord (rfl : TypeRecord.smallShapes.get? "T" = _) rfl rfl first
        second third fourth
  refine ⟨w', ran, ?_⟩
  rw [files]
  rfl

end Runs

/-- Records written where the interfaces lie remove them, and the shape of a response written
where the compiler's output lies replaces it: the directories may be chosen so. -/
theorem exists_config_destroys :
    (∃ w', (usualInvocation none (some ⟨"contracts"⟩) none).runIn { files := usualTree }
      = (.ok (), w') ∧
      usualTree.get? ["p", "contracts", "interfaces", "types", "IT.sol"]
        = some (.file (.text "")) ∧
      w'.files.get? ["p", "contracts", "interfaces", "types", "IT.sol"] = none) ∧
    ∃ w', (usualInvocation (some "T") none (some ⟨"artifacts/build-info"⟩)).runIn
      { files := usualTree } = (.ok (), w') ∧
      usualTree.get? ["p", "artifacts", "build-info", "T.json"]
        = some (.file (.text usualBuild.pretty)) ∧
      w'.files.get? ["p", "artifacts", "build-info", "T.json"]
        = some (.file (.text "\"response\"")) ∧
      usualBuild.pretty ≠ "\"response\"" := by
  refine ⟨?_, ?_⟩
  · obtain ⟨events, run⟩ := exists_runIn_usualInvocation none (some ⟨"contracts"⟩) none
    obtain ⟨w', ran, gone⟩ := @runIn_writeAll_clears events
    exact ⟨w', run.trans ran, rfl, gone⟩
  · obtain ⟨events, run⟩ := exists_runIn_usualInvocation (some "T") none
      (some ⟨"artifacts/build-info"⟩)
    obtain ⟨w', ran, replaced⟩ := @runIn_writeAll_overwrites events
    refine ⟨w', run.trans ran, rfl, replaced, fun same => ?_⟩
    have read : Json.parse "\"response\"" = some usualBuild :=
      same ▸ Json.parse_pretty (TypeRecord.fits_smallBuild _)
    have other : Json.parse "\"response\"" = some (.string "response") := rfl
    cases (Option.some.inj (other.symm.trans read) : Json.string "response" = usualBuild)

end Attestation
