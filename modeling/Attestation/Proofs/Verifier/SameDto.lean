import Attestation.Proofs.Record.Sparing
import Attestation.Proofs.Verifier.Installation
import Attestation.Proofs.Verifier.WiringTwice

/-!
# The two ways to a DTO script

The DTO script of a type is made from its syntax tree, and made once more from its record when
a verifier is installed.  Both scripts are the same (`exists_same_dto`), up to what wiring does
with a script that is the app module as well.  They differ when the shapes of responses are
written over the records (`exists_other_dto`).

## Design notes

The record of a type is written with the shapes of its messages, which the syntax tree does not
have.  They do not occur in the classes (`Dto.source_withAbis`), so that it is enough that the
record comes back from its file as it was written, with or without them.

The three runs share a file tree in which paths of the settings may coincide.  What must not
coincide is stated as places and not as paths: the same directory can be written in many ways.
-/

namespace Attestation.Verifier

open FileTree Plan Text

/-! ## A small server -/

/-- The record with one more struct. -/
def otherRecord : TypeRecord :=
  { TypeRecord.smallRecord with requestStructs := TypeRecord.smallRecord.requestStructs ++
    [⟨"Other", "", "", "", none, []⟩] }

/-- What a compiler could make of the temporary contract: the parameter of one function is
described as a record is written. -/
def otherArtifact : Json :=
  .object [("abi", .array ([("request", .string "request"), ("response", otherRecord.toJson),
    ("proof", .string "proof")].map fun (name, input) =>
      .object [("name", .string name), ("inputs", .array [input])]))]

theorem fits_otherArtifact : Json.Fits Json.maxDepth otherArtifact := by
  have structs : ∀ (s : StructRecord) (depth : Nat), 3 ≤ depth → Json.Fits depth s.toJson :=
    fun s _ h => s.fits_toJson.mono h
  simp [otherArtifact, otherRecord, TypeRecord.smallRecord, TypeRecord.toJson,
    structs, textField,
    fieldIfAny, Json.maxDepth]

/-- The shapes in it. -/
def otherShapes : AbiDefinitions := ⟨.string "request", otherRecord.toJson, .string "proof"⟩

theorem hasShapes_otherRecord : TypeRecord.HasShapes otherRecord := by
  rintro j (h | h | h) <;> cases h

/-- The usual project with such an artifact and the repository of a server. -/
def serverTree : FileTree :=
  [["p", "generated"], ["p", "server"], ["p", "server", "src"],
    ["p", "server", "src", "btc"]].foldl
    (fun t place => t.set place .dir)
    ((usualTree.set ["p", "artifacts", "contracts", "generated", "temporary",
      "ITTemporary.sol", "ITTemporary.json"]
      (.file (.text otherArtifact.pretty))).set ["p", "server", "src", "app.module.ts"]
        (.file (.text (String.ofList smallModule))))

/-- The project with a record. -/
def recordedTree (record : String) : FileTree :=
  (serverTree.set ["p", "generated", "config"] .dir).set ["p", "generated", "config", "T.json"]
  (.file (.text record))

/-- The project with a record and the shape of a response. -/
def shapedTree (record shape : String) : FileTree :=
  ((recordedTree record).set ["p", "generated", "abi"] .dir).set
  ["p", "generated", "abi", "T.json"] (.file (.text shape))

/-- The project with a DTO script as well. -/
def scriptedTree (record shape script : String) : FileTree :=
  ((shapedTree record shape).set ["p", "generated", "dto"] .dir).set
  ["p", "generated", "dto", "T.dto.ts"]
    (.file (.text script))

/-- What the settings say about the server: all scripts lie in one directory. -/
def serverOverrides : Overrides where
  repoPath := some ⟨"server"⟩
  dtoRelPath := some ⟨"src"⟩
  dtoGenericRelPath := some ⟨"src"⟩
  servicesRelPath := some ⟨"src"⟩
  controllersRelPath := some ⟨"src"⟩
  controllerTests := some false

/-- The usual settings with such a server and another directory for records. -/
def serverSettings (configs : Path) : Settings :=
  { usualSettings with locations := { configs := configs }, verifier := serverOverrides }

theorem runIn_loadTypes_recorded {w : Workspace} {record : String}
    (hw : w.files = recordedTree record) (configs : Path) :
    (TypeUnit.loadAll (serverSettings configs)).runIn w = (.ok [TypeRecord.smallType], w) :=
  runIn_loadTypes_usual (by rw [hw]; rfl) (by rw [hw]; rfl) (by rw [hw]; rfl)

theorem runIn_loadTypes_shaped {w : Workspace} {record shape : String}
    (hw : w.files = shapedTree record shape)
    (configs : Path) : (TypeUnit.loadAll (serverSettings configs)).runIn w
      = (.ok [TypeRecord.smallType], w) :=
  runIn_loadTypes_usual (by rw [hw]; rfl) (by rw [hw]; rfl) (by rw [hw]; rfl)

theorem runIn_loadShapes_recorded {w : Workspace} {record : String}
    (hw : w.files = recordedTree record) (configs : Path) :
    (Abi.loadAll (serverSettings configs)).runIn w
      = (.ok (NameMap.empty.insert "T" otherShapes), w) :=
  runIn_loadShapes_usual fits_otherArtifact rfl rfl (by rw [hw]; rfl) (by rw [hw]; rfl)

/-- Places of the settings lie in the project. -/
theorem resolve_server {configs dir : Path} (p : Path) (h : (⟨"p"⟩ : Path).join p = dir) :
    (serverSettings configs).resolve p = dir := h

theorem get?_insert_empty {α : Type} (value : α) :
    ((NameMap.empty : NameMap α).insert "T" value).get? "T" = some value := by
  rw [NameMap.get?_insert, if_pos rfl]

theorem nonnull_otherShapes {name : String} {abi : AbiDefinitions}
    (h : (NameMap.empty.insert "T" otherShapes).get? name = some abi) :
    abi.request ≠ .null ∧ abi.response ≠ .null ∧ abi.proof ≠ .null := by
  rw [NameMap.get?_insert] at h
  split at h
  · cases h
    exact ⟨nofun, nofun, nofun⟩
  · cases h

theorem hasShapes_smallRecord :
    TypeRecord.HasShapes (TypeRecord.smallRecord.withAbis otherShapes) :=
  TypeRecord.hasShapes_withAbis TypeRecord.smallRecord
    (Abi.isFound_of_loadAll (@runIn_loadShapes_recorded { files := recordedTree "" } "" rfl
      ⟨"generated/config"⟩)
      (get?_insert_empty _)) (nonnull_otherShapes (get?_insert_empty _))

section Config

variable {w : Workspace} (hw : w.files = recordedTree "")
include hw

/-- A record and a shape are written to directories of their own. -/
theorem exists_config_apart : ∃ w',
    (TypeRecord.writeAll (serverSettings ⟨"generated/config"⟩) none none none).runIn w
      = (.ok (), w') ∧
      w'.files = shapedTree (TypeRecord.smallRecord.withAbis otherShapes).render
        otherRecord.toJson.pretty := by
  obtain ⟨v, clear, hv⟩ : ∃ v, (TypeRecord.clearDir none ⟨"p/generated/config"⟩).runIn w
      = (.ok (), v) ∧
      v.files = serverTree := by
    obtain ⟨files, output, events⟩ := w
    cases hw
    exact ⟨_, rfl, rfl⟩
  obtain ⟨v', hrecord, -⟩ := TypeRecord.exists_runIn_smallType v
  let between := serverTree.set ["p", "generated", "config"] .dir
  let config := recordedTree (TypeRecord.smallRecord.withAbis otherShapes).render
  let made := config.set ["p", "generated", "abi"] .dir
  have first : v.files.makeDirs ⟨"p/generated/config"⟩ = .ok between := by
    rw [hv]
    rfl
  have second : between.write ⟨"p/generated/config/T.json"⟩
    (TypeRecord.smallRecord.withAbis otherShapes).render = .ok config := rfl
  have third : config.makeDirs ⟨"p/generated/abi"⟩ = .ok made := rfl
  have fourth : made.write ⟨"p/generated/abi/T.json"⟩ otherShapes.response.pretty
      = .ok (shapedTree (TypeRecord.smallRecord.withAbis otherShapes).render
        otherRecord.toJson.pretty) := rfl
  exact TypeRecord.exists_runIn_writeAll_of_steps ⟨"p/generated/config"⟩ ⟨"p/generated/abi"⟩
    (runIn_loadTypes_recorded hw _) (runIn_loadShapes_recorded hw _) (resolve_server _ rfl)
    (resolve_server _ rfl) clear
    rfl hrecord (get?_insert_empty _) rfl rfl first second third fourth

/-- A record and a shape are written to the same file. -/
theorem exists_config_together : ∃ w',
    (TypeRecord.writeAll (serverSettings ⟨"generated/abi"⟩) none none none).runIn w
      = (.ok (), w') ∧
      w'.files = shapedTree "" otherRecord.toJson.pretty := by
  obtain ⟨v, clear, hv⟩ : ∃ v, (TypeRecord.clearDir none ⟨"p/generated/abi"⟩).runIn w
      = (.ok (), v) ∧
      v.files = recordedTree "" := by
    obtain ⟨files, output, events⟩ := w
    cases hw
    exact ⟨_, rfl, rfl⟩
  obtain ⟨v', hrecord, -⟩ := TypeRecord.exists_runIn_smallType v
  let between := (recordedTree "").set ["p", "generated", "abi"] .dir
  let config := shapedTree "" (TypeRecord.smallRecord.withAbis otherShapes).render
  have first : v.files.makeDirs ⟨"p/generated/abi"⟩ = .ok between := by
    rw [hv]
    rfl
  have second : between.write ⟨"p/generated/abi/T.json"⟩
    (TypeRecord.smallRecord.withAbis otherShapes).render = .ok config := rfl
  have third : config.makeDirs ⟨"p/generated/abi"⟩ = .ok config := rfl
  have fourth : config.write ⟨"p/generated/abi/T.json"⟩ otherShapes.response.pretty
      = .ok (shapedTree "" otherRecord.toJson.pretty) := rfl
  exact TypeRecord.exists_runIn_writeAll_of_steps ⟨"p/generated/abi"⟩ ⟨"p/generated/abi"⟩
    (runIn_loadTypes_recorded hw _) (runIn_loadShapes_recorded hw _) (resolve_server _ rfl)
    (resolve_server _ rfl) clear
    rfl hrecord (get?_insert_empty _) rfl rfl first second third fourth

end Config

/-- The records have classes, and the additional struct has one in front of the others. -/
theorem exists_classes : ∃ classes, Dto.classes "T" TypeRecord.smallRecord = .ok classes ∧
    Dto.classes "T" otherRecord = .ok (⟨"T_Other", []⟩ :: classes) := by
  have some_ : (Dto.classes "T" TypeRecord.smallRecord).toOption.isSome = true := by
    decide +kernel
  obtain ⟨classes, some_⟩ := Option.isSome_iff_exists.mp some_
  have small := ok_of_toOption some_
  have structs : Dto.structsInOrder otherRecord
      = ⟨"Other", "", "", "", none, []⟩ :: Dto.structsInOrder TypeRecord.smallRecord := rfl
  refine ⟨classes, small, ?_⟩
  rw [Dto.classes] at small
  rw [Dto.classes, structs, List.mapM_cons, small]
  rfl

theorem exists_sources : ∃ script other, Dto.source "T" TypeRecord.smallRecord = .ok script ∧
    Dto.source "T" otherRecord = .ok other ∧ other ≠ script := by
  obtain ⟨classes, small, other⟩ := exists_classes
  exact ⟨Dto.render "T" classes,
    Dto.render "T" (⟨"T_Other", []⟩ :: classes), by rw [Dto.source, small]; rfl,
    by rw [Dto.source, other]; rfl, Dto.render_cons_ne "T" ⟨"T_Other", []⟩ _⟩

/-- The script is written from the syntax tree. -/
theorem exists_dto {w : Workspace} {record shape script : String}
    (hw : w.files = shapedTree record shape)
    (built : Dto.source "T" TypeRecord.smallRecord = .ok script) (configs : Path) :
    ∃ w', (Dto.writeAll (serverSettings configs) none).runIn w = (.ok (), w') ∧
      w'.files = scriptedTree record shape script := by
  obtain ⟨v, hrecord, -⟩ := TypeRecord.exists_runIn_smallType w
  have place : (serverSettings configs).resolve
    ((none : Option Path).getD (serverSettings configs).locations.dto)
      = ⟨"p/generated/dto"⟩ := resolve_server ⟨"generated/dto"⟩ rfl
  have first : w.files.makeDirs ⟨"p/generated/dto"⟩
      = .ok ((shapedTree record shape).set ["p", "generated", "dto"] .dir) := by
    rw [hw]
    rfl
  have second : ((shapedTree record shape).set ["p", "generated", "dto"] .dir).write
    ⟨"p/generated/dto/T.dto.ts"⟩
      script = .ok (scriptedTree record shape script) := rfl
  exact @Dto.exists_runIn_writeAll w (serverSettings configs) none TypeRecord.smallType
    TypeRecord.smallRecord script
    ⟨"p/generated/dto"⟩ v _ _ (runIn_loadTypes_shaped hw _) hrecord built (by rw [place]; rfl)
      first
    (by rw [place]; exact second)

/-- The options for the data source. -/
def serverOptions : Options := serverOverrides.resolve "BTC"

/-- The names of the verifier. -/
def serverNames : Names where
  attestationType := "T"
  dataSource := "BTC"
  classPrefix := "BTCT"
  serviceDir := ⟨"src/btc"⟩
  controllerDir := ⟨"src/btc"⟩
  fileStem := "btc-t-verifier"

/-- The repository of the server. -/
theorem resolve_serverOptions (configs : Path) :
    (serverSettings configs).resolve serverOptions.repoPath = ⟨"p/server"⟩ :=
  resolve_server ⟨"server"⟩ rfl

theorem make_serverOptions : Names.make serverOptions "T" "BTC" = serverNames := by
  decide +kernel

/-- The verifier can be wired into the app module. -/
theorem exists_wire_smallModule :
    ∃ wired, wire ⟨"/"⟩ serverOptions serverNames false smallModule = .ok wired := by
  have isPlain : serverOptions.IsPlain :=
    ⟨isPlain_template.appModule, isPlain_of_splitOn _ rfl (by decide),
      isPlain_of_splitOn _ rfl (by decide)⟩
  have plain : Plain ⟨"/"⟩ serverOptions serverNames :=
    make_serverOptions ▸ plain_make ⟨"/"⟩ isPlain
    ⟨by decide, forall_mem_of_all (by decide)⟩ ⟨by decide, forall_mem_of_all (by decide)⟩
  obtain ⟨-, wired, -, made⟩ :=
    exists_wire_of_merges regular_smallModule plain (by simp [imports_smallModule])
    (by rw [imports_smallModule]; exact ⟨_, rfl⟩)
  exact ⟨wired, made⟩

/-- The only record is loaded. -/
theorem runIn_loadAll_single {w : Workspace} {dir : Path} {text : String} {value : TypeRecord}
    (listed : w.files.list dir = .ok [⟨"T.json", true⟩])
    (read : w.files.readText (dir.entry "T.json") = .ok text)
    (parsed : TypeRecord.parse text = some value) :
    (TypeRecord.loadAll dir (some "T")).runIn w
      = (.ok (NameMap.empty.insert "T" value), w) := by
  have files : (Plan.filesEnding ".json" dir).runIn w = (.ok ["T.json"], w) :=
    runIn_bind_ok_iff.mpr ⟨_, w, runIn_list_ok_iff.mpr ⟨listed, rfl⟩,
      runIn_pure_ok_iff.mpr ⟨List.mergeSort_singleton _, rfl⟩⟩
  refine runIn_bind_ok_iff.mpr ⟨_, w, files, ?_⟩
  refine runIn_bind_ok_iff.mpr ⟨NameMap.empty.insert "T" value, w, ?_, rfl⟩
  refine runIn_bind_ok_iff.mpr ⟨value, w, ?_, rfl⟩
  refine runIn_bind_ok_iff.mpr ⟨text, w, runIn_readText_ok_iff.mpr ⟨read, rfl⟩, ?_⟩
  rw [parsed]
  rfl

section Install

variable (record shape script : String)

theorem walk_src : (scriptedTree record shape script).walk [] (pieces ⟨"p/server/src"⟩)
    = .ok (.found (placeOf ⟨"p/server/src"⟩) .dir) := by rfl

theorem walk_btc : (scriptedTree record shape script).walk [] (pieces ⟨"p/server/src/btc"⟩)
    = .ok (.found (placeOf ⟨"p/server/src/btc"⟩) .dir) := by rfl

/-- The files of the server, as entries of their directories. -/
theorem entries_server :
    (⟨"p/server"⟩ : Path).join serverOptions.appModuleRelativePath
      = (⟨"p/server/src"⟩ : Path).entry "app.module.ts" ∧
    ((⟨"p/server"⟩ : Path).join serverOptions.dtoRelPath).entry
    (Dto.fileName serverNames.attestationType)
      = (⟨"p/server/src"⟩ : Path).entry "T.dto.ts" ∧
    ((⟨"p/server"⟩ : Path).join serverNames.serviceModule).withExtension "service.ts"
      = (⟨"p/server/src/btc"⟩ : Path).entry "btc-t-verifier.service.ts" ∧
    ((⟨"p/server"⟩ : Path).join serverNames.controllerModule).withExtension "controller.ts"
      = (⟨"p/server/src/btc"⟩ : Path).entry "btc-t-verifier.controller.ts" ∧
    ((⟨"p/server"⟩ : Path).join serverNames.controllerDir).entry
      s!"{serverNames.fileStem}.controller.spec.ts"
      = (⟨"p/server/src/btc"⟩ : Path).entry "btc-t-verifier.controller.spec.ts" := by
  decide +kernel

/-- A directory takes a file where it has no other directory. -/
theorem accepts_of_entry {files : FileTree} {p : Path} (dir : Path) (name : String)
    (named : p = dir.entry name)
    (path : IsEntryName name ∧ IsPath (dir.entry name) ∧ dir.text ≠ "" ∧
      (dir.entry name).parent = some dir)
    (walked : files.walk [] (pieces dir) = .ok (.found (placeOf dir) .dir))
    (node : Option Node)
    (here : files.get? (placeOf dir ++ [name]) = node) (free : node ≠ some .dir) :
    files.Accepts p := by
  subst named here
  exact accepts_of_walk dir name ⟨rfl, path⟩ walked free

/-- Entries of different names are at different places. -/
theorem placeOf_entry_ne {dir dir' : Path} {name name' : String} (h : IsEntryName name)
    (h' : IsEntryName name')
    (differ : name ≠ name') : placeOf (dir.entry name) ≠ placeOf (dir'.entry name') := by
  rw [placeOf_entry h, placeOf_entry h']
  intro same
  exact differ (List.cons.inj (List.append_inj_right' same rfl)).1

theorem ready_scriptedTree :
    Ready (scriptedTree record shape script) ⟨"p/server"⟩ serverOptions serverNames := by
  obtain ⟨appModule, dto, service, controller, test⟩ := entries_server
  exact {
    dto := accepts_of_entry ⟨"p/server/src"⟩ "T.dto.ts" dto (by decide +kernel)
      (walk_src ..) none rfl nofun
    generic := accepts_of_entry ⟨"p/server/src"⟩ "generic.dto.ts" rfl (by decide +kernel)
      (walk_src ..) none rfl nofun
    service := accepts_of_entry ⟨"p/server/src/btc"⟩ "btc-t-verifier.service.ts" service
      (by decide +kernel)
      (walk_btc ..) none rfl nofun
    controller := accepts_of_entry ⟨"p/server/src/btc"⟩ "btc-t-verifier.controller.ts"
      controller (by decide +kernel)
      (walk_btc ..) none rfl nofun
    test := nofun
    appModule := accepts_of_entry ⟨"p/server/src"⟩ "app.module.ts" appModule
      (by decide +kernel) (walk_src ..)
      (some (.file _)) rfl nofun
    fresh := by
      constructor
      · rw [service, placeOf_entry (by decide)]
        rfl
      · rw [service, dto]
        simp only [List.mem_cons, List.not_mem_nil, or_false, not_or]
        exact ⟨placeOf_entry_ne (by decide) (by decide) (by decide),
          placeOf_entry_ne (by decide) (by decide) (by decide)⟩
    apart := by
      rw [appModule, dto, service, controller, test]
      simp only [List.mem_cons, List.not_mem_nil, or_false, not_or]
      exact ⟨placeOf_entry_ne (by decide) (by decide) (by decide),
        placeOf_entry_ne (by decide) (by decide) (by decide),
        placeOf_entry_ne (by decide) (by decide) (by decide),
        placeOf_entry_ne (by decide) (by decide) (by decide),
        placeOf_entry_ne (by decide) (by decide) (by decide)⟩ }

variable {record shape script}

/-- The verifier is installed from the record that is loaded. -/
theorem exists_install {w : Workspace} (hw : w.files = scriptedTree record shape script)
    {configs : Path}
    {records : NameMap TypeRecord} {value : TypeRecord} {other : String}
    (loaded : (TypeRecord.loadAll ((serverSettings configs).resolve configs) (some "T")).runIn
      w = (.ok records, w))
    (found : records.get? "T" = some value) (built : Dto.source "T" value = .ok other) :
    ∃ w', (install ⟨"/"⟩ (serverSettings configs) ("I" ++ "T") "BTC" false).runIn w
      = (.ok (), w') := by
  obtain ⟨wired, made⟩ := exists_wire_smallModule
  have ready : Ready w.files ⟨"p/server"⟩ serverOptions serverNames :=
    hw ▸ ready_scriptedTree record shape script
  have module : w.files.get?
    (placeOf ((⟨"p/server"⟩ : Path).join serverOptions.appModuleRelativePath))
      = some (.file (.text (String.ofList smallModule))) := by
    rw [hw]
    rfl
  exact exists_runIn_install (by decide) rfl rfl (resolve_serverOptions _) make_serverOptions
    ready loaded found built module
    (by rw [String.toList_ofList]; exact made)

end Install

/-! ## Both scripts -/

section Same

variable {here : Path} {s : Settings} {abiOutPath dtoOutPath : Option Path}
  {t dataSource : String}
  {w v v' w₁ v₁ w₂ w₃ : Workspace} {units : List TypeUnit} {abis : NameMap AbiDefinitions}

/-- **The two ways to a DTO script agree.**  After all records, all DTO scripts and a verifier
have been written, the script that was made from the syntax tree and the one that was made from
the record have the same text.  One that is the app module as well has the verifier wired into
that text.  Both ways lead through the same classes, and the record that is read back has the
fields of the one that was written. -/
theorem exists_same_dto (sound : w.files.Sound)
    (reached : w.files.Reaches (s.resolve s.locations.configs))
    (apart : placeOf (s.resolve s.locations.configs)
      ≠ placeOf (s.resolve (abiOutPath.getD s.locations.abi)))
    (types : (TypeUnit.loadAll s).runIn w = (.ok units, v))
    (shapes : (Abi.loadAll s).runIn v = (.ok abis, v'))
    (once : ∀ t ∈ units, ¬ ".json".toList <:+ t.name.toList)
    (nonnull : ∀ name abi, abis.get? name = some abi →
      abi.request ≠ .null ∧ abi.response ≠ .null ∧ abi.proof ≠ .null)
    (unformatted : s.prettier = none) (capital : IsCapital t)
    (config : ((Command.config none none abiOutPath).plan here s).runIn w = (.ok (), w₁))
    (unchanged : (TypeUnit.loadAll s).runIn w₁ = (.ok units, v₁))
    (dto : ((Command.dto dtoOutPath).plan here s).runIn w₁ = (.ok (), w₂))
    (verifier : ((Command.verifierTemplate ("I" ++ t) dataSource false).plan here s).runIn w₂
      = (.ok (), w₃)) :
    let o := s.verifier.resolve dataSource
    let repo := s.resolve o.repoPath
    ∃ unit ∈ units, ∃ record text, unit.name = t ∧ unit.tree.checkedRecord = .ok record ∧
      Dto.source t record = .ok text ∧
      ∀ dir ∈ [s.resolve (dtoOutPath.getD s.locations.dto), repo.join o.dtoRelPath],
        if placeOf (repo.join o.appModuleRelativePath) = placeOf
          (dir.entry (Dto.fileName t)) then
          ∃ wired, wire here o (Names.make o t dataSource) false text.toList = .ok wired ∧
            w₃.files.readText (dir.entry (Dto.fileName t)) = .ok (String.ofList wired)
        else w₃.files.readText (dir.entry (Dto.fileName t)) = .ok text := by
  intro o repo
  obtain ⟨kept, nodup, names⟩ :=
    @TypeRecord.kept_of_writeAll s none abiOutPath w v v' w₁ units abis sound reached apart
      types shapes config
  obtain ⟨written, dtoChanges⟩ := Dto.written_of_writeAll names nodup unchanged dto
  -- The records are still there, for scripts have other names.
  have kept := kept.keeps dtoChanges (by
    rintro p name ⟨u, -, same⟩ ending
    rw [(List.cons.inj (List.append_inj_right' same rfl)).1, Dto.fileName_eq] at ending
    rcases List.suffix_or_suffix_of_suffix ending (List.suffix_append _ _) with h | h
    · exact absurd h (by decide +kernel)
    · exact absurd h (by decide +kernel))
  obtain ⟨records, value, v₂, loaded, found, installed⟩ :=
    holds_of_install capital unformatted verifier
  have hasShapes : ∀ u ∈ units, ∀ (record : TypeRecord) abi, abis.get? u.name = some abi →
      TypeRecord.HasShapes (record.withAbis abi) := fun u _ record abi habi =>
    TypeRecord.hasShapes_withAbis record (Abi.isFound_of_loadAll shapes habi)
      (nonnull _ _ habi)
  obtain ⟨unit, hunit, rfl, record, abi, checked, rfl⟩ :=
    TypeRecord.exists_of_loadAll kept reached.nonempty names once nodup hasShapes loaded found
  obtain ⟨text', v₃, built', second, changes, edited⟩ := installed (names unit hunit)
  obtain ⟨record', text, checked', built, first⟩ := written unit hunit
  obtain rfl := Except.ok.inj (checked.symm.trans checked')
  rw [Dto.source_withAbis] at built'
  obtain rfl := Except.ok.inj (built.symm.trans built')
  -- Before the app module is edited, both files have the text.
  have held : ∀ dir ∈ [s.resolve (dtoOutPath.getD s.locations.dto), repo.join o.dtoRelPath],
      Holds v₃.files dir (Dto.fileName unit.name) text := by
    refine List.forall_mem_cons.mpr ⟨?_, List.forall_mem_singleton.mpr second⟩
    by_cases same : placeOf (s.resolve (dtoOutPath.getD s.locations.dto))
        = placeOf (repo.join o.dtoRelPath)
    · refine ⟨first.path, changes.keepsDirs.walk first.walked, ?_⟩
      rw [same]
      exact second.here
    · refine changes.keeps first ?_
      rintro (here | hforeign)
      · exact same (List.append_inj_left' here rfl)
      · exact hforeign _ unit.name capital rfl
  refine ⟨unit, hunit, record, text, rfl, checked, built, fun dir hdir => ?_⟩
  have read := readText_of_editAppModule unformatted
    (Dto.isEntryName_fileName (names unit hunit)) (held dir hdir) edited
  by_cases app : placeOf (repo.join o.appModuleRelativePath)
      = placeOf (dir.entry (Dto.fileName unit.name))
  · rw [if_pos app]
    exact read.1 app
  · rw [if_neg app]
    exact read.2 app

end Same

/-- Both scripts of the small server are the same. -/
theorem exists_same_dto_smallServer : ∃ w₁ w₂ w₃ text,
    ((Command.config none none none).plan ⟨"/"⟩ (serverSettings ⟨"generated/config"⟩)).runIn
    { files := recordedTree "" }
      = (.ok (), w₁) ∧
    ((Command.dto none).plan ⟨"/"⟩ (serverSettings ⟨"generated/config"⟩)).runIn w₁
      = (.ok (), w₂) ∧
    ((Command.verifierTemplate ("I" ++ "T") "BTC" false).plan ⟨"/"⟩
      (serverSettings ⟨"generated/config"⟩)).runIn w₂
      = (.ok (), w₃) ∧
    w₃.files.readText ⟨"p/generated/dto/T.dto.ts"⟩ = .ok text ∧
    w₃.files.readText ⟨"p/server/src/T.dto.ts"⟩ = .ok text := by
  obtain ⟨w₁, config, files₁⟩ := @exists_config_apart { files := recordedTree "" } rfl
  obtain ⟨script, -, source, -⟩ := exists_sources
  obtain ⟨w₂, dto, files₂⟩ := exists_dto files₁ source ⟨"generated/config"⟩
  have loaded : (TypeRecord.loadAll ((serverSettings ⟨"generated/config"⟩).resolve
    ⟨"generated/config"⟩) (some "T")).runIn w₂
      = (.ok (NameMap.empty.insert "T" (TypeRecord.smallRecord.withAbis otherShapes)),
        w₂) := by
    rw [resolve_server ⟨"generated/config"⟩ (rfl : _ = Path.mk "p/generated/config")]
    exact runIn_loadAll_single (by rw [files₂]; rfl) (by rw [files₂]; rfl)
      (TypeRecord.parse_render hasShapes_smallRecord)
  obtain ⟨w₃, verifier⟩ := exists_install files₂ loaded (get?_insert_empty _) source
  obtain ⟨unit, -, record, text, -, -, -, both⟩ :=
    exists_same_dto (sound_of_nodes (by decide +kernel)) (.inl rfl) (by decide +kernel)
    (runIn_loadTypes_recorded rfl _) (runIn_loadShapes_recorded rfl _)
    (List.forall_mem_singleton.mpr (by decide))
    (fun _ _ => nonnull_otherShapes)
    rfl (by decide) config (runIn_loadTypes_shaped files₁ _) dto verifier
  refine ⟨w₁, w₂, w₃, text, config, dto, verifier, ?_, ?_⟩
  · have first := both ⟨"p/generated/dto"⟩ (List.mem_cons.mpr (.inl (by decide +kernel)))
    rwa [if_neg (by decide +kernel)] at first
  · have second := both ⟨"p/server/src"⟩
      (List.mem_cons_of_mem _ (List.mem_singleton.mpr (by decide +kernel)))
    rwa [if_neg (by decide +kernel)] at second

/-- The scripts differ when the shape of a response is written over the record, and has the
form of another one: the verifier is then made from what it finds there. -/
theorem exists_other_dto :
    let s := serverSettings ⟨"generated/abi"⟩
    let w : Workspace := { files := recordedTree "" }
    ∃ w₁ w₂ w₃ text other, s.prettier = none ∧
      (TypeUnit.loadAll s).runIn w = (.ok [TypeRecord.smallType], w) ∧
      (Abi.loadAll s).runIn w = (.ok (NameMap.empty.insert "T" otherShapes), w) ∧
      ((Command.config none none none).plan ⟨"/"⟩ s).runIn w = (.ok (), w₁) ∧
      (TypeUnit.loadAll s).runIn w₁ = (.ok [TypeRecord.smallType], w₁) ∧
      ((Command.dto none).plan ⟨"/"⟩ s).runIn w₁ = (.ok (), w₂) ∧
      ((Command.verifierTemplate ("I" ++ "T") "BTC" false).plan ⟨"/"⟩ s).runIn w₂
        = (.ok (), w₃) ∧
      w₃.files.readText ⟨"p/generated/dto/T.dto.ts"⟩ = .ok text ∧
      w₃.files.readText ⟨"p/server/src/T.dto.ts"⟩ = .ok other ∧ other ≠ text := by
  intro s w
  obtain ⟨w₁, config, files₁⟩ := @exists_config_together w rfl
  obtain ⟨script, other, source, built, differs⟩ := exists_sources
  obtain ⟨w₂, dto, files₂⟩ := exists_dto files₁ source ⟨"generated/abi"⟩
  have loaded : (TypeRecord.loadAll (s.resolve ⟨"generated/abi"⟩) (some "T")).runIn w₂
      = (.ok (NameMap.empty.insert "T" otherRecord), w₂) := by
    rw [resolve_server ⟨"generated/abi"⟩ (rfl : _ = Path.mk "p/generated/abi")]
    exact runIn_loadAll_single (by rw [files₂]; rfl) (by rw [files₂]; rfl)
      (TypeRecord.parse_render hasShapes_otherRecord)
  obtain ⟨w₃, verifier⟩ := exists_install files₂ loaded (get?_insert_empty _) built
  have held : Holds w₂.files ⟨"p/generated/dto"⟩ (Dto.fileName "T") script := by
    rw [files₂]
    exact ⟨by decide +kernel, by rfl, by rfl⟩
  obtain ⟨first, second⟩ :=
    readText_of_install (by decide) (by decide) rfl rfl (resolve_serverOptions _) loaded
    (get?_insert_empty _) built held (by decide +kernel) (by decide +kernel) verifier
  exact ⟨w₁, w₂, w₃, script, other, rfl, runIn_loadTypes_recorded rfl _,
    runIn_loadShapes_recorded rfl _, config,
    runIn_loadTypes_shaped files₁ _, dto, verifier, first, second, differs⟩

end Attestation.Verifier
