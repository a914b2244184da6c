import Attestation.Proofs.Compiler.Loading
import Attestation.Record.Load
import Attestation.Record.Write

/-!
# Records kept in a directory

What is written for the types of a project is read back as their records, one for each type,
and nothing that was there before is left (`loadAll_writeAll`).

## Main definitions

* `TypeRecord.fileName`: the file for a type.
* `TypeRecord.Kept`: a directory that has the records of some types and nothing else.

## Design notes

`Kept` is the invariant of the loop over the types: it says of each entry of the directory
which type has written it, and is carried by one lemma per written unit (`Kept.concat`).
Reading it back needs the converse as well, that every entry is the file of a type, since the
loader goes by the entries and not by the types.

The directory is removed first, but only if it is found at that moment.  A path that leads
through a directory that is made later is not found, and old records stay
(`exists_writeAll_keeps_old`); `FileTree.Reaches` excludes such paths.
-/

namespace Attestation

open FileTree Plan Text

/-! ## Names of files -/

/-- The characters of a type name come from the name of its file. -/
theorem TypeName.mem_ofFile {file : String} {c : Char} (h : c ∈ (ofFile file).toList) :
    c ∈ file.toList := by
  have stem : ∀ {c}, c ∈ ((dropEndString? ".sol" file).getD file).toList →
    c ∈ file.toList := by
    intro c hc
    cases dropped : dropEndString? ".sol" file with
    | none => rwa [dropped] at hc
    | some r =>
        rw [dropped] at hc
        rw [toList_of_dropEndString? dropped]
        exact List.mem_append_left _ hc
  unfold ofFile at h
  dsimp only at h
  cases dropped : dropStart? "I" ((dropEndString? ".sol" file).getD file) with
  | none =>
      rw [dropped] at h
      exact stem h
  | some r =>
      rw [dropped] at h
      refine stem ?_
      rw [toList_of_dropStart? dropped]
      exact List.mem_append_right _ h

namespace TypeRecord

/-- The file for a type. -/
def fileName (name : String) : String := name ++ ".json"

theorem fileName_inj {a b : String} (h : fileName a = fileName b) : a = b := by
  have chars := congrArg String.toList h
  rw [fileName, fileName, String.toList_append, String.toList_append] at chars
  exact String.toList_inj.mp (List.append_cancel_right chars)

theorem isEntryName_fileName {name : String} (h : '/' ∉ name.toList) :
    IsEntryName (fileName name) := by
  rw [fileName]
  refine isEntryName_of_suffix ".json".toList (suffix_append _ _) (by decide) ?_
  rw [String.toList_append, List.mem_append, not_or]
  exact ⟨h, by decide⟩

/-- The file for a type tells the type, unless its name has the ending once more. -/
theorem dropEnds_fileName {name : String} (h : ¬ ".json".toList <:+ name.toList) :
    dropEnds ".json" (fileName name) = name := dropEnds_append (by decide) h

theorem isSome_dropEndString?_fileName (name : String) :
    (dropEndString? ".json" (fileName name)).isSome = true := by
  rw [fileName, dropEndString?, String.toList_append, isSuffixOf?_append]
  rfl

/-! ## Writing -/

/-- One directory has the records of some types and no other files with the ending of records,
and the other one has the shapes of their responses.  Each record carries the shapes `abis`
that were loaded for its type. -/
structure Kept (dir abiDir : Path) (abis : NameMap AbiDefinitions) (units : List TypeUnit)
    (files : FileTree) :
    Prop where
  records : ∀ t ∈ units, ∃ record abi, t.tree.checkedRecord = .ok record ∧
    abis.get? t.name = some abi ∧
    Holds files dir (fileName t.name) (record.withAbis abi).render ∧
    Holds files abiDir (fileName t.name) abi.response.pretty
  only : ∀ name content, files.get? (placeOf dir ++ [name]) = some (.file content) →
    ".json".toList <:+ name.toList → ∃ t ∈ units, name = fileName t.name

section Write

variable {dir abiDir : Path} {abis : NameMap AbiDefinitions} {w w' : Workspace}

/-- The files of one more type. -/
theorem Kept.concat (apart : placeOf dir ≠ placeOf abiDir) {done : List TypeUnit}
    {files between files' : FileTree}
    (kept : Kept dir abiDir abis done files) {t : TypeUnit}
    (fresh : t.name ∉ done.map (·.name))
    {record : TypeRecord} {abi : AbiDefinitions} (checked : t.tree.checkedRecord = .ok record)
    (habi : abis.get? t.name = some abi)
    (config : Writes files between dir (fileName t.name) (record.withAbis abi).render)
    (shape : Writes between files' abiDir (fileName t.name) abi.response.pretty) :
    Kept dir abiDir abis (done ++ [t]) files' := by
  -- Neither the directories nor the names of files get in each other's way.
  have otherDir : ∀ name name', placeOf dir ++ [name] ≠ placeOf abiDir ++ [name'] :=
    fun _ _ same =>
    apart (List.append_inj_left' same rfl)
  have otherName : ∀ u ∈ done, ∀ p :
    Place, p ++ [fileName u.name] ≠ p ++ [fileName t.name] := by
    intro u hu p same
    refine fresh (List.mem_map.mpr ⟨u, hu, fileName_inj ?_⟩)
    exact (List.cons.inj (List.append_cancel_left same)).1
  constructor
  · intro u hu
    rcases List.mem_append.mp hu with hu | hu
    · obtain ⟨record', abi', checked', habi', config', shape'⟩ := kept.records u hu
      refine ⟨record', abi', checked', habi', ?_, ?_⟩
      · exact shape.keeps (config.keeps config' (otherName u hu _)) (otherDir _ _)
      · exact shape.keeps (config.keeps shape' (otherDir _ _).symm) (otherName u hu _)
    · rw [List.mem_singleton.mp hu]
      exact ⟨record, abi, checked, habi, shape.keeps config.holds (otherDir _ _), shape.holds⟩
  · intro name content found ending
    rw [shape.elsewhere _ _ (otherDir _ _)] at found
    by_cases here : name = fileName t.name
    · exact ⟨t, by simp, here⟩
    · rw [config.elsewhere _ _ fun same =>
        here (List.cons.inj (List.append_cancel_left same)).1] at found
      obtain ⟨u, hu, hname⟩ := kept.only name content found ending
      exact ⟨u, List.mem_append_left _ hu, hname⟩

/-- The records are kept when files with other endings change. -/
theorem Kept.keeps {units : List TypeUnit} {files files' : FileTree} {places : Set Place}
    (kept : Kept dir abiDir abis units files) (changes : ChangesOnly files files' places)
    (other : ∀ p name, p ++ [name] ∈ places → ¬ ".json".toList <:+ name.toList) :
    Kept dir abiDir abis units files' := by
  have apart : ∀ (p : Place) name, p ++ [fileName name] ∉ places := fun p name hmem =>
    other p _ hmem (suffix_append _ _)
  constructor
  · intro t ht
    obtain ⟨record, abi, checked, habi, config, shape⟩ := kept.records t ht
    exact ⟨record, abi, checked, habi, changes.keeps config (apart _ _),
      changes.keeps shape (apart _ _)⟩
  · intro name content found ending
    exact kept.only name content
      ((changes.elsewhere _ _ fun hmem => other _ name hmem ending).mp found) ending

/-- What the run for one type has done. -/
theorem writes_of_writeUnit {m m' : NameMap AbiDefinitions} {t : TypeUnit}
    (hname : '/' ∉ t.name.toList)
    (h : (writeUnit dir abiDir m t).runIn w = (.ok m', w')) :
    ∃ record abi between, t.tree.checkedRecord = .ok record ∧ m.get? t.name = some abi ∧
      m' = m.erase t.name ∧
      Writes w.files between dir (fileName t.name) (record.withAbis abi).render ∧
      Writes between w'.files abiDir (fileName t.name) abi.response.pretty := by
  have entry := isEntryName_fileName hname
  obtain ⟨record, v, made, h⟩ := runIn_bind_ok_iff.mp h
  cases habi : m.get? t.name with
  | none =>
      rw [habi] at h
      cases h
  | some abi =>
      rw [habi] at h
      obtain ⟨_, v', config, h⟩ := runIn_bind_ok_iff.mp h
      obtain ⟨_, v'', shape, h⟩ := runIn_bind_ok_iff.mp h
      obtain ⟨rfl, rfl⟩ := runIn_pure_ok_iff.mp h
      refine ⟨record, abi, v'.files, t.checkedRecord_of_record made, rfl, rfl, ?_,
        writes_of_runIn entry shape⟩
      rw [← (t.keepsFiles_record).files_eq made]
      exact writes_of_runIn entry config

/-- **The run for all types keeps their records**, and no two types have one name.  The second
follows from the first: each type takes its shapes out of the map, so a name that comes again
has none. -/
theorem kept_of_writeUnits (apart : placeOf dir ≠ placeOf abiDir) {units : List TypeUnit}
    (names : ∀ t ∈ units, '/' ∉ t.name.toList)
    (empty : ∀ name content, w.files.get? (placeOf dir ++ [name]) ≠ some (.file content))
    {rest : NameMap AbiDefinitions}
    (h : (units.foldlM (writeUnit dir abiDir) abis).runIn w = (.ok rest, w')) :
    Kept dir abiDir abis units w'.files ∧ (units.map (·.name)).Nodup := by
  have run := foldlM_runIn_induction
    (fun done (m : NameMap AbiDefinitions) v => Kept dir abiDir abis done v.files ∧
      (done.map (·.name)).Nodup ∧
      ∀ name abi, m.get? name = some abi → abis.get? name = some abi ∧
        name ∉ done.map (·.name))
    ?_ ⟨⟨by simp, fun name content found _ => absurd found (empty name
      content)⟩, by simp, by simp⟩ h
  · exact ⟨run.1, run.2.1⟩
  · rintro done t m m' v v' ht ⟨kept, nodup, left⟩ step
    obtain ⟨record, abi, between, checked, habi, rfl, config, shape⟩ :=
      writes_of_writeUnit (names t ht) step
    obtain ⟨habi, fresh⟩ := left t.name abi habi
    refine ⟨kept.concat apart fresh checked habi config shape, ?_, fun name abi' found => ?_⟩
    · rw [List.map_append, List.nodup_append]
      refine ⟨nodup, by simp, ?_⟩
      rintro a ha b hb rfl
      rw [List.map_singleton, List.mem_singleton] at hb
      exact fresh (hb ▸ ha)
    · rw [NameMap.get?_erase] at found
      split at found
      · cases found
      · next other =>
          obtain ⟨found, notDone⟩ := left name abi' found
          refine ⟨found, ?_⟩
          rw [List.map_append, List.mem_append, not_or]
          exact ⟨notDone, by simpa [eq_comm] using other⟩

end Write

/-! ## Reading -/

section Read

variable {dir abiDir : Path} {abis : NameMap AbiDefinitions} {w : Workspace}

theorem keepsFiles_load (path : Path) : (load path).KeepsFiles := by
  refine keepsFiles_bind (keepsFiles_readText _ _) fun text => ?_
  split
  · exact keepsFiles_pure _
  · exact keepsFiles_fail _

theorem keepsFiles_addFile (dir : Path) (specific : Option String) (found : NameMap TypeRecord)
    (file : String) :
    (addFile dir specific found file).KeepsFiles := by
  unfold addFile
  dsimp only
  split
  · exact keepsFiles_bind (keepsFiles_load _) fun _ => keepsFiles_pure _
  · exact keepsFiles_pure _

/-- Loading only looks at files. -/
theorem keepsFiles_loadAll (dir : Path) (specific : Option String) :
    (loadAll dir specific).KeepsFiles :=
  keepsFiles_bind (keepsFiles_filesEnding _ _) fun files =>
  keepsFiles_foldlM (keepsFiles_addFile dir specific) files _

theorem runIn_load {file text : String} (hname : IsEntryName file)
    (held : Holds w.files dir file text)
    {record : TypeRecord} (parsed : parse text = some record) :
    (load (dir.entry file)).runIn w = (.ok record, w) := by
  refine runIn_bind_ok_iff.mpr ⟨text, w,
    runIn_readText_ok_iff.mpr ⟨held.readText hname, rfl⟩, ?_⟩
  rw [parsed]
  rfl

/-- The files of a directory are loaded one after the other. -/
theorem runIn_addFiles (specific : Option String) {files : List String}
    {value : String → TypeRecord}
    (loads : ∀ file ∈ files, (load (dir.entry file)).runIn w = (.ok (value file), w))
    (m : NameMap TypeRecord) :
    (files.foldlM (addFile dir specific) m).runIn w
      = (.ok (((files.filter fun file => TypeName.isMeant specific (dropEnds ".json" file)).map
          fun file => (dropEnds ".json" file, value file)).foldl (fun m entry =>
            m.insert entry.1 entry.2) m), w) := by
  induction files generalizing m with
  | nil => rfl
  | cons file more ih =>
      have more_ := ih fun x hx => loads x (List.mem_cons_of_mem _ hx)
      rw [List.foldlM_cons]
      cases meant : TypeName.isMeant specific (dropEnds ".json" file) with
      | true =>
          refine runIn_bind_ok_iff.mpr ⟨m.insert (dropEnds ".json" file)
            (value file), w, ?_, ?_⟩
          · rw [addFile, if_pos meant]
            exact runIn_bind_ok_iff.mpr ⟨_, w, loads file List.mem_cons_self, rfl⟩
          · simp only [more_, List.filter_cons, meant, if_true, List.map_cons, List.foldl_cons]
      | false =>
          refine runIn_bind_ok_iff.mpr ⟨m, w, ?_, ?_⟩
          · rw [addFile, if_neg (by simp [meant])]
            rfl
          · simp only [more_, List.filter_cons, meant, Bool.false_eq_true, if_false]

/-- The records in a directory that keeps those of some types lie in the files of these
types. -/
theorem Kept.mem_fileNames_iff {units : List TypeUnit}
    (kept : Kept dir abiDir abis units w.files) (file : String) :
    file ∈ fileNames ".json" (w.files.entriesAt (placeOf dir)) ↔
      ∃ t ∈ units, file = fileName t.name := by
  rw [mem_fileNames_entriesAt_iff]
  constructor
  · rintro ⟨⟨content, found⟩, ends⟩
    obtain ⟨front, dropped⟩ := Option.isSome_iff_exists.mp ends
    exact kept.only file content found ⟨_, (toList_of_dropEndString? dropped).symm⟩
  · rintro ⟨t, ht, rfl⟩
    obtain ⟨_, _, -, -, config, -⟩ := kept.records t ht
    exact ⟨⟨_, config.here⟩, isSome_dropEndString?_fileName t.name⟩

/-- What is loaded from the files of types: of each type that is meant, the value of its file
under its name. -/
theorem mem_loaded_iff {units : List TypeUnit} {files : List String}
    (ofTypes : ∀ file, file ∈ files ↔ ∃ t ∈ units, file = fileName t.name)
    (once : ∀ t ∈ units, ¬ ".json".toList <:+ t.name.toList) (specific : Option String)
    (value : String → TypeRecord) (entry : String × TypeRecord) :
    entry ∈ ((files.filter fun file => TypeName.isMeant specific (dropEnds ".json" file)).map
        fun file => (dropEnds ".json" file, value file)) ↔
      ∃ t ∈ units, TypeName.isMeant specific t.name = true ∧
        entry = (t.name, value (fileName t.name)) := by
  rw [List.mem_map]
  constructor
  · rintro ⟨file, hmem, rfl⟩
    obtain ⟨hmem, meant⟩ := List.mem_filter.mp hmem
    obtain ⟨t, ht, rfl⟩ := (ofTypes file).mp hmem
    rw [dropEnds_fileName (once t ht)] at meant ⊢
    exact ⟨t, ht, meant, rfl⟩
  · rintro ⟨t, ht, meant, rfl⟩
    refine ⟨fileName t.name, List.mem_filter.mpr ⟨(ofTypes _).mpr ⟨t, ht, rfl⟩, ?_⟩, ?_⟩
    · rwa [dropEnds_fileName (once t ht)]
    · rw [dropEnds_fileName (once t ht)]

/-- **A directory that keeps the records of some types is loaded as these records**, and with
nothing else. -/
theorem exists_runIn_loadAll {units : List TypeUnit}
    (kept : Kept dir abiDir abis units w.files)
    (nonempty : units ≠ []) (path : dir.text ≠ "") (names : ∀ t ∈ units, '/' ∉ t.name.toList)
    (once : ∀ t ∈ units, ¬ ".json".toList <:+ t.name.toList)
    (nodup : (units.map (·.name)).Nodup)
    (shapes : ∀ t ∈ units, ∀ (record : TypeRecord) abi,
      abis.get? t.name = some abi → HasShapes (record.withAbis abi))
    (specific : Option String) :
    ∃ records, (loadAll dir specific).runIn w = (.ok records, w) ∧
      (∀ name, name ∈ records.names ↔ ∃ t ∈ units, TypeName.isMeant specific t.name = true ∧
        t.name = name) ∧
      ∀ t ∈ units, TypeName.isMeant specific t.name = true → ∃ record abi, t.tree.checkedRecord
        = .ok record ∧
        abis.get? t.name = some abi ∧ records.get? t.name = some (record.withAbis abi) := by
  choose! record abi checked habi config shape using kept.records
  -- Some record has been written, so the directory can be listed.
  obtain ⟨u, hu⟩ := List.exists_mem_of_ne_nil units nonempty
  have isPath := isPath_of_entry (isEntryName_fileName (names u hu)) (config u hu).path path
  have listed := runIn_filesEnding ".json" isPath (config u hu).walked
  have mem_files := kept.mem_fileNames_iff
  -- The type of a file is determined, as no two types share a name.
  choose! unit hunit hfile using fun file => (mem_files file).mp
  have unit_fileName : ∀ t ∈ units, unit (fileName t.name) = t := by
    intro t ht
    have hmem := (mem_files _).mpr ⟨t, ht, rfl⟩
    exact List.inj_on_of_nodup_map nodup (hunit _ hmem) ht (fileName_inj (hfile _ hmem)).symm
  have loads : ∀ file ∈ fileNames ".json" (w.files.entriesAt (placeOf dir)),
      (load (dir.entry file)).runIn w
        = (.ok ((record (unit file)).withAbis (abi (unit file))), w) := by
    intro file hmem
    obtain ⟨t, ht, rfl⟩ := (mem_files file).mp hmem
    rw [unit_fileName t ht]
    exact runIn_load (isEntryName_fileName (names t ht)) (config t ht)
      (parse_render (shapes t ht _ _ (habi t ht)))
  have entries := mem_loaded_iff mem_files once specific
    fun file => (record (unit file)).withAbis (abi (unit file))
  refine ⟨_, runIn_bind_ok_iff.mpr ⟨_, w, listed,
    runIn_addFiles specific loads .empty⟩, ?_, ?_⟩
  · intro name
    rw [← NameMap.ofList, NameMap.mem_names_ofList, List.mem_map]
    constructor
    · rintro ⟨entry, hentry, rfl⟩
      obtain ⟨t, ht, meant, rfl⟩ := (entries entry).mp hentry
      exact ⟨t, ht, meant, rfl⟩
    · rintro ⟨t, ht, meant, rfl⟩
      exact ⟨_, (entries _).mpr ⟨t, ht, meant, rfl⟩, rfl⟩
  · intro t ht meant
    refine ⟨record t, abi t, checked t ht, habi t ht,
      NameMap.get?_ofList ((entries _).mpr ⟨t, ht, meant, by rw [unit_fileName t ht]⟩) ?_⟩
    intro value hvalue
    obtain ⟨t', ht', -, hentry⟩ := (entries _).mp hvalue
    obtain ⟨hname, rfl⟩ := Prod.mk.inj hentry
    rw [unit_fileName t' ht', List.inj_on_of_nodup_map nodup ht ht' hname]

/-- A record that is loaded is that of a type. -/
theorem exists_of_loadAll {units : List TypeUnit} (kept : Kept dir abiDir abis units w.files)
    (path : dir.text ≠ "") (names : ∀ t ∈ units, '/' ∉ t.name.toList)
    (once : ∀ t ∈ units, ¬ ".json".toList <:+ t.name.toList)
    (nodup : (units.map (·.name)).Nodup)
    (shapes : ∀ t ∈ units, ∀ (record : TypeRecord) abi,
      abis.get? t.name = some abi → HasShapes (record.withAbis abi))
    {specific : Option String} {records : NameMap TypeRecord} {w' : Workspace}
    (loaded : (loadAll dir specific).runIn w = (.ok records, w')) {name : String}
    {value : TypeRecord}
    (found : records.get? name = some value) :
    ∃ t ∈ units, t.name = name ∧ ∃ record abi, t.tree.checkedRecord = .ok record ∧
      value = record.withAbis abi := by
  by_cases nonempty : units = []
  · -- The directory has no record, so none is loaded.
    obtain ⟨files, v, listed, h⟩ := runIn_bind_ok_iff.mp loaded
    have nothing : files = [] := by
      rw [runIn_filesEnding_ok listed]
      refine List.eq_nil_iff_forall_not_mem.mpr fun file hfile => ?_
      obtain ⟨⟨content, there⟩, ends⟩ := mem_fileNames_entriesAt_iff.mp hfile
      obtain ⟨front, dropped⟩ := Option.isSome_iff_exists.mp ends
      obtain ⟨t, ht, -⟩ := kept.only file content there ⟨_,
        (toList_of_dropEndString? dropped).symm⟩
      exact List.ne_nil_of_mem ht nonempty
    rw [nothing] at h
    obtain ⟨rfl, -⟩ := runIn_pure_ok_iff.mp h
    cases found
  · obtain ⟨records', loaded', mem, each⟩ :=
      exists_runIn_loadAll kept nonempty path names once nodup shapes specific
    rw [loaded] at loaded'
    cases loaded'
    obtain ⟨t, ht, meant, rfl⟩ := (mem name).mp (NameMap.mem_names_of_get? found)
    obtain ⟨record, abi, checked, -, hrecord⟩ := each t ht meant
    exact ⟨t, ht, rfl, record, abi, checked, Option.some.inj (found.symm.trans hrecord)⟩

end Read

/-! ## Writing and reading -/

/-- A directory that its path reaches has no files once it has been cleared. -/
theorem get?_of_clearDir {dir : Path} {w w' : Workspace} {u : Unit} (sound : w.files.Sound)
    (reached : w.files.Reaches dir) (h : (clearDir none dir).runIn w = (.ok u, w'))
    (name : String)
    (content : FileContent) : w'.files.get? (placeOf dir ++ [name])
      ≠ some (.file content) := by
  unfold clearDir at h
  rw [if_pos (by rfl : (none : Option String).isNone = true)] at h
  obtain ⟨there, v, asked, h⟩ := runIn_bind_ok_iff.mp h
  obtain ⟨found, rfl⟩ := runIn_exists_ok_iff.mp asked
  cases there with
  | true =>
      rw [if_pos rfl] at h
      obtain ⟨_, v, removed, h⟩ := runIn_bind_ok_iff.mp h
      rw [(keepsFiles_log _).files_eq h, get?_removeTree (runIn_removeTree_ok removed)]
      · exact (Option.some_ne_none _).symm
      · simp [isBelow]
  | false =>
      rw [if_neg (by simp)] at h
      obtain ⟨-, rfl⟩ := runIn_pure_ok_iff.mp h
      have none_ : w.files.get? (placeOf dir) = none := reached.resolve_left (by simp [found])
      intro file
      rw [sound.parent _ name (file ▸ Option.some_ne_none _)] at none_
      cases none_

theorem hasShapes_withAbis {abi : AbiDefinitions} (record : TypeRecord)
    (found : Abi.IsFound abi.request ∧ Abi.IsFound abi.response ∧ Abi.IsFound abi.proof)
    (nonnull : abi.request ≠ .null ∧ abi.response ≠ .null ∧ abi.proof ≠ .null) :
    HasShapes (record.withAbis abi) := by
  rintro j (h | h | h)
  · cases h
    exact ⟨nonnull.1, found.1.merged, found.1.fits⟩
  · cases h
    exact ⟨nonnull.2.1, found.2.1.merged, found.2.1.fits⟩
  · cases h
    exact ⟨nonnull.2.2, found.2.2.merged, found.2.2.fits⟩

section WriteAll

variable {s : Settings} {outPath abiOutPath : Option Path} {w v v' w' : Workspace}
  {units : List TypeUnit}
  {abis : NameMap AbiDefinitions}

/-- **Writing all types keeps their records and nothing else.**  The directory is cleared
first, and then filled. -/
theorem kept_of_writeAll (sound : w.files.Sound)
    (reached : w.files.Reaches (s.resolve (outPath.getD s.locations.configs)))
    (apart : placeOf (s.resolve (outPath.getD s.locations.configs))
      ≠ placeOf (s.resolve (abiOutPath.getD s.locations.abi)))
    (types : (TypeUnit.loadAll s).runIn w = (.ok units, v))
    (shapes : (Abi.loadAll s).runIn v = (.ok abis, v'))
    (run : (writeAll s none outPath abiOutPath).runIn w = (.ok (), w')) :
    Kept (s.resolve (outPath.getD s.locations.configs))
      (s.resolve (abiOutPath.getD s.locations.abi)) abis units
        w'.files ∧ (units.map (·.name)).Nodup ∧ ∀ t ∈ units, '/' ∉ t.name.toList := by
  have names : ∀ t ∈ units, '/' ∉ t.name.toList := by
    intro t ht hmem
    obtain ⟨hname, content, there⟩ := (TypeUnit.exists_file_of_loadAll types).2 t ht
    exact (sound.name _ t.file (by rw [there]; nofun)).not_slash
      (TypeName.mem_ofFile (hname ▸ hmem))
  obtain ⟨units', v₁, types', run⟩ := runIn_bind_ok_iff.mp run
  rw [types] at types'
  cases types'
  obtain ⟨abis', v₂, shapes', run⟩ := runIn_bind_ok_iff.mp run
  rw [shapes] at shapes'
  cases shapes'
  have files : v'.files = w.files := by
    rw [(Abi.keepsFiles_loadAll s).files_eq shapes,
      (TypeUnit.keepsFiles_loadAll s).files_eq types]
  obtain ⟨_, v₃, cleared, run⟩ := runIn_bind_ok_iff.mp run
  -- The directory is empty before the first record is written, so the records are all that it
  -- holds.
  have empty := get?_of_clearDir (files ▸ sound) (files ▸ reached) cleared
  have all : (units.filter fun t => TypeName.isMeant none t.name) = units :=
    List.filter_eq_self.mpr fun _ _ => rfl
  dsimp only at run
  rw [all] at run
  obtain ⟨rest, v₄, written, run⟩ := runIn_bind_ok_iff.mp run
  obtain ⟨_, v₅, logged, run⟩ := runIn_bind_ok_iff.mp run
  have last : w'.files = v₄.files := by
    rw [← (keepsFiles_log _).files_eq logged]
    split at run
    · exact (keepsFiles_log _).files_eq run
    · exact (keepsFiles_pure _).files_eq run
  obtain ⟨kept, nodup⟩ := kept_of_writeUnits apart names empty written
  exact ⟨last ▸ kept, nodup, names⟩

/-- **What is written for all types is read back**: one record for each type, with the shapes
that were loaded for it, and nothing that was there before.  The directory must be reached
before it is made, since it is not cleared otherwise. -/
theorem loadAll_writeAll (sound : w.files.Sound)
    (reached : w.files.Reaches (s.resolve (outPath.getD s.locations.configs)))
    (apart : placeOf (s.resolve (outPath.getD s.locations.configs))
      ≠ placeOf (s.resolve (abiOutPath.getD s.locations.abi)))
    (types : (TypeUnit.loadAll s).runIn w = (.ok units, v))
    (shapes : (Abi.loadAll s).runIn v = (.ok abis, v'))
    (nonempty : units ≠ []) (once : ∀ t ∈ units, ¬ ".json".toList <:+ t.name.toList)
    (nonnull : ∀ name abi, abis.get? name = some abi →
      abi.request ≠ .null ∧ abi.response ≠ .null ∧ abi.proof ≠ .null)
    (run : (writeAll s none outPath abiOutPath).runIn w = (.ok (), w')) :
    ∃ records, (loadAll (s.resolve (outPath.getD s.locations.configs)) none).runIn w'
      = (.ok records, w') ∧
      records.names = units.map (·.name) ∧
      ∀ t ∈ units, ∃ record abi text, t.tree.checkedRecord = .ok record ∧
        abis.get? t.name = some abi ∧
        records.get? t.name = some (record.withAbis abi) ∧
        w'.files.readText ((s.resolve (abiOutPath.getD s.locations.abi)).entry
          (fileName t.name)) = .ok text ∧
        Json.parse text = some abi.response := by
  obtain ⟨kept, nodup, names⟩ := kept_of_writeAll sound reached apart types shapes run
  have found : ∀ {name abi}, abis.get? name = some abi →
      Abi.IsFound abi.request ∧ Abi.IsFound abi.response ∧ Abi.IsFound abi.proof :=
      Abi.isFound_of_loadAll shapes
  obtain ⟨records, loaded, hnames, hrecords⟩ :=
    exists_runIn_loadAll kept nonempty reached.nonempty names once nodup
    (fun t _ record abi habi => hasShapes_withAbis record (found habi) (nonnull _ _ habi)) none
  refine ⟨records, loaded, NameMap.names_eq ?_ fun name => ?_, fun t ht => ?_⟩
  -- The names of the records are sorted, and so are those of the types, by their files.
  · have ordered := (TypeUnit.exists_file_of_loadAll types).1
    rw [List.pairwise_map]
    refine (ordered.and (List.pairwise_map.mp nodup)).imp fun h => ?_
    exact String.not_le.mp fun hle => h.2 (String.le_antisymm h.1 hle)
  · rw [hnames, List.mem_map]
    exact ⟨fun ⟨t, ht, _, same⟩ => ⟨t, ht, same⟩, fun ⟨t, ht, same⟩ => ⟨t, ht, rfl, same⟩⟩
  · obtain ⟨record, abi, checked, habi, hrecord⟩ := hrecords t ht rfl
    obtain ⟨record', abi', checked', habi', -, shape⟩ := kept.records t ht
    rw [habi] at habi'
    cases habi'
    refine ⟨record, abi, _, checked, habi, hrecord,
      shape.readText (isEntryName_fileName (names t ht)), ?_⟩
    exact Json.parse_pretty ((found habi).2.1.fits.mono (Nat.sub_le _ _))

end WriteAll

/-! ## A small project -/

/-- A node of a syntax tree. -/
def smallNode (kind : String) (fields : List (String × Json)) : Json :=
  .object (("nodeType", .string kind) :: fields)

/-- The structs of an interface `IT` with the names and types of their members: the required
ones, and one that the body of the request uses. -/
def smallStructs : List (String × List (String × String)) :=
  [("Request", [("requestBody", "struct IT.RequestBody")]),
    ("Response", [("responseBody", "struct IT.ResponseBody")]),
    ("Proof", [("merkleProof", "bytes32[]")]),
    ("RequestBody", [("window", "struct IT.Window")]),
    ("Window", [("first", "uint64"), ("last", "uint64")]),
    ("ResponseBody", [("confirmed", "bool")])]

/-- A documentation that names the members. -/
def smallNotes (members : List (String × String)) : String :=
  String.join (members.map fun (member, _) => "@param " ++ member ++ "\n")

/-- What the compiler says about a struct. -/
def smallStructNode (name : String) (members : List (String × String)) : Json :=
  smallNode "StructDefinition" [("name", .string name),
    ("documentation", .object [("text", .string (smallNotes members))]),
    ("members", .array (members.map fun (member, type) =>
      .object [("name", .string member),
        ("typeDescriptions", .object [("typeString", .string type)])]))]

/-- What the compiler says about the interface. -/
def smallContract : Json :=
  smallNode "ContractDefinition" [("name", .string "IT"),
    ("nodes", .array (smallStructs.map fun (name, members) => smallStructNode name members))]

/-- The build of the file of the interface. -/
def smallBuild (source : String) : Json :=
  .object [("output", .object [("sources", .object [(source,
    .object [("ast", .object [("nodes", .array [smallContract])])])])])]

theorem fits_smallBuild (source : String) : Json.Fits Json.maxDepth (smallBuild source) := by
  simp [smallBuild, smallContract, smallStructs, smallStructNode, smallNode, Json.maxDepth]

/-- What the compiler made of its temporary contract. -/
def smallArtifact : Json :=
  .object [("abi", .array (["request", "response", "proof"].map fun name =>
    .object [("name", .string name), ("inputs", .array [.string name])]))]

/-- The settings of a project whose places have short names. -/
def smallSettings : Settings where
  root := ⟨"p"⟩
  locations := {
    typeInterfaceDefinitions := ⟨"types"⟩
    buildInfo := ⟨"build"⟩
    temporaryContracts := ⟨"temporary"⟩
    temporaryContractsCompilation := ⟨"artifacts"⟩
    configs := ⟨"configs"⟩
    abi := ⟨"abi"⟩ }
  verifier := {}
  prettier := none

/-- A project of one interface, with the record of a type that is no longer there. -/
def smallProject : Workspace where
  files := {
    nodes := [(["p"], .dir), (["p", "types"], .dir),
      (["p", "types", "IT.sol"], .file (.text "")),
      (["p", "build"], .dir), (["p", "build", "b.json"],
        .file (.text (smallBuild "types/IT.sol").pretty)),
      (["p", "temporary"], .dir), (["p", "temporary", "ITTemporary.sol"], .file (.text "")),
      (["p", "artifacts"], .dir), (["p", "artifacts", "ITTemporary.sol"], .dir),
      (["p", "artifacts", "ITTemporary.sol", "ITTemporary.json"],
        .file (.text smallArtifact.pretty)),
      (["p", "configs"], .dir), (["p", "configs", "Old.json"], .file (.text ""))] }

/-- The type of the project. -/
def smallType : TypeUnit where
  name := "T"
  file := "IT.sol"
  tree := {
    absolutePath := none
    nodes := [some {
      name := "IT"
      kind := none
      documentation := none
      nodes := smallStructs.map fun (name, members) =>
        some ⟨name, some (smallNotes members), members.map fun (member, type) =>
          ⟨member, some type⟩⟩ }] }

/-- The record of one of the structs. -/
def smallStruct (name : String) : StructRecord :=
  let members := (smallStructs.lookup name).getD []
  { name := name
    description := ""
    above := ""
    below := ""
    fullComment := some (smallNotes members)
    params := members.map fun (member, type) => ⟨member, type, simpleType type, ""⟩ }

/-- The record of the type. -/
def smallRecord : TypeRecord where
  name := ""
  fullComment := none
  description := ""
  verification := ""
  lut := ""
  proof := smallStruct "Proof"
  request := smallStruct "Request"
  response := smallStruct "Response"
  requestBody := smallStruct "RequestBody"
  responseBody := smallStruct "ResponseBody"
  requestStructs := [smallStruct "Window"]
  responseStructs := []
  requestAbi := none
  responseAbi := none
  proofAbi := none

theorem exists_runIn_smallType (w : Workspace) :
    ∃ v, smallType.record.runIn w = (.ok smallRecord, v) ∧ v.files = w.files := ⟨_, rfl, rfl⟩

/-- The shapes of its messages. -/
def smallShapes : NameMap AbiDefinitions :=
  NameMap.empty.insert "T" ⟨.string "request", .string "response", .string "proof"⟩

theorem runIn_loadTypes_smallProject :
    (TypeUnit.loadAll smallSettings).runIn smallProject = (.ok [smallType], smallProject) := by
  have build : (BuildInfo.load smallSettings).runIn smallProject
      = (.ok ⟨NameMap.ofList [("types/IT.sol", smallType.tree)]⟩, smallProject) := by
    refine runIn_bind_ok_iff.mpr ⟨[⟨"b.json", true⟩], smallProject,
      runIn_list_ok_iff.mpr ⟨rfl, rfl⟩, ?_⟩
    refine runIn_bind_ok_iff.mpr ⟨_, smallProject, runIn_readText_ok_iff.mpr ⟨rfl, rfl⟩, ?_⟩
    rw [Json.parse_pretty (fits_smallBuild _)]
    rfl
  refine runIn_bind_ok_iff.mpr ⟨_, smallProject, build, ?_⟩
  refine runIn_bind_ok_iff.mpr ⟨["IT.sol"], smallProject, ?_, ?_⟩
  · refine runIn_bind_ok_iff.mpr ⟨[⟨"IT.sol", true⟩], smallProject,
      runIn_list_ok_iff.mpr ⟨rfl, rfl⟩, ?_⟩
    exact runIn_pure_ok_iff.mpr ⟨List.mergeSort_singleton _, rfl⟩
  · refine runIn_bind_ok_iff.mpr ⟨[smallType], smallProject,
      runIn_ofExcept_ok_iff.mpr ⟨rfl, rfl⟩, ?_⟩
    exact runIn_pure_ok_iff.mpr ⟨List.mergeSort_singleton _, rfl⟩

theorem runIn_loadShapes_smallProject :
    (Abi.loadAll smallSettings).runIn smallProject = (.ok smallShapes, smallProject) := by
  have fits : Json.Fits Json.maxDepth smallArtifact := by simp [smallArtifact, Json.maxDepth]
  refine runIn_bind_ok_iff.mpr ⟨["ITTemporary.sol"], smallProject, ?_, ?_⟩
  · refine runIn_bind_ok_iff.mpr ⟨[⟨"ITTemporary.sol", true⟩], smallProject,
      runIn_list_ok_iff.mpr ⟨rfl, rfl⟩, ?_⟩
    exact runIn_pure_ok_iff.mpr ⟨List.mergeSort_singleton _, rfl⟩
  · refine runIn_bind_ok_iff.mpr ⟨smallShapes, smallProject, ?_, rfl⟩
    refine runIn_bind_ok_iff.mpr ⟨⟨.string "request", .string "response", .string "proof"⟩,
      smallProject, ?_, rfl⟩
    refine runIn_bind_ok_iff.mpr ⟨_, smallProject, runIn_readText_ok_iff.mpr ⟨rfl, rfl⟩, ?_⟩
    rw [Json.parse_pretty fits]
    rfl

/-- The record of the small project is written and read back with all its structs, and the old
one is gone. -/
theorem loadAll_writeAll_smallProject : ∃ w' records,
    (writeAll smallSettings none none none).runIn smallProject = (.ok (), w') ∧
      (loadAll ⟨"p/configs"⟩ none).runIn w' = (.ok records, w') ∧ records.names = ["T"] ∧
      records.get? "T" = some (smallRecord.withAbis ⟨.string "request", .string "response",
        .string "proof"⟩) := by
  obtain ⟨w', run⟩ : ∃ w', (writeAll smallSettings none none none).runIn smallProject
      = (.ok (), w') := by
    refine exists_runIn_ok ?_
    rw [writeAll, runIn_bind_of_ok runIn_loadTypes_smallProject,
      runIn_bind_of_ok runIn_loadShapes_smallProject]
    rfl
  have nonnull : ∀ name abi, smallShapes.get? name = some abi →
      abi.request ≠ .null ∧ abi.response ≠ .null ∧ abi.proof ≠ .null := by
    intro name abi habi
    rw [smallShapes, NameMap.get?_insert] at habi
    split at habi
    · cases habi
      exact ⟨nofun, nofun, nofun⟩
    · cases habi
  obtain ⟨records, loaded, names, kept⟩ :=
    loadAll_writeAll (sound_of_nodes (by decide)) (.inl rfl) (by decide)
    runIn_loadTypes_smallProject runIn_loadShapes_smallProject (by simp)
    (List.forall_mem_singleton.mpr (by decide)) nonnull run
  obtain ⟨record, abi, -, accepted, habi, found, -⟩ := kept smallType List.mem_cons_self
  obtain rfl : smallRecord = record :=
    Except.ok.inj ((rfl : _ = Except.ok smallRecord).symm.trans accepted)
  have shapes : smallShapes.get? "T" = some ⟨.string "request", .string "response",
    .string "proof"⟩ := by
    rw [smallShapes, NameMap.get?_insert, if_pos rfl]
  obtain rfl := Option.some.inj (shapes.symm.trans habi)
  exact ⟨w', records, run, loaded, names, found⟩

/-- Nothing is cleared when the directory of records is only reached once directories have been
made, and the old record stays: the path leads through a directory that does not exist when it
is looked up. -/
theorem exists_writeAll_keeps_old : ∃ w',
    (writeAll smallSettings none (some ⟨"missing/../configs"⟩) none).runIn smallProject
      = (.ok (), w') ∧
      w'.files.readText ⟨"p/missing/../configs/Old.json"⟩ = .ok "" := by
  rw [writeAll, runIn_bind_of_ok runIn_loadTypes_smallProject,
    runIn_bind_of_ok runIn_loadShapes_smallProject]
  generalize hrun : Plan.runIn smallProject _ = run
  have ends : run.1 = .ok () ∧
    run.2.files.readText ⟨"p/missing/../configs/Old.json"⟩ = .ok "" := by
    rw [← hrun]
    exact ⟨rfl, rfl⟩
  exact ⟨run.2, Prod.ext ends.1 rfl, ends.2⟩

end TypeRecord

end Attestation
