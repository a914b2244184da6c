import Attestation.Dto.Write
import Attestation.Proofs.Compiler.Loading
import Attestation.Proofs.Text.Lines
import Attestation.Record.Basic

/-!
# DTO scripts kept in a directory

Writing all types leaves the script of each type in the directory, and changes no other file
(`Dto.written_of_writeAll`).

* `Dto.Written`: the scripts of some types are found in a directory.

## Design notes

`Written` speaks of the tree and not of the run, since a later command of the same project only
sees the tree.  It holds a script for every type and is silent about all other places;
that these are not touched is a separate statement, by the list of places that a run may write
to, so that it can be used without knowing what the scripts say.
-/

namespace Attestation.Dto

open FileTree Plan Text

/-! ## Names of files -/

theorem fileName_eq (name : String) :
    (fileName name).toList = name.toList ++ ".dto.ts".toList := by
  rw [← String.toList_append]
  rfl

theorem isEntryName_fileName {name : String} (h : '/' ∉ name.toList) :
    IsEntryName (fileName name) := by
  refine isEntryName_of_suffix ".dto.ts".toList (suffix_append _ _) (by decide) ?_
  rw [fileName_eq, List.mem_append, not_or]
  exact ⟨h, by decide⟩

theorem fileName_inj {a b : String} (h : fileName a = fileName b) : a = b := by
  have chars := congrArg String.toList h
  rw [fileName_eq, fileName_eq] at chars
  exact String.toList_inj.mp (List.append_cancel_right chars)

/-- The shapes of the messages do not matter to a script. -/
theorem source_withAbis (attestationType : String) (r : TypeRecord) (abis : AbiDefinitions) :
    source attestationType (r.withAbis abis) = source attestationType r := rfl

/-- A script with one more class is another one. -/
theorem render_cons_ne (name : String) (c : Class) (classes : List Class) :
    render name (c :: classes) ≠ render name classes := by
  intro same
  have lengths := congrArg (fun script => script.toList.length + 1) same
  have first : 0 < (c.lines.map fun line => line.toList.length + 1).sum := by
    simp [Class.lines]
  rw [render, render, length_unlines (by simp), length_unlines (by simp),
    List.flatMap_cons] at lengths
  simp only [List.map_append, List.sum_append] at lengths
  omega

/-! ## Writing -/

/-- The scripts of some types are found in a directory.  They are the sources of the checked
records, so that nothing of the run is mentioned. -/
def Written (dir : Path) (units : List TypeUnit) (files : FileTree) : Prop :=
  ∀ t ∈ units, ∃ record text, t.tree.checkedRecord = .ok record ∧
    source t.name record = .ok text ∧
    Holds files dir (fileName t.name) text

/-- The places of the scripts of some types. -/
def places (dir : Path) (units : List TypeUnit) : Set Place :=
  {q | ∃ t ∈ units, q = placeOf dir ++ [fileName t.name]}

section Write

variable {dir : Path} {w w' : Workspace} {u : Unit}

/-- What the run for one type has done. -/
theorem writes_of_writeUnit {t : TypeUnit} (hname : '/' ∉ t.name.toList)
    (h : (writeUnit dir t).runIn w = (.ok u, w')) :
    ∃ record text, t.tree.checkedRecord = .ok record ∧ source t.name record = .ok text ∧
      Writes w.files w'.files dir (fileName t.name) text := by
  obtain ⟨record, v, made, h⟩ := runIn_bind_ok_iff.mp h
  obtain ⟨text, v', ran, h⟩ := runIn_bind_ok_iff.mp h
  obtain ⟨built, rfl⟩ := runIn_ofExcept_ok_iff.mp ran
  refine ⟨record, text, t.checkedRecord_of_record made, inContext_eq_ok_iff.mp built, ?_⟩
  rw [← t.keepsFiles_record.files_eq made]
  exact writes_of_runIn (isEntryName_fileName hname) h

/-- The run for types of different names writes their scripts and nothing else. -/
theorem written_of_writeUnits {units : List TypeUnit}
    (names : ∀ t ∈ units, '/' ∉ t.name.toList)
    (nodup : (units.map (·.name)).Nodup)
    (h : (units.forM (writeUnit dir)).runIn w = (.ok u, w')) :
    Written dir units w'.files ∧ ChangesOnly w.files w'.files (places dir units) := by
  induction units generalizing w with
  | nil =>
      obtain ⟨-, rfl⟩ := runIn_pure_ok_iff.mp h
      exact ⟨fun t ht => absurd ht List.not_mem_nil, ChangesOnly.refl _ _⟩
  | cons t more ih =>
      obtain ⟨_, v, first, h⟩ := runIn_bind_ok_iff.mp h
      obtain ⟨fresh, nodup⟩ := List.nodup_cons.mp nodup
      obtain ⟨record, text, checked, built, wrote⟩ :=
        writes_of_writeUnit (names t List.mem_cons_self) first
      obtain ⟨written, changes⟩ := ih (fun t ht => names t (List.mem_cons_of_mem _ ht)) nodup h
      -- The later scripts have other names.
      have other : placeOf dir ++ [fileName t.name] ∉ places dir more := by
        rintro ⟨t', ht', same⟩
        refine fresh (List.mem_map.mpr ⟨t', ht', fileName_inj ?_⟩)
        exact (List.cons.inj (List.append_cancel_left same)).1.symm
      refine ⟨List.forall_mem_cons.mpr ⟨⟨record, text, checked, built,
        changes.keeps wrote.holds other⟩, written⟩, ?_⟩
      refine (wrote.mono ?_).trans (changes.mono ?_)
      · exact Set.singleton_subset_iff.mpr ⟨t, List.mem_cons_self, rfl⟩
      · rintro q ⟨t', ht', rfl⟩
        exact ⟨t', List.mem_cons_of_mem _ ht', rfl⟩

/-- **Writing all types** writes their scripts and nothing else. -/
theorem written_of_writeAll {s : Settings} {outPath : Option Path} {v : Workspace}
    {units : List TypeUnit}
    (names : ∀ t ∈ units, '/' ∉ t.name.toList) (nodup : (units.map (·.name)).Nodup)
    (types : (TypeUnit.loadAll s).runIn w = (.ok units, v))
    (h : (writeAll s outPath).runIn w = (.ok u, w')) :
    Written (s.resolve (outPath.getD s.locations.dto)) units w'.files ∧
      ChangesOnly w.files w'.files (places (s.resolve (outPath.getD s.locations.dto))
        units) := by
  obtain ⟨units', v', types', h⟩ := runIn_bind_ok_iff.mp h
  rw [types] at types'
  cases types'
  rw [← (TypeUnit.keepsFiles_loadAll s).files_eq types]
  exact written_of_writeUnits names nodup h

/-- The script of the only type is written where its directory can be made and the file can be
written. -/
theorem exists_runIn_writeAll {s : Settings} {outPath : Option Path} {t : TypeUnit}
    {record : TypeRecord} {text : String}
    {parent : Path} {v : Workspace} {between after : FileTree}
    (types : (TypeUnit.loadAll s).runIn w = (.ok [t], w))
    (made : t.record.runIn w = (.ok record, v)) (built : source t.name record = .ok text)
    (hparent : ((s.resolve (outPath.getD s.locations.dto)).entry (fileName t.name)).parent
      = some parent)
    (first : w.files.makeDirs parent = .ok between)
    (second : between.write ((s.resolve (outPath.getD s.locations.dto)).entry
      (fileName t.name)) text = .ok after) :
    ∃ w', (writeAll s outPath).runIn w = (.ok (), w') ∧ w'.files = after := by
  rw [← t.keepsFiles_record.files_eq made] at first
  obtain ⟨w', wrote, files⟩ : ∃ w', (writeGenerated "DTO"
      ((s.resolve (outPath.getD s.locations.dto)).entry (fileName t.name)) text).runIn v
        = (.ok (), w') ∧ w'.files = after :=
    exists_runIn_writeGenerated hparent first second
  refine ⟨w', ?_, files⟩
  rw [writeAll, runIn_bind_of_ok types]
  refine runIn_bind_ok_iff.mpr ⟨(), w', ?_, rfl⟩
  rw [writeUnit, runIn_bind_of_ok made, built]
  exact wrote

end Write

end Attestation.Dto
