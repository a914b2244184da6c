import Attestation.Proofs.Verifier.FileNames
import Attestation.Proofs.Verifier.GivenName
import Attestation.Proofs.Verifier.LocalImports
import Attestation.Proofs.Workspace.Refilling

/-!
# Scripts of different verifiers

A verifier has three scripts of its own, whose places say for whom they are.  So an
installation neither reads nor writes a script of another verifier, unless both have the same
files (`asksOnly_install`).

* `Names.scripts`: the scripts that belong to one verifier alone.
* `IsScript`: the files that an installation writes scripts to, and puts into shape.

## Design notes

An installation asks for many files, and it would be tedious to say of each that it is not the
script of the other verifier.  The endings decide it: what ends like a script of some kind is
such a script, and two scripts of one kind lie at the same place exactly if the verifiers have
the same files.  All other files end in another way, but for the app module, whose path is an
option.
-/

namespace Attestation.Verifier

open FileTree Text Attestation.Path Plan

/-! ## Places of scripts -/

/-- The scripts that belong to a verifier alone. -/
def Names.scripts (n : Names) : List Path :=
  [n.serviceFile, n.controllerFile, n.controllerTestFile]

/-- How the names of these scripts end. -/
def scriptEndings : List String := [".service.ts", ".controller.ts", ".controller.spec.ts"]

theorem isNameChar_of_scriptEnding {ending : String} (h : ending ∈ scriptEndings) :
    ∀ c ∈ ending.toList, isNameChar c = true :=
  List.all_eq_true.mp
    ((by decide : ∀ ending ∈ scriptEndings, ending.toList.all isNameChar = true) ending h)

section Places

variable {o : Options} {t d : String} (ht : IsAlphanum t) (hd : IsAlphanum d) (repo : Path)
  {file : Path}

include ht hd in
/-- The place of a script says for whom it is. -/
theorem exists_placeOf_script (hfile : file ∈ (Names.make o t d).scripts) :
    ∃ front, ∃ ending ∈ scriptEndings, placeOf (repo.join file) = front ++ [toSmall d,
      stem t d ++ ending] := by
  have place : ∀ root : Path, ∀ ending ∈ scriptEndings,
      placeOf (repo.join ((sourceDir root d).entry (stem t d ++ ending)))
        = names repo root ++ [toSmall d, stem t d ++ ending] := by
    intro root ending hending
    rw [← names_eq_climb, names_script repo root ht hd (isNameChar_of_scriptEnding hending)]
  rw [Names.scripts, Names.serviceFile, Names.controllerFile, Names.controllerTestFile,
    entry_serviceDir,
    entry_controllerDir, entry_controllerDir] at hfile
  simp only [List.mem_cons, List.not_mem_nil, or_false] at hfile
  obtain service | controller | test := hfile
  · exact ⟨_, ".service.ts", by decide, service ▸ place o.servicesRelPath _ (by decide)⟩
  · exact ⟨_,
      ".controller.ts", by decide, controller ▸ place o.controllersRelPath _ (by decide)⟩
  · exact ⟨_,
      ".controller.spec.ts", by decide, test ▸ place o.controllersRelPath _ (by decide)⟩

/-- The name of a script says of which kind it is. -/
theorem suffix_stem (t d ending : String) :
    ("-verifier" ++ ending).toList <:+ (stem t d ++ ending).toList :=
  ⟨(toSmall d ++ "-" ++ kebab t).toList, by simp [stem]⟩

variable {q : Place}

include ht hd in
/-- What ends in another way is no script. -/
theorem placeOf_ne_script (hfile : file ∈ (Names.make o t d).scripts) (dir : Path)
    {other word : String}
    (ends : word.toList <:+ other.toList) (slash : '/' ∉ word.toList)
    (long : 2 < word.toList.length)
    (differs : ∀ ending ∈ scriptEndings, ¬ word.toList <:+ ("-verifier" ++ ending).toList ∧
      ¬ ("-verifier" ++ ending).toList <:+ word.toList) :
    placeOf (dir.entry other) ≠ placeOf (repo.join file) := by
  obtain ⟨front, ending, hending, place⟩ := exists_placeOf_script ht hd repo hfile
  obtain ⟨_, name, place', suffix⟩ :=
    exists_placeOf_of_suffix (ends.trans (suffix_entry dir other)) slash long
  intro same
  have last : name = stem t d ++ ending := by
    have lasts := congrArg List.getLast? ((place'.symm.trans same).trans place)
    simpa using lasts
  rw [last] at suffix
  rcases List.suffix_or_suffix_of_suffix suffix (suffix_stem t d ending) with inside | inside
  · exact (differs ending hending).1 inside
  · exact (differs ending hending).2 inside

variable {o' : Options} {t' d' : String} (ht' : IsAlphanum t') (hd' : IsAlphanum d')
  {file' : Path} (repo' : Path)
include ht hd ht' hd'

/-- **Verifiers without the same files have no script in common.** -/
theorem script_ne_script (apart : ¬ SameFiles t d t' d')
    (hfile : file ∈ (Names.make o t d).scripts)
    (hfile' : file' ∈ (Names.make o' t' d').scripts) :
    placeOf (repo.join file) ≠ placeOf (repo'.join file') := by
  obtain ⟨front, ending, hending, place⟩ := exists_placeOf_script ht hd repo hfile
  obtain ⟨front', ending', hending', place'⟩ := exists_placeOf_script ht' hd' repo' hfile'
  intro same
  rw [place, place'] at same
  have hyphen : ∀ ending ∈ scriptEndings, '-' ∉ ending.toList := by decide
  exact apart (.of_script_eq (hyphen _ hending) (hyphen _ hending') same)

end Places

/-! ## What an installation asks for -/

section Install

variable {programs : Programs} {q : Place}

/-- A formatter that leaves a file alone is run on others. -/
theorem asksOnly_format {formatter : Option String}
    (confines : ∀ command ∈ formatter, programs.Confines command q)
    {files : List Path} (others : ∀ file ∈ files, placeOf file ≠ q) :
    (format formatter files).AsksOnly (Request.Avoids programs q) := by
  unfold format
  split
  · exact asksOnly_log trivial
  · next command =>
      split
      · exact .done _
      · split
        · exact .fail _
        · next program options cut =>
            have leaves := confines command rfl program options cut files others
            refine AsksOnly.bind (.ask leaves (asksOnly_checked _)) fun status => ?_
            split
            · exact .fail _
            · exact asksOnly_log trivial

theorem asksOnly_writeScript {label text : String} {path : Path} (other : placeOf path ≠ q) :
    (writeScript label path text).AsksOnly (Request.Avoids programs q) :=
  (asksOnly_writeGenerated (fun _ => trivial) other fun _ => trivial).bind fun _ => .done _

theorem asksOnly_editAppModule (here : Path) {s : Settings} {repo : Path} {o : Options}
    (n : Names) (clear : Bool)
    (confines : ∀ command ∈ s.prettier, programs.Confines command q)
    (other : placeOf (repo.join o.appModuleRelativePath) ≠ q) :
    (editAppModule here s repo o n clear).AsksOnly (Request.Avoids programs q) := by
  refine (asksOnly_readText other).bind fun content =>
    (asksOnly_ofExcept _).bind fun updated => ?_
  refine (asksOnly_write other).bind fun _ => (asksOnly_print trivial).bind fun _ => ?_
  exact asksOnly_format confines (List.forall_mem_singleton.mpr other)

theorem gives_writeScript {good : Path → Prop} {label text : String} {path : Path}
    (h : good path) :
    (writeScript label path text).Gives good :=
  gives_bind _ fun _ => .done h

/-- A file that a script of a verifier is written to. -/
def IsScript (here repo : Path) (o : Options) (n : Names) (path : Path) : Prop :=
  ∃ file ∈ (scriptFiles here o n).map Prod.fst, path = repo.join file

section IsScript

variable {here repo : Path} {o : Options} {t d : String} (ht : IsAlphanum t)
  (hd : IsAlphanum d)
include ht

theorem isScript_dto :
    IsScript here repo o (Names.make o t d) ((repo.join o.dtoRelPath).entry
      (Dto.fileName t)) :=
  ⟨dtoFile o t, by simp [scriptFiles, Names.make], join_dtoFile repo ht o⟩

omit ht in
theorem isScript_genericDto (n : Names) :
    IsScript here repo o n ((repo.join o.dtoGenericRelPath).entry "generic.dto.ts") :=
  ⟨genericDtoFile o, by simp [scriptFiles], join_genericDtoFile repo o⟩

include hd

theorem isScript_service :
    IsScript here repo o (Names.make o t d)
      ((repo.join (Names.make o t d).serviceModule).withExtension "service.ts") :=
  ⟨(Names.make o t d).serviceFile, by simp [scriptFiles], join_serviceFile repo ht hd o⟩

theorem isScript_controller :
    IsScript here repo o (Names.make o t d)
      ((repo.join (Names.make o t d).controllerModule).withExtension "controller.ts") :=
  ⟨(Names.make o t d).controllerFile, by simp [scriptFiles], join_controllerFile repo ht hd o⟩

theorem isScript_test (tested : o.controllerTests = true) :
    IsScript here repo o (Names.make o t d)
      ((repo.join (Names.make o t d).controllerDir).entry
        s!"{(Names.make o t d).fileStem}.controller.spec.ts") :=
  ⟨(Names.make o t d).controllerTestFile, by simp [scriptFiles,
    tested], join_controllerTestFile repo ht hd o⟩

/-- Only the files of scripts are given to the formatter. -/
theorem gives_writeScripts (record : TypeRecord) :
    (writeScripts here repo o (Names.make o t d) record).Gives
      fun files => ∀ path ∈ files, IsScript here repo o (Names.make o t d) path := by
  have script : ∀ {label text : String} {path : Path},
    IsScript here repo o (Names.make o t d) path →
      (writeScript label path text).Gives (IsScript here repo o (Names.make o t d)) :=
      gives_writeScript
  unfold writeScripts
  refine gives_bind _ fun text => ?_
  refine (script (isScript_dto ht)).bind fun dto hdto => ?_
  refine (script (isScript_genericDto _)).bind fun generic hgeneric => ?_
  refine gives_bind _ fun old => gives_bind _ fun text => ?_
  refine (script (isScript_service ht hd)).bind fun service hservice => ?_
  refine (script (isScript_controller ht hd)).bind fun controller hcontroller => ?_
  have written : ∀ path ∈ [dto, generic, service, controller],
    IsScript here repo o (Names.make o t d) path := by
    simp [hdto, hgeneric, hservice, hcontroller]
  dsimp only
  split
  · next tested =>
      refine (script (isScript_test ht hd tested)).bind fun test htest =>
        .done fun path hpath => ?_
      rcases List.mem_append.mp hpath with hpath | hpath
      · exact written path hpath
      · exact List.mem_singleton.mp hpath ▸ htest
  · exact .done written

end IsScript

variable {t d : String} (ht : IsAlphanum t) (hd : IsAlphanum d)
  {o' : Options} {t' d' : String} (ht' : IsAlphanum t') (hd' : IsAlphanum d')
  {repo' file' : Path}
  (hfile' : file' ∈ (Names.make o' t' d').scripts) (apart : ¬ SameFiles t d t' d')
include ht hd ht' hd' hfile' apart

/-- The scripts of another verifier are written elsewhere. -/
theorem IsScript.place_ne {here repo path : Path} {o : Options}
    (h : IsScript here repo o (Names.make o t d) path) :
    placeOf path ≠ placeOf (repo'.join file') := by
  have own : ∀ {file : Path}, file ∈ (Names.make o t d).scripts →
      placeOf (repo.join file) ≠ placeOf (repo'.join file') :=
    fun hfile => script_ne_script ht hd repo ht' hd' repo' apart hfile hfile'
  have dto : ∀ dir : Path, ∀ {name : String}, ".dto.ts".toList <:+ name.toList →
      placeOf (dir.entry name) ≠ placeOf (repo'.join file') :=
    fun dir _ ends => placeOf_ne_script ht' hd' repo' hfile' dir ends (by decide) (by decide)
      (by decide)
  obtain ⟨file, hfile, rfl⟩ := h
  rw [scriptFiles, List.map_append, List.mem_append] at hfile
  simp only [List.map_cons, List.map_nil, List.mem_cons, List.not_mem_nil, or_false] at hfile
  rcases hfile with (rfl | rfl | rfl | rfl) | hfile
  · rw [show (Names.make o t d).attestationType = t from rfl, ← join_dtoFile repo ht o]
    refine dto _ ?_
    rw [Dto.fileName, String.toList_append]
    exact List.suffix_append _ _
  · rw [← join_genericDtoFile repo o]
    exact dto _ (by decide)
  · exact own (by simp [Names.scripts])
  · exact own (by simp [Names.scripts])
  · split at hfile
    · obtain rfl := List.mem_singleton.mp hfile
      exact own (by simp [Names.scripts])
    · cases hfile

theorem asksOnly_writeScripts (here repo : Path) (o : Options) (record : TypeRecord) :
    (writeScripts here repo o (Names.make o t d) record).AsksOnly
      (Request.Avoids programs (placeOf (repo'.join file'))) := by
  have other : ∀ {path : Path}, IsScript here repo o (Names.make o t d) path →
      placeOf path ≠ placeOf (repo'.join file') :=
    IsScript.place_ne ht hd ht' hd' hfile' apart
  have service := other (isScript_service ht hd)
  unfold writeScripts
  refine (asksOnly_ofExcept _).bind fun text =>
    (asksOnly_writeScript (other (isScript_dto ht))).bind fun _ => ?_
  refine (asksOnly_writeScript (other (isScript_genericDto _))).bind fun _ => ?_
  refine AsksOnly.bind ?_ fun old => ?_
  · refine (asksOnly_exists trivial).bind fun there => ?_
    split
    · exact asksOnly_readText service
    · exact .done _
  refine (asksOnly_ofExcept _).bind fun text => (asksOnly_writeScript service).bind fun _ => ?_
  refine (asksOnly_writeScript (other (isScript_controller ht hd))).bind fun _ => ?_
  split
  · next tested =>
      exact (asksOnly_writeScript (other (isScript_test ht hd tested))).bind fun _ => .done _
  · exact .done _

/-- **An installation neither reads nor writes a script of another verifier**, unless it is the
app module. -/
theorem asksOnly_install (here : Path) {s : Settings} {given : String} (clear : Bool)
    (hgiven : bareName given = t)
    (confines : ∀ command ∈ s.prettier, programs.Confines command (placeOf (repo'.join file')))
    (appModule : placeOf ((s.resolve (s.verifier.resolve d).repoPath).join
      (s.verifier.resolve d).appModuleRelativePath)
      ≠ placeOf (repo'.join file')) :
    (install here s given d clear).AsksOnly
    (Request.Avoids programs (placeOf (repo'.join file'))) := by
  subst hgiven
  unfold install
  dsimp only
  split
  · exact asksOnly_editAppModule here _ _ confines appModule
  · refine (TypeRecord.asksOnly_loadAll _ trivial fun file ends => ?_).bind fun records => ?_
    · exact placeOf_ne_script ht' hd' repo' hfile' _ ends (by decide) (by decide) (by decide)
    split
    · exact .fail _
    · next record _ =>
        refine (asksOnly_writeScripts ht hd ht' hd' hfile' apart here _ _ record).bind_of_gives
          (gives_writeScripts ht hd record) fun written scripts => ?_
        refine (asksOnly_format confines fun path hpath => ?_).bind fun _ => ?_
        · exact (scripts path hpath).place_ne ht hd ht' hd' hfile' apart
        · exact asksOnly_editAppModule here _ _ confines appModule

end Install

end Attestation.Verifier
