import Attestation.Proofs.Path.Joining
import Attestation.Proofs.Script.ImportParts
import Attestation.Proofs.Verifier.PlainNames

/-!
# Names of the files of verifiers

The files of a verifier lie in a directory for its data source, which is named in small
letters, and their names are made of the data source and the kebab form of the type.

## Main definitions

* `SameFiles`: data sources and types that are written alike in the names of files.

## Design notes

Paths are compared by the names on their way (`Path.names`) and not as texts: the same file may
be reached by many texts, and the last two names say for whom it is (`SameFiles.of_script_eq`).
This settles the files (`serviceModule_eq_iff`, `controllerModule_eq_iff`) as well as the
modules that an app module imports for a verifier, which are paths relative to the directory of
the app module (`own_module_ne`).
-/

namespace Attestation.Verifier

open FileTree Text Attestation.Path

/-- Data sources and types that are written alike in the names of files.  Directories and files
are named in small letters, and two types may have one kebab form. -/
def SameFiles (t d t' d' : String) : Prop := toSmall d = toSmall d' ∧ kebab t = kebab t'

instance (t d t' d' : String) : Decidable (SameFiles t d t' d') :=
  inferInstanceAs (Decidable (_ ∧ _))

/-! ## Names -/

section Names

variable {o : Options} {t d t' d' : String}

theorem serviceClass_eq_iff :
    (Names.make o t d).serviceClass = (Names.make o t' d').serviceClass ↔
    d ++ t = d' ++ t' := by
  rw [Names.serviceClass, Names.serviceClass, String.append_left_inj]
  rfl

theorem controllerClass_eq_iff :
    (Names.make o t d).controllerClass = (Names.make o t' d').controllerClass ↔
    d ++ t = d' ++ t' := by
  rw [Names.controllerClass, Names.controllerClass, String.append_left_inj]
  rfl

/-- The directory for a data source. -/
def sourceDir (root : Path) (d : String) : Path := root.entry (toSmall d)

/-- What the names of the scripts start with. -/
def stem (t d : String) : String := toSmall d ++ "-" ++ kebab t ++ "-verifier"

theorem fileStem_make : (Names.make o t d).fileStem = stem t d := rfl

theorem entry_serviceDir (ending : String) :
    (Names.make o t d).serviceDir.entry ((Names.make o t d).fileStem ++ ending)
    = (sourceDir o.servicesRelPath d).entry (stem t d ++ ending) := by
  rw [serviceDir_make, sourceDir, fileStem_make]

theorem entry_controllerDir (ending : String) :
    (Names.make o t d).controllerDir.entry ((Names.make o t d).fileStem ++ ending)
      = (sourceDir o.controllersRelPath d).entry (stem t d ++ ending) := by
  rw [controllerDir_make, sourceDir, fileStem_make]

theorem serviceModule_make (o : Options) (t d : String) :
    (Names.make o t d).serviceModule = (sourceDir o.servicesRelPath d).entry
      (stem t d ++ ".service") := by
  rw [Names.serviceModule, entry_serviceDir]

theorem controllerModule_make (o : Options) (t d : String) :
    (Names.make o t d).controllerModule = (sourceDir o.controllersRelPath d).entry
      (stem t d ++ ".controller") := by
  rw [Names.controllerModule, entry_controllerDir]

theorem isEntryName_toSmall (hd : IsAlphanum d) : IsEntryName (toSmall d) :=
  (isPlainName_of_isAlphanum (isAlphanum_toSmall hd)).isEntryName

theorem isEntryName_stem (ht : IsAlphanum t) (hd : IsAlphanum d) {ending : String}
    (chars : ∀ c ∈ ending.toList, isNameChar c = true) : IsEntryName (stem t d ++ ending) :=
  (isPlainName_fileStem default ht hd chars).isEntryName

/-- Seen from anywhere, a script lies in the directory for its data source. -/
theorem names_script (here root : Path) (ht : IsAlphanum t) (hd : IsAlphanum d)
    {ending : String}
    (chars : ∀ c ∈ ending.toList, isNameChar c = true) :
    names here ((sourceDir root d).entry (stem t d ++ ending)) = names here root ++ [toSmall d,
      stem t d ++ ending] := by
  rw [names_entry here _ (isEntryName_stem ht hd chars), sourceDir,
    names_entry here _ (isEntryName_toSmall hd),
    List.append_assoc]
  rfl

/-- From the directory that holds their directories, the scripts of a verifier are found by the
way down. -/
theorem specifier_script (here : Path) {dir : Path} (hdir : dir.text ≠ "") {kind : String}
    (hkind : IsPlainName kind.toList) (ht : IsAlphanum t) (hd : IsAlphanum d) {ending : String}
    (chars : ∀ c ∈ ending.toList, isNameChar c = true) :
    specifier here dir ((sourceDir (dir.entry kind) d).entry (stem t d ++ ending))
      = "./" ++ Text.join "/" [kind, toSmall d, stem t d ++ ending] := by
  refine specifier_below here hdir (entry_ne_empty (entry_ne_empty (entry_ne_empty hdir _) _)
    _) ?_ hkind.head
  rw [← sourceDir, names_script here _ ht hd chars, names_entry here dir hkind.isEntryName,
    List.append_assoc]
  rfl

/-- What the app module of the template imports for a verifier. -/
theorem own_template (here : Path) (ht : IsAlphanum t) (hd : IsAlphanum d) :
    own here .template (Names.make .template t d) =
      [.ofNames ("./" ++ Text.join "/" ["controller", toSmall d, stem t d ++ ".controller"])
          [(d ++ t) ++ "VerifierController"],
        .ofNames ("./" ++ Text.join "/" ["service", toSmall d, stem t d ++ ".service"])
          [(d ++ t) ++ "VerifierService"]] := by
  have start : (moduleDir .template).text ≠ "" := by decide
  have controllers : Options.template.controllersRelPath
      = (moduleDir .template).entry "controller" := by decide
  have services : Options.template.servicesRelPath
      = (moduleDir .template).entry "service" := by decide
  rw [own, controllerImport, serviceImport, controllerModule_make, serviceModule_make,
    controllers, services,
    specifier_script here start ⟨by decide, forall_mem_of_all (by decide), by decide⟩ ht hd
      (forall_mem_of_all (by decide)),
    specifier_script here start ⟨by decide, forall_mem_of_all (by decide), by decide⟩ ht hd
      (forall_mem_of_all (by decide))]
  rfl

/-- The kind of a script is told behind the last hyphen of its name. -/
theorem getLast?_splitOn_stem (t d : String) {ending : String} (hyphen : '-' ∉ ending.toList) :
    (List.splitOn '-' (stem t d ++ ending).toList).getLast?
      = some ("verifier" ++ ending).toList := by
  have chars : (stem t d ++ ending).toList
      = (toSmall d ++ "-" ++ kebab t).toList ++ '-' :: ("verifier" ++ ending).toList := by
    simp [stem]
  have last : '-' ∉ ("verifier" ++ ending).toList := by simpa using hyphen
  rw [chars, List.splitOn_append_cons_self, List.splitOn_eq_singleton last,
    List.getLast?_append_of_ne_nil _ (by simp),
    List.getLast?_singleton]

/-- **A script says for whom it is.** -/
theorem SameFiles.of_script_eq {ending ending' : String} {front front' : List String}
    (hyphen : '-' ∉ ending.toList)
    (hyphen' : '-' ∉ ending'.toList)
    (same : front ++ [toSmall d, stem t d ++ ending] = front' ++ [toSmall d',
      stem t' d' ++ ending']) :
    SameFiles t d t' d' := by
  have last := (List.append_inj' same (by simp only [List.length_cons, List.length_nil])).2
  rw [List.cons.injEq, List.cons.injEq] at last
  obtain ⟨small, stems, -⟩ := last
  have kind : ending = ending' := by
    have behind := getLast?_splitOn_stem t d hyphen
    rw [stems, getLast?_splitOn_stem t' d' hyphen', Option.some.injEq, String.toList_inj,
      String.append_right_inj] at behind
    exact behind.symm
  rw [kind, String.append_left_inj, stem, stem, String.append_left_inj, small,
    String.append_right_inj] at stems
  exact ⟨small, stems⟩

theorem SameFiles.stem_eq (h : SameFiles t d t' d') : stem t d = stem t' d' := by
  rw [stem, stem, h.1, h.2]

variable (o) (ht : IsAlphanum t) (hd : IsAlphanum d) (ht' : IsAlphanum t')
  (hd' : IsAlphanum d')
include ht hd ht' hd'

theorem script_eq_iff (root : Path) {ending : String}
    (chars : ∀ c ∈ ending.toList, isNameChar c = true)
    (hyphen : '-' ∉ ending.toList) :
    (sourceDir root d).entry (stem t d ++ ending) = (sourceDir root d').entry
      (stem t' d' ++ ending)
      ↔ SameFiles t d t' d' := by
  constructor
  · intro same
    have places := congrArg (names root) same
    rw [names_script root root ht hd chars, names_script root root ht' hd' chars] at places
    exact .of_script_eq hyphen hyphen places
  · intro same
    rw [sourceDir, sourceDir, same.1, same.stem_eq]

theorem serviceModule_eq_iff :
    (Names.make o t d).serviceModule = (Names.make o t' d').serviceModule ↔
    SameFiles t d t' d' := by
  rw [serviceModule_make, serviceModule_make]
  exact script_eq_iff ht hd ht' hd' o.servicesRelPath (forall_mem_of_all (by decide))
    (by decide)

theorem controllerModule_eq_iff :
    (Names.make o t d).controllerModule = (Names.make o t' d').controllerModule ↔
    SameFiles t d t' d' := by
  rw [controllerModule_make, controllerModule_make]
  exact script_eq_iff ht hd ht' hd' o.controllersRelPath (forall_mem_of_all (by decide))
    (by decide)

end Names

/-! ## What an app module imports -/

section Imports

variable {here : Path} {o : Options}

theorem moduleDir_nonempty (o : Options) : (moduleDir o).text ≠ "" := by
  unfold moduleDir
  split
  · split
    · decide
    · next full => simpa using full
  · decide

/-- The modules from which a verifier is imported say for whom it is. -/
theorem exists_names_own {t d : String} (ht : IsAlphanum t) (hd : IsAlphanum d) {i : Import}
    (hi : i ∈ own here o (Names.make o t d)) : ∃ front kind, '-' ∉ kind.toList ∧
      names here ((moduleDir o).join ⟨i.module⟩) = front ++ [toSmall d, stem t d ++ kind] := by
  have arrives : ∀ (root : Path) (kind : String), (∀ c ∈ kind.toList, isNameChar c = true) →
      names here ((moduleDir o).join ⟨specifier here (moduleDir o)
        ((sourceDir root d).entry (stem t d ++ kind))⟩)
        = names here root ++ [toSmall d, stem t d ++ kind] := by
    intro root kind chars
    have name := isEntryName_stem ht hd chars
    have nonempty : ((sourceDir root d).entry (stem t d ++ kind)).text ≠ "" := by
      rw [entry_eq _ name]
      exact fun empty => name.nonempty (String.append_eq_empty_iff.mp empty).2
    rw [names_join_specifier here (moduleDir_nonempty o) nonempty,
      names_script here root ht hd chars]
  rw [own, List.mem_cons, List.mem_singleton, controllerImport, serviceImport,
    controllerModule_make, serviceModule_make]
    at hi
  rcases hi with rfl | rfl
  · rw [Import.module_ofNames, arrives _ _ (forall_mem_of_all (by decide))]
    exact ⟨_, ".controller", by decide, rfl⟩
  · rw [Import.module_ofNames, arrives _ _ (forall_mem_of_all (by decide))]
    exact ⟨_, ".service", by decide, rfl⟩

/-- **Verifiers without the same files are imported from other modules.** -/
theorem own_module_ne {t d t' d' : String} (ht : IsAlphanum t) (hd : IsAlphanum d)
    (ht' : IsAlphanum t')
    (hd' : IsAlphanum d') (apart : ¬ SameFiles t d t' d') {i j : Import}
    (hi : i ∈ own here o (Names.make o t d))
    (hj : j ∈ own here o (Names.make o t' d')) : i.module ≠ j.module := by
  intro same
  obtain ⟨front, kind, hyphen, first⟩ := exists_names_own ht hd hi
  obtain ⟨front', kind', hyphen', second⟩ := exists_names_own ht' hd' hj
  rw [same] at first
  exact apart (.of_script_eq hyphen hyphen' (first.symm.trans second))

end Imports

end Attestation.Verifier
