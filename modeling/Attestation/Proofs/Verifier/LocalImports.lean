import Attestation.Proofs.Compiler.Loading
import Attestation.Proofs.Path.Arrival
import Attestation.Proofs.Path.Entry
import Attestation.Proofs.Text.Lines
import Attestation.Proofs.Verifier.PlainNames
import Attestation.Proofs.Verifier.ServiceSections
import Attestation.Proofs.Verifier.Wiring
import Attestation.Verifier.Install

/-!
# Local imports of a verifier

The scripts of a verifier import each other and the DTO scripts, and the app module imports the
controller and the service.  All specifiers lead to files that the same run writes
(`localImports_written`).

## Main definitions

* `Verifier.scriptAt`: the script that a specifier means.
* `Verifier.Leads`: a specifier leads from one script of the repository to another.
* `Verifier.Imports`: a script has a line that imports some names.
* `Verifier.Linked`: the scripts of a verifier import each other, and the app module imports
  it.

## Design notes

Where a specifier leads is found by lexical arithmetic on the directories of the options, while
the files are written through joined paths with other extensions.  Both are brought to places
below the root of the repository, and are compared there for every root.

The import lines of the templates are found by what they say and not by their position, one
lemma for each line, and the steps of the installation by what they write, one lemma for each
file.  A further line or step concerns none of them.
-/

namespace Attestation

open FileTree Text

namespace Verifier

open Attestation.Path ArrayLiteral ImportBlock

/-! ## The files of a verifier -/

namespace Names

/-- The file of the service. -/
def serviceFile (n : Names) : Path := n.serviceDir.entry (n.fileStem ++ ".service.ts")

/-- The file of the controller. -/
def controllerFile (n : Names) : Path := n.controllerDir.entry (n.fileStem ++ ".controller.ts")

/-- The file of the test of the controller. -/
def controllerTestFile (n : Names) : Path :=
  n.controllerDir.entry (n.fileStem ++ ".controller.spec.ts")

end Names

/-- The DTO file of an attestation type. -/
def dtoFile (o : Options) (attestationType : String) : Path :=
  o.dtoRelPath.entry (Dto.fileName attestationType)

/-- The DTO file that all types share. -/
def genericDtoFile (o : Options) : Path := o.dtoGenericRelPath.entry "generic.dto.ts"

/-! ## Where specifiers lead -/

/-- The script that a specifier means in a directory, which leaves out the extension.  This is
the rule of the loader, told on places: steps are followed one by one, and the last one names
the file. -/
def scriptAt (dir : Place) (specifier : String) : Place :=
  let place := climb dir (pieces ⟨specifier⟩)
  place.dropLast ++ [place.getLast?.getD "" ++ ".ts"]

/-- In the script `file` of a repository, a specifier that starts at the script means the
script `target`, wherever the repository lies.  A specifier that does not start with a dot
would be searched for among the packages. -/
def Leads (file : Path) (specifier : String) (target : Path) : Prop :=
  IsExplicit specifier ∧ ∀ root :
  Place, scriptAt (root ++ (placeOf file).dropLast) specifier = root ++ placeOf target

/-- A script has a line that imports some names and others.  It asks for the whole line, so the
statement stands behind no line comment. -/
def Imports (script : String) (names : List String) (specifier : String) : Prop :=
  ∃ clause quote, (∀ name ∈ names, name ∈ clause) ∧ (quote = "'" ∨ quote = "\"") ∧
    HasLine script ("import \x7b " ++ join ", " clause ++ " \x7d from " ++ quote ++ specifier
      ++ quote ++ ";")

/-- The script `file` of a repository imports some names from the script `target`. -/
def Links (file : Path) (script : String) (names : List String) (target : Path) : Prop :=
  ∃ specifier, Imports script names specifier ∧ Leads file specifier target

/-- The script `file` of a repository has the line of a statement that imports a name from the
script `target`, and may import more. -/
def LinksMerged (file : Path) (script : List Char) (name : String) (target : Path) : Prop :=
  ∃ i : Import, name ∈ i.named ∧ i.line <:+: script ∧ Leads file i.module target

/-- A specifier leads from a directory of the repository to a script in another one. -/
theorem leads_specifier (here : Path) {file source dir target : Path} {module : String}
    (hs : IsNamedDir source)
    (within : (placeOf file).dropLast = placeOf source) (hd : IsNamed dir)
    (hm : IsPlainName module.toList)
    (htarget : placeOf target = placeOf dir ++ [module ++ ".ts"]) :
    Leads file (specifier here source (dir.entry module)) target := by
  have name := hm.isEntryName
  have named := hd.entry name hm.head
  refine ⟨isExplicit_specifier here hs named, fun root => ?_⟩
  rw [scriptAt, within, climb_specifier here hs named, placeOf_entry name, htarget,
    ← List.append_assoc]
  simp

/-- A template with such a line imports the names. -/
theorem imports_of_mem {lines names : List String} {specifier : String} (line : String)
    (mem : line ∈ lines)
    (heq : line = "import \x7b " ++ join ", " names ++ " \x7d from " ++ "\"" ++ specifier
      ++ "\"" ++ ";") :
    Imports (unlines lines) names specifier :=
  ⟨names, "\"", fun _ hname => hname, .inr rfl, heq ▸ hasLine_unlines mem⟩

/-- A new service has one line for each module that it imports. -/
theorem exists_serviceSource_imports (here : Path) (o : Options) (n : Names) :
    ∃ script, serviceSource here o n "" = .ok script ∧
      ∀ module names, names ≠ [] → .ofNames module names ∈ serviceImports here o n →
      Imports script names module := by
  obtain ⟨script, generated⟩ : ∃ script, serviceSource here o n "" = .ok script :=
    exists_serviceSource_iff.mpr ⟨by rintro _ _ _ ⟨_, ⟨⟩, _⟩, by rintro _ _ _ ⟨_, ⟨⟩, _⟩⟩
  refine ⟨script, generated, fun module names hne hmem => ?_⟩
  obtain ⟨merged, hmerged, rfl⟩ := serviceSource_eq_ok_iff.mp generated
  obtain ⟨sorted, same⟩ := mergeImports_eq_ok_iff.mp hmerged
  -- The merged statement for the module has no other parts than names.
  obtain ⟨i, hi, hmodule, -⟩ :=
    (same module .module).mpr ⟨_, List.mem_append_left _ hmem, rfl, trivial⟩
  have has := fun item => has_iff_provides sorted hi item
  have named : ∀ name ∈ names, name ∈ i.named := by
    intro name hname
    refine (has (.named name)).mpr ((same _ _).mpr ⟨_, List.mem_append_left _ hmem,
      hmodule.symm, ?_⟩)
    exact NameSet.mem_ofList.mpr hname
  have none_ : ∀ j ∈ serviceImports here o n ++ (ImportBlock.ofText "".toList).imports,
      j.default = none ∧ j.wildcard = none := by
    intro j hj
    rcases List.mem_append.mp hj with hj | ⟨⟨⟩⟩
    exact serviceImports_named j hj
  have noDefault : i.default = none := by
    cases hdefault : i.default with
    | none => rfl
    | some name =>
        obtain ⟨j, hj, -, hname⟩ := (same _ _).mp ((has (.default name)).mp hdefault)
        cases (none_ j hj).1.symm.trans hname
  have noWildcard : i.wildcard = none := by
    cases hwildcard : i.wildcard with
    | none => rfl
    | some name =>
        obtain ⟨j, hj, -, hname⟩ := (same _ _).mp ((has (.wildcard name)).mp hwildcard)
        cases (none_ j hj).2.symm.trans hname
  refine ⟨i.named.toList, "'", named, .inl rfl, ?_⟩
  have line : i.render = "import \x7b " ++ join ", " i.named.toList ++ " \x7d from " ++ "'"
      ++ module ++ "'" ++ ";" := by
    have full : i.named.isEmpty = false := by
      obtain ⟨name, hname⟩ := List.exists_mem_of_ne_nil _ hne
      have member : name ∈ i.named.toList := named name hname
      rw [NameSet.isEmpty, List.isEmpty_eq_false_iff]
      exact List.ne_nil_of_mem member
    rw [Import.render, Import.renderNamed, full, noDefault, noWildcard, hmodule,
      ← String.toList_inj]
    simp
  rw [← line]
  exact (hasLine_unlines (List.mem_map_of_mem hi)).unlines_cons _

/-- The directories of the options that verifiers are put into, and the app module, have names
that do not start with a dot. -/
structure Options.IsNamed (o : Options) : Prop where
  appModule : o.appModuleRelativePath.IsNamed
  dto : o.dtoRelPath.IsNamed
  genericDto : o.dtoGenericRelPath.IsNamed
  services : o.servicesRelPath.IsNamed
  controllers : o.controllersRelPath.IsNamed

/-- The app module lies in its directory. -/
theorem Options.IsNamed.moduleDir {o : Options} (h : o.IsNamed) :
    IsNamedDir (moduleDir o) ∧ (placeOf o.appModuleRelativePath).dropLast
      = placeOf (moduleDir o) := by
  obtain ⟨dir, hparent, ⟨empty, alone⟩ | ⟨named, names⟩⟩ := h.appModule.exists_parent
  · have here : Verifier.moduleDir o = ⟨"."⟩ := by
      rw [Verifier.moduleDir, hparent]
      simp [empty]
    rw [here, h.appModule.placeOf_eq, alone]
    exact ⟨.inl rfl, rfl⟩
  · have there : Verifier.moduleDir o = dir := by
      rw [Verifier.moduleDir, hparent]
      simp [named.nonempty]
    rw [there, h.appModule.placeOf_eq, named.placeOf_eq, names]
    exact ⟨.inr named, rfl⟩

/-- The scripts of a verifier import each other, and the app module imports the controller and
the service, by specifiers that lead to their files.  There is one field for each script, and
one clause for each line of it that imports a file of the repository. -/
structure Linked (here : Path) (o : Options) (n : Names) : Prop where
  service : ∃ script, serviceSource here o n "" = .ok script ∧
    Links n.serviceFile script
      [s!"AttestationResponseDTO_{n.attestationType}_Response",
        s!"{n.attestationType}_Request",
        s!"{n.attestationType}_RequestNoMic", s!"{n.attestationType}_Response"]
          (dtoFile o n.attestationType) ∧
    Links n.serviceFile script ["EncodedRequestResponse", "MicResponse"] (genericDtoFile o)
  controller :
    Links n.controllerFile (controllerSource here o n) [n.serviceClass] n.serviceFile ∧
    Links n.controllerFile (controllerSource here o n)
      [s!"AttestationResponseDTO_{n.attestationType}_Response",
        s!"{n.attestationType}_RequestNoMic"]
      (dtoFile o n.attestationType) ∧
    Links n.controllerFile (controllerSource here o n) ["EncodedRequest",
      "EncodedRequestResponse", "MicResponse"]
      (genericDtoFile o)
  test :
    Links n.controllerTestFile (controllerTestSource here o n)
      [s!"{n.attestationType}_Request", s!"{n.attestationType}_RequestNoMic",
        s!"{n.attestationType}_Response"]
      (dtoFile o n.attestationType) ∧
    Links n.controllerTestFile (controllerTestSource here o n) [n.controllerClass]
      n.controllerFile ∧
    Links n.controllerTestFile (controllerTestSource here o n) [n.serviceClass] n.serviceFile
  appModule : ∀ content wired, wire here o n false content = .ok wired →
    (∃ imported, wireImports here o n false content = .ok imported ∧
      LinksMerged o.appModuleRelativePath imported n.controllerClass n.controllerFile ∧
      LinksMerged o.appModuleRelativePath imported n.serviceClass n.serviceFile) ∧
    -- An edit of an array in front of the import block, or in one of its lines, could change a
    -- line.
    (ArraysBehind content → (∀ i ∈ own here o n, ∀ name ∈ arrayNames,
      ¬ Occurs name i.module.toList) →
      LinksMerged o.appModuleRelativePath wired n.controllerClass n.controllerFile ∧
      LinksMerged o.appModuleRelativePath wired n.serviceClass n.serviceFile)

/-- The files that the scripts of a verifier are written to, and what is written there. -/
def scriptFiles (here : Path) (o : Options) (n : Names) : List (Path × (String → Prop)) :=
  [(dtoFile o n.attestationType, fun text => ∃ record, Dto.source n.attestationType record
    = .ok text),
    (genericDtoFile o, fun text => text = Dto.genericSource),
    (n.serviceFile, fun text => ∃ old, serviceSource here o n old = .ok text),
    (n.controllerFile, fun text => text = controllerSource here o n)]
    ++ if o.controllerTests then [(n.controllerTestFile, fun text =>
      text = controllerTestSource here o n)] else []

/-- The files that an installation writes to: the scripts, and the app module with the
verifier. -/
def writtenFiles (here : Path) (o : Options) (n : Names) : List (Path × (String → Prop)) :=
  (o.appModuleRelativePath, fun text => ∃ content, wire here o n false content
    = .ok text.toList)
    :: scriptFiles here o n

/-- A request to write a file of the repository, with a text of the kind that it has. -/
def IsWrite (repo : Path) (file : Path × (String → Prop)) (r : Request) : Prop :=
  ∃ text, file.2 text ∧ r = .write (repo.join file.1) text

section Places

variable {o : Options} (ho : o.IsNamed) (t : String) {d : String} (hd : IsAlphanum d)
include ho hd

theorem isNamed_serviceDir : (Names.make o t d).serviceDir.IsNamed := by
  have dir := isPlainName_of_isAlphanum (isAlphanum_toSmall hd)
  rw [serviceDir_make]
  exact ho.services.entry dir.isEntryName dir.head

theorem isNamed_controllerDir : (Names.make o t d).controllerDir.IsNamed := by
  have dir := isPlainName_of_isAlphanum (isAlphanum_toSmall hd)
  rw [controllerDir_make]
  exact ho.controllers.entry dir.isEntryName dir.head

end Places

section Linked

variable (here : Path) {o : Options} (ho : o.IsNamed) {t d : String} (ht : IsAlphanum t)
  (hd : IsAlphanum d)

section Leads

variable {file source : Path} (hs : IsNamedDir source)
  (within : (placeOf file).dropLast = placeOf source)
include ho hs within

include ht in
theorem leads_dto : Leads file (specifier here source (dtoModule o t)) (dtoFile o t) := by
  have name : ∀ {suffix : String}, (∀ c ∈ suffix.toList, isNameChar c = true) →
    IsPlainName (t ++ suffix).toList :=
    isPlainName_append ht
  refine leads_specifier here hs within ho.dto (name (forall_mem_of_all (by decide))) ?_
  have long : IsEntryName (t ++ ".dto.ts") :=
    (name (forall_mem_of_all (by decide))).isEntryName
  rw [dtoFile, show Dto.fileName t = t ++ ".dto.ts" from rfl, placeOf_entry long,
    String.append_assoc]
  rfl

theorem leads_genericDto :
    Leads file (specifier here source (genericDtoModule o)) (genericDtoFile o) := by
  have name : IsPlainName "generic.dto".toList :=
    ⟨by decide, forall_mem_of_all (by decide), by decide⟩
  refine leads_specifier here hs within ho.genericDto name ?_
  rw [genericDtoFile, placeOf_entry (by decide)]
  rfl

include ht hd

theorem leads_service :
    Leads file (specifier here source (Names.make o t d).serviceModule)
      (Names.make o t d).serviceFile := by
  refine leads_specifier here hs within (isNamed_serviceDir ho t hd)
    (isPlainName_fileStem o ht hd (forall_mem_of_all (by decide))) ?_
  rw [Names.serviceFile, placeOf_entry (isPlainName_fileStem o ht hd
    (forall_mem_of_all (by decide))).isEntryName,
    String.append_assoc]
  rfl

theorem leads_controller :
    Leads file (specifier here source (Names.make o t d).controllerModule)
      (Names.make o t d).controllerFile := by
  refine leads_specifier here hs within (isNamed_controllerDir ho t hd)
    (isPlainName_fileStem o ht hd (forall_mem_of_all (by decide))) ?_
  rw [Names.controllerFile, placeOf_entry (isPlainName_fileStem o ht hd
    (forall_mem_of_all (by decide))).isEntryName,
    String.append_assoc]
  rfl

end Leads

/-- An entry lies in its directory. -/
theorem dropLast_placeOf_entry {dir : Path} {name : String} (h : IsEntryName name) :
    (placeOf (dir.entry name)).dropLast = placeOf dir := by
  rw [placeOf_entry h, List.dropLast_concat]

/-- The script of a controller stands beside its test. -/
theorem leads_beside {file dir : Path} {name : String}
    (within : (placeOf file).dropLast = placeOf dir)
    (hname : IsPlainName name.toList) (long : IsEntryName (name ++ ".ts")) :
    Leads file ("./" ++ name) (dir.entry (name ++ ".ts")) := by
  refine ⟨.inr (.inr (.inl ?_)), fun root => ?_⟩
  · rw [String.toList_append]
    exact List.prefix_append _ _
  · have cut : pieces ⟨"./" ++ name⟩ = [".", name] := by
      have split : List.splitOn '/' ("./" ++ name).toList = [['.'], name.toList] := by
        rw [String.toList_append]
        exact (List.splitOn_append_cons_self ['.'] name.toList).trans
          (by rw [List.splitOn_eq_singleton hname.not_slash]; rfl)
      have full : name.toList.isEmpty = false := by simpa using hname.nonempty
      rw [pieces, split]
      simp [full]
    have arrived : climb (root ++ placeOf dir) [".", name] = root ++ placeOf dir ++ [name] :=
      climb_concat hname.isEntryName (root ++ placeOf dir) ["."]
    rw [scriptAt, within, cut, placeOf_entry long, arrived]
    simp

omit ho ht hd in
/-- Wiring adds the classes of a verifier to the imports of their files, also in the finished
text if the arrays lie behind the import block. -/
theorem exists_imported_of_wire {n : Names} {content wired : List Char}
    (h : wire here o n false content = .ok wired) :
    ∃ imported, wireImports here o n false content = .ok imported ∧
      ∀ module name, .ofNames module [name] ∈ own here o n → ∃ i :
      Import, i.module = module ∧ name ∈ i.named ∧
        i.line <:+: imported ∧ (ArraysBehind content →
          (∀ i ∈ own here o n, ∀ s ∈ i.parts, ∀ name ∈ arrayNames, ¬ Occurs name s.toList) →
          i.line <:+: wired) := by
  obtain ⟨merged, hmerged⟩ := exists_merged_of_wire h
  refine ⟨_, wireImports_of_merged hmerged, fun module name hown => ?_⟩
  obtain ⟨sorted, same⟩ := mergeImports_eq_ok_iff.mp hmerged
  obtain ⟨i, hi, hmodule, hname⟩ := (same module (.named name)).mpr
    ⟨_, List.mem_append_left _ hown, rfl, NameSet.mem_ofList.mpr List.mem_cons_self⟩
  have full := List.ne_nil_of_mem hi
  have line := line_infix_importLines hi
  refine ⟨i, hmodule, hname, ?_, fun behind quiet => ?_⟩
  · obtain ⟨back, spliced⟩ := exists_splice (ofText content) (importLines_ne_nil full)
    rw [keep_false, spliced]
    exact line.trans ⟨_, back, rfl⟩
  · have block := infix_of_wire quiet behind hmerged ((keep_false here o n merged).symm ▸ full)
      h
    rw [keep_false] at block
    exact line.trans block

section Scripts

omit ho ht hd
variable (o) (n : Names)

/-! The lines of the templates, one by one: a change of a template touches one of these. -/

theorem imports_service_controllerSource :
    Imports (controllerSource here o n) [n.serviceClass]
      (specifier here n.controllerDir n.serviceModule) := by
  unfold controllerSource
  refine imports_of_mem
    s!"import \x7b {n.classPrefix}VerifierService \x7d from \"{specifier here n.controllerDir n.serviceModule}\";" ?_ ?_
  · simp only [List.mem_append, List.mem_cons, eq_self, true_or, or_true]
  · rw [← String.toList_inj]
    simp [Names.serviceClass, toList_join, toString]

theorem imports_dto_controllerSource :
    Imports (controllerSource here o n)
      [s!"AttestationResponseDTO_{n.attestationType}_Response",
        s!"{n.attestationType}_RequestNoMic"]
      (specifier here n.controllerDir (dtoModule o n.attestationType)) := by
  unfold controllerSource
  refine imports_of_mem s!"import \x7b AttestationResponseDTO_{n.attestationType}_Response, {n.attestationType}_RequestNoMic \x7d from \"{specifier here n.controllerDir (dtoModule o n.attestationType)}\";" ?_ ?_
  · simp only [List.mem_append, List.mem_cons, eq_self, true_or, or_true]
  · rw [← String.toList_inj]
    simp [toList_join, List.intercalate_cons_cons, toString]

theorem imports_genericDto_controllerSource :
    Imports (controllerSource here o n) ["EncodedRequest", "EncodedRequestResponse",
      "MicResponse"]
      (specifier here n.controllerDir (genericDtoModule o)) := by
  unfold controllerSource
  refine imports_of_mem s!"import \x7b EncodedRequest, EncodedRequestResponse, MicResponse \x7d from \"{specifier here n.controllerDir (genericDtoModule o)}\";" ?_ ?_
  · simp only [List.mem_append, List.mem_cons, eq_self, true_or, or_true]
  · rw [← String.toList_inj]
    simp [toList_join, List.intercalate_cons_cons, toString]

theorem imports_dto_controllerTestSource :
    Imports (controllerTestSource here o n) [s!"{n.attestationType}_Request",
      s!"{n.attestationType}_RequestNoMic", s!"{n.attestationType}_Response"]
      (specifier here n.controllerDir (dtoModule o n.attestationType)) := by
  unfold controllerTestSource
  refine imports_of_mem s!"import \x7b {n.attestationType}_Request, {n.attestationType}_RequestNoMic, {n.attestationType}_Response \x7d from \"{specifier here n.controllerDir (dtoModule o n.attestationType)}\";" ?_ ?_
  · simp only [List.mem_cons, eq_self, true_or, or_true]
  · rw [← String.toList_inj]
    simp [toList_join, List.intercalate_cons_cons, toString]

theorem imports_controller_controllerTestSource :
    Imports (controllerTestSource here o n) [n.controllerClass]
      ("./" ++ (n.fileStem ++ ".controller")) := by
  unfold controllerTestSource
  refine imports_of_mem
    s!"import \x7b {n.classPrefix}VerifierController \x7d from \"./{n.fileStem}.controller\";"
      ?_ ?_
  · simp only [List.mem_cons, eq_self, true_or, or_true]
  · rw [← String.toList_inj]
    simp [Names.controllerClass, toList_join, toString]

theorem imports_service_controllerTestSource :
    Imports (controllerTestSource here o n) [n.serviceClass]
      (specifier here n.controllerDir n.serviceModule) := by
  unfold controllerTestSource
  refine imports_of_mem
    s!"import \x7b {n.classPrefix}VerifierService \x7d from \"{specifier here n.controllerDir n.serviceModule}\";" ?_ ?_
  · simp only [List.mem_cons, eq_self, true_or, or_true]
  · rw [← String.toList_inj]
    simp [Names.serviceClass, toList_join, toString]

theorem dto_mem_serviceImports :
    .ofNames (specifier here n.serviceDir (dtoModule o n.attestationType))
      [s!"AttestationResponseDTO_{n.attestationType}_Response",
        s!"{n.attestationType}_Request",
        s!"{n.attestationType}_RequestNoMic", s!"{n.attestationType}_Response"] ∈
          serviceImports here o n := by
  simp only [serviceImports, List.mem_cons, eq_self, true_or, or_true]

theorem genericDto_mem_serviceImports :
    .ofNames (specifier here n.serviceDir (genericDtoModule o)) ["EncodedRequestResponse",
      "MicResponse"]
      ∈ serviceImports here o n := by
  simp only [serviceImports, List.mem_cons, eq_self, true_or, or_true]

end Scripts

include ht hd

theorem leads_controllerFile : Leads (Names.make o t d).controllerTestFile
    ("./" ++ ((Names.make o t d).fileStem ++ ".controller"))
      (Names.make o t d).controllerFile := by
  have file : ∀ {suffix : String}, (∀ c ∈ suffix.toList, isNameChar c = true) →
      IsPlainName ((Names.make o t d).fileStem ++ suffix).toList :=
    isPlainName_fileStem o ht hd
  have within : (placeOf (Names.make o t d).controllerTestFile).dropLast
      = placeOf (Names.make o t d).controllerDir :=
    dropLast_placeOf_entry (file (forall_mem_of_all (by decide))).isEntryName
  have long : IsEntryName ((Names.make o t d).fileStem ++ ".controller" ++ ".ts") := by
    rw [String.append_assoc]
    exact (file (forall_mem_of_all (by decide))).isEntryName
  have leads := leads_beside within (file (forall_mem_of_all (by decide))) long
  rw [String.append_assoc] at leads
  exact leads

include ho

/-- **The local imports of a verifier lead to its files.**  One lemma for each line says which
line it is and where it leads. -/
theorem linked_make : Linked here o (Names.make o t d) where
  service := by
    have within : (placeOf (Names.make o t d).serviceFile).dropLast
        = placeOf (Names.make o t d).serviceDir :=
      dropLast_placeOf_entry
        (isPlainName_fileStem o ht hd (forall_mem_of_all (by decide))).isEntryName
    have dir : IsNamedDir (Names.make o t d).serviceDir := .inr (isNamed_serviceDir ho t hd)
    obtain ⟨script, generated, imports⟩ :=
      exists_serviceSource_imports here o (Names.make o t d)
    exact ⟨script, generated,
      ⟨_, imports _ _ (by simp) (dto_mem_serviceImports here o _),
        leads_dto here ho ht dir within⟩,
      ⟨_, imports _ _ (by simp) (genericDto_mem_serviceImports here o _),
        leads_genericDto here ho dir within⟩⟩
  controller := by
    have within : (placeOf (Names.make o t d).controllerFile).dropLast
        = placeOf (Names.make o t d).controllerDir :=
      dropLast_placeOf_entry
        (isPlainName_fileStem o ht hd (forall_mem_of_all (by decide))).isEntryName
    have dir : IsNamedDir (Names.make o t d).controllerDir :=
      .inr (isNamed_controllerDir ho t hd)
    exact ⟨⟨_, imports_service_controllerSource here o _,
      leads_service here ho ht hd dir within⟩,
      ⟨_, imports_dto_controllerSource here o _, leads_dto here ho ht dir within⟩,
      ⟨_, imports_genericDto_controllerSource here o _, leads_genericDto here ho dir within⟩⟩
  test := by
    have within : (placeOf (Names.make o t d).controllerTestFile).dropLast
        = placeOf (Names.make o t d).controllerDir :=
      dropLast_placeOf_entry
        (isPlainName_fileStem o ht hd (forall_mem_of_all (by decide))).isEntryName
    have dir : IsNamedDir (Names.make o t d).controllerDir :=
      .inr (isNamed_controllerDir ho t hd)
    exact ⟨⟨_, imports_dto_controllerTestSource here o _, leads_dto here ho ht dir within⟩,
      ⟨_, imports_controller_controllerTestSource here o _, leads_controllerFile ht hd⟩,
      ⟨_, imports_service_controllerTestSource here o _,
        leads_service here ho ht hd dir within⟩⟩
  appModule := by
    intro content wired h
    obtain ⟨dir, within⟩ := ho.moduleDir
    obtain ⟨imported, himported, added⟩ := exists_imported_of_wire here h
    obtain ⟨i, hi, nameI, lineI, finishedI⟩ :=
      added (specifier here (moduleDir o) (Names.make o t d).controllerModule)
      (Names.make o t d).controllerClass List.mem_cons_self
    obtain ⟨j, hj, nameJ, lineJ, finishedJ⟩ :=
      added (specifier here (moduleDir o) (Names.make o t d).serviceModule)
      (Names.make o t d).serviceClass (List.mem_cons_of_mem _ List.mem_cons_self)
    have controller := leads_controller here ho ht hd dir within
    have service := leads_service here ho ht hd dir within
    rw [← hi] at controller
    rw [← hj] at service
    refine ⟨⟨imported, himported, ⟨i, nameI, lineI, controller⟩, ⟨j, nameJ, lineJ, service⟩⟩,
      fun behind still => ?_⟩
    have quiet := quiet_own (isAlphanum_controllerClass o ht hd)
      (isAlphanum_serviceClass o ht hd) still
    exact ⟨⟨i, nameI, finishedI behind quiet, controller⟩,
      ⟨j, nameJ, finishedJ behind quiet, service⟩⟩

end Linked

/-! ## What an installation writes -/

section Written

variable {kind : Request → Prop}

theorem demands_writeScript {label text : String} {path : Path} (h : kind (.write path text)) :
    (writeScript label path text).Demands kind :=
  (Plan.demands_writeGenerated h).bind

theorem isWrite_write {repo file path : Path} {kind : String → Prop} {text : String}
    (h : kind text)
    (hpath : path = repo.join file) : IsWrite repo (file, kind) (.write path text) :=
  ⟨text, h, by rw [hpath]⟩

theorem isWrite_eq {repo file path : Path} {text : String} (hpath : path = repo.join file) :
    IsWrite repo (file, fun other => other = text) (.write path text) :=
  isWrite_write rfl hpath

variable (here repo : Path) {o : Options} {t d : String} (ht : IsAlphanum t)
  (hd : IsAlphanum d)
include ht

theorem join_dtoFile (o : Options) :
    (repo.join o.dtoRelPath).entry (Dto.fileName t) = repo.join (dtoFile o t) := by
  have long : IsPlainName (t ++ ".dto.ts").toList :=
    isPlainName_append ht (forall_mem_of_all (by decide))
  exact (join_entry repo _ long.isEntryName).symm

omit ht in
theorem join_genericDtoFile (o : Options) :
    (repo.join o.dtoGenericRelPath).entry "generic.dto.ts" = repo.join (genericDtoFile o) :=
  (join_entry repo _ (by decide)).symm

include hd

/-- A module of a verifier with the extension of its kind is its file. -/
theorem join_moduleFile (o : Options) (dir : Path) (role : String)
    (word : role.toList.all Char.isAlpha = true) :
    (repo.join (dir.entry ((Names.make o t d).fileStem ++ "." ++ role))).withExtension
    (role ++ ".ts")
      = repo.join (dir.entry ((Names.make o t d).fileStem ++ "." ++ (role ++ ".ts"))) := by
  have letters : ∀ c ∈ role.toList, isNameChar c = true := by
    intro c hc
    simp [isNameChar, Char.isAlphanum, List.all_eq_true.mp word c hc]
  have name : ∀ ext : String, (∀ c ∈ ext.toList, isNameChar c = true) →
      IsEntryName ((Names.make o t d).fileStem ++ "." ++ ext) := by
    intro ext hext
    rw [String.append_assoc]
    refine (isPlainName_fileStem o ht hd fun c hc => ?_).isEntryName
    rw [String.toList_append, List.mem_append] at hc
    exact hc.elim ((forall_mem_of_all (by decide) : ∀ c ∈ ".".toList, isNameChar c = true) c)
      (hext c)
  have long := name role letters
  have longer : IsEntryName ((Names.make o t d).fileStem ++ "." ++ (role ++ ".ts")) := by
    refine name _ fun c hc => ?_
    rw [String.toList_append, List.mem_append] at hc
    exact hc.elim (letters c) ((forall_mem_of_all (by decide) : ∀ c ∈ ".ts".toList,
      isNameChar c = true) c)
  have stem : (Names.make o t d).fileStem ≠ "" := by
    intro empty
    have plain := isPlainName_fileStem o ht hd (show ∀ c ∈ "".toList,
      isNameChar c = true from by simp)
    rw [empty] at plain
    exact plain.nonempty rfl
  have dot : '.' ∉ role.toList :=
    fun hmem => absurd (List.all_eq_true.mp word _ hmem) (by decide)
  rw [join_entry repo dir long, withExtension_entry _ stem dot _ long longer,
    ← join_entry repo dir longer]

theorem join_serviceFile (o : Options) :
    (repo.join (Names.make o t d).serviceModule).withExtension "service.ts"
    = repo.join (Names.make o t d).serviceFile := by
  have joined := join_moduleFile repo ht hd o (Names.make o t d).serviceDir "service"
    (by decide)
  rwa [String.append_assoc, String.append_assoc, show "." ++ "service" = ".service" from rfl,
    show "." ++ ("service" ++ ".ts") = ".service.ts" from rfl, show "service" ++ ".ts"
        = "service.ts" from rfl] at joined

theorem join_controllerFile (o : Options) :
    (repo.join (Names.make o t d).controllerModule).withExtension "controller.ts"
      = repo.join (Names.make o t d).controllerFile := by
  have joined := join_moduleFile repo ht hd o (Names.make o t d).controllerDir "controller"
    (by decide)
  rwa [String.append_assoc, String.append_assoc,
    show "." ++ "controller" = ".controller" from rfl,
    show "." ++ ("controller" ++ ".ts") = ".controller.ts" from rfl,
    show "controller" ++ ".ts" = "controller.ts" from rfl] at joined

theorem join_controllerTestFile (o : Options) :
    (repo.join (Names.make o t d).controllerDir).entry
      s!"{(Names.make o t d).fileStem}.controller.spec.ts"
      = repo.join (Names.make o t d).controllerTestFile :=
  (join_entry repo _ (isPlainName_fileStem o ht hd
    (forall_mem_of_all (by decide))).isEntryName).symm

/-! Each script is written at some step; the steps in front of it do not matter. -/

omit hd in
theorem demands_dto (record : TypeRecord) :
    (writeScripts here repo o (Names.make o t d) record).Demands
      (IsWrite repo (dtoFile o t, fun text => ∃ record, Dto.source t record = .ok text)) := by
  unfold writeScripts
  refine Plan.demands_ofExcept fun text h => ?_
  exact (demands_writeScript (isWrite_write ⟨record, h⟩ (join_dtoFile repo ht o))).bind

omit ht hd in
theorem demands_genericDto (n : Names) (record : TypeRecord) :
    (writeScripts here repo o n record).Demands
      (IsWrite repo (genericDtoFile o, fun text => text = Dto.genericSource)) := by
  unfold writeScripts
  dsimp only
  repeat first
    | with_reducible exact (demands_writeScript (isWrite_eq (join_genericDtoFile repo o))).bind
    | refine Plan.demands_bind fun _ => ?_

theorem demands_service (record : TypeRecord) :
    (writeScripts here repo o (Names.make o t d) record).Demands (IsWrite repo
      ((Names.make o t d).serviceFile, fun text => ∃ old,
        serviceSource here o (Names.make o t d) old = .ok text)) := by
  unfold writeScripts
  dsimp only
  repeat first
    | with_reducible refine Plan.demands_ofExcept fun text
        (h : serviceSource _ _ _ _ = .ok text) => ?_
      exact (demands_writeScript (isWrite_write ⟨_, h⟩ (join_serviceFile repo ht hd o))).bind
    | refine Plan.demands_bind fun _ => ?_

theorem demands_controller (record : TypeRecord) :
    (writeScripts here repo o (Names.make o t d) record).Demands (IsWrite repo
      ((Names.make o t d).controllerFile, fun text =>
        text = controllerSource here o (Names.make o t d))) := by
  unfold writeScripts
  dsimp only
  repeat first
    | with_reducible exact (demands_writeScript
        (isWrite_eq (join_controllerFile repo ht hd o))).bind
    | refine Plan.demands_bind fun _ => ?_

theorem demands_test (tested : o.controllerTests = true) (record : TypeRecord) :
    (writeScripts here repo o (Names.make o t d) record).Demands (IsWrite repo
      ((Names.make o t d).controllerTestFile, fun text =>
        text = controllerTestSource here o (Names.make o t d))) := by
  unfold writeScripts
  simp only [tested, if_true]
  repeat first
    | with_reducible exact (demands_writeScript
        (isWrite_eq (join_controllerTestFile repo ht hd o))).bind
    | refine Plan.demands_bind fun _ => ?_

/-- The scripts are written one after the other. -/
theorem demands_writeScripts (record : TypeRecord) {file : Path × (String → Prop)}
    (hfile : file ∈ scriptFiles here o (Names.make o t d)) :
    (writeScripts here repo o (Names.make o t d) record).Demands (IsWrite repo file) := by
  rw [scriptFiles, List.mem_append, List.mem_cons, List.mem_cons, List.mem_cons,
    List.mem_singleton] at hfile
  rcases hfile with (rfl | rfl | rfl | rfl) | hfile
  · exact demands_dto here repo ht record
  · exact demands_genericDto here repo _ record
  · exact demands_service here repo ht hd record
  · exact demands_controller here repo ht hd record
  · split at hfile
    · next tested =>
        obtain rfl := List.mem_singleton.mp hfile
        exact demands_test here repo ht hd tested record
    · cases hfile

omit ht hd in
theorem demands_editAppModule (s : Settings) (o : Options) (n : Names) :
    (editAppModule here s repo o n false).Demands (IsWrite repo
      (o.appModuleRelativePath, fun text => ∃ content, wire here o n false content
        = .ok text.toList)) := by
  unfold editAppModule
  dsimp only
  refine Plan.demands_bind fun content => ?_
  refine Plan.demands_ofExcept fun updated h => ?_
  have wired : wire here o n false content.toList = .ok (String.ofList updated).toList := by
    rw [String.toList_ofList]
    exact orFail_eq_ok_iff.mp (inContext_eq_ok_iff.mp h)
  exact Plan.Demands.bind (.made _ (isWrite_write ⟨content.toList, wired⟩ rfl))

/-- Every installation that ends well writes the scripts and the app module. -/
theorem demands_install {s : Settings} {given : String} (ho' : s.verifier.resolve d = o)
    (ht' : bareName given = t)
    {file : Path × (String → Prop)} (hfile : file ∈ writtenFiles here o (Names.make o t d)) :
    (install here s given d false).Demands (IsWrite (s.resolve o.repoPath) file) := by
  subst ho' ht'
  unfold install
  dsimp only
  rw [if_neg Bool.false_ne_true]
  refine Plan.demands_bind fun records => ?_
  split
  · exact .fail _
  · next record _ =>
      rcases List.mem_cons.mp hfile with rfl | hfile
      · repeat first
          | exact demands_editAppModule here _ s _ _
          | refine Plan.demands_bind fun _ => ?_
      · exact (demands_writeScripts here _ ht hd record hfile).bind

end Written

/-- **The local imports of a verifier resolve to files of the same run.**  Each specifier that
leads from one script of a verifier, or from the app module, to the service, the controller or
a DTO script starts at the script and means the very file of the repository that an
installation writes.  Both sides name the files by the same definitions, so that they cannot
come apart. -/
theorem localImports_written (here : Path) {o : Options} (ho : o.IsNamed) {t d : String}
    (ht : IsAlphanum t)
    (hd : IsAlphanum d) : Linked here o (Names.make o t d) ∧
      ∀ (s : Settings) (given : String), s.verifier.resolve d = o → bareName given = t →
        ∀ file ∈ writtenFiles here o (Names.make o t d),
          (install here s given d false).Demands (IsWrite (s.resolve o.repoPath) file) :=
  ⟨linked_make here ho ht hd, fun _ _ options type _ hfile =>
    demands_install here ht hd options type hfile⟩

theorem isNamed_template : Options.template.IsNamed where
  appModule := ⟨by decide, by decide, by decide⟩
  dto := ⟨by decide, by decide, by decide⟩
  genericDto := ⟨by decide, by decide, by decide⟩
  services := ⟨by decide, by decide, by decide⟩
  controllers := ⟨by decide, by decide, by decide⟩

/-- The local imports of a payment verifier in a server of its own. -/
theorem localImports_written_template :
    Linked ⟨"/work"⟩ .template (Names.make .template "Payment" "BTC") ∧
      ∀ file ∈ writtenFiles ⟨"/work"⟩ .template (Names.make .template "Payment" "BTC"),
        (install ⟨"/work"⟩ ⟨⟨"project"⟩, {}, {}, none⟩ "IPayment" "BTC" false).Demands
          (IsWrite ⟨"project/../verifier-server-template"⟩ file) := by
  obtain ⟨linked, written⟩ :=
    localImports_written ⟨"/work"⟩ isNamed_template (t := "Payment") (d := "BTC")
    ⟨by decide, forall_mem_of_all (by decide)⟩ ⟨by decide, forall_mem_of_all (by decide)⟩
  exact ⟨linked, written ⟨⟨"project"⟩, {}, {}, none⟩ "IPayment" rfl rfl⟩

end Verifier

end Attestation
