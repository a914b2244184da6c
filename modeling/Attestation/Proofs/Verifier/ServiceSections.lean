import Attestation.Proofs.Path.Specifier
import Attestation.Proofs.Script.ImportParts
import Attestation.Proofs.Verifier.PlainNames
import Attestation.Proofs.Verifier.ServiceText

/-!
# Regenerating a service

A service is generated again and again, with other options, data sources and types, and each
time from the script before.  Its hand-written sections stay the same
(`extract_of_regenerates`), as long as no tag comes in from the options, the names, the imports
or the sections themselves.

## Main definitions

* `Unmarked`: no tag comes in.
* `Seamless`: no tag comes about where a path and a name meet.
* `Regenerates`: a script is what generating a service some times makes of another one.

## Design notes

A section is found by the first occurrence of its tags, so the template, the names and the
statements must not hold a tag.  That none of the texts holds one is not enough: texts are put
together, and a tag can come about where two of them meet (`exists_extract_ne`).  Only the path
of the example and the name behind it can meet in such a way, which is why `Seamless` is about
these two.
-/

namespace Attestation.Verifier

open Text CustomSection

/-- The texts of the options. -/
def Options.texts (o : Options) : List String :=
  [o.repoPath.text, o.appModuleRelativePath.text, o.dtoRelPath.text, o.dtoGenericRelPath.text,
    o.typeDefinitionsRelPath.text, o.exampleRelPath.text, o.externalLibsRelPath.text,
    o.servicesRelPath.text, o.controllersRelPath.text, o.customAuthGuard, o.customAuthImport,
    o.testnetPrefix]

/-- The texts of the names. -/
def Names.texts (n : Names) : List String :=
  [n.attestationType, n.dataSource, n.classPrefix, n.serviceDir.text,
    n.controllerDir.text, n.fileStem]

/-- The sections of a service. -/
def serviceSections : List String := [constructorSection, verifySection]

/-- The code of a section in a new service. -/
def defaultSection (o : Options) (n : Names) (name : String) : String :=
  if name = constructorSection then
    defaultConstructor o.typeDefinitionsRelPath.plainText o.exampleRelPath.plainText
      n.attestationType
  else defaultVerify n.attestationType

/-- Neither the texts of the options and the names nor what is kept of the old script holds the
start of a tag.  A section ends at the first closing tag behind its start, so a tag in a text
that stands before or within a section would be taken for that of the section. -/
structure Unmarked (o : Options) (n : Names) (old : String) : Prop where
  texts : ∀ s ∈ o.texts ++ n.texts, Lacks mark s
  statements : ∀ p ∈ (ImportBlock.ofText old.toList).found, ¬ mark <:+: p.source
  sections : ∀ name ∈ serviceSections, ∀ code ∈ extract old name, Lacks mark code

/-- Nor does it come about where a path and a name meet: in the constructor of a new service,
which names the file of an example, and in a specifier that leads from the empty path.  All
other seams of the template are at quotes or words that belong to no tag. -/
structure Seamless (here : Path) (o : Options) (n : Names) (old : String) : Prop where
  constructor_ : extract old constructorSection = none →
  Lacks mark (defaultSection o n constructorSection)
  modules : n.serviceDir.text = "" → ∀ i ∈ serviceImports here o n, Lacks mark i.module

/-- One regeneration after the other, each of the script before, and each with options and
names of its own.  No tag comes in at any of them. -/
def Regenerates (here : Path) : List (Options × Names) → String → String → Prop
  | [], old, new => new = old
  | (o, n) :: more, old, new =>
      Unmarked o n old ∧ Seamless here o n old ∧
        ∃ next, serviceSource here o n old = .ok next ∧ Regenerates here more next new

/-- What a section holds after some regenerations: the code of the old script, or if it has
none the code of a new service at the first regeneration. -/
def sectionAfter (steps : List (Options × Names)) (old name : String) : Option String :=
  (extract old name).or (steps.head?.map fun step => defaultSection step.1 step.2 name)

/-! ## What a regeneration writes -/

/-- The code of a section in a regenerated service. -/
def carried (o : Options) (n : Names) (old name : String) : String :=
  (extract old name).getD (defaultSection o n name)

theorem serviceSource_eq_ok_iff {here : Path} {o : Options} {n : Names} {old new : String} :
    serviceSource here o n old = .ok new ↔
      ∃ merged, mergeImports (serviceImports here o n
        ++ (ImportBlock.ofText old.toList).imports) = .ok merged ∧
        new = renderService o n merged (carried o n old constructorSection)
          (carried o n old verifySection) := by
  unfold serviceSource
  generalize mergeImports (serviceImports here o n ++ (ImportBlock.ofText old.toList).imports)
      = result
  cases result with
  | error e =>
      constructor
      · intro hok
        cases hok
      · rintro ⟨merged, hm, -⟩
        cases hm
  | ok merged =>
      constructor
      · intro hok
        exact ⟨merged, rfl, (Except.ok.inj hok).symm⟩
      · rintro ⟨merged', hm, rfl⟩
        cases hm
        rfl

theorem serviceImports_named {here : Path} {o : Options} {n : Names} :
    ∀ i ∈ serviceImports here o n, i.default = none ∧ i.wildcard = none := by
  simp only [serviceImports, List.forall_mem_cons, List.not_mem_nil, Import.ofNames]
  simp

/-- A service is generated unless the old script itself has conflicting imports. -/
theorem exists_serviceSource_iff {here : Path} {o : Options} {n : Names} {old : String} :
    (∃ new, serviceSource here o n old = .ok new) ↔
    Compatible (ImportBlock.ofText old.toList).imports := by
  constructor
  · rintro ⟨new, hnew⟩
    obtain ⟨merged, hm, -⟩ := serviceSource_eq_ok_iff.mp hnew
    have all := exists_mergeImports_iff.mp ⟨merged, hm⟩
    exact all.mono fun m item hp => provides_append.mpr (.inr hp)
  · intro compatible
    have named : ∀ i ∈ serviceImports here o n, i.default = none ∧ i.wildcard = none :=
      serviceImports_named
    have all := compatible.append_named named
    obtain ⟨merged, hm⟩ := exists_mergeImports_iff.mpr all
    exact ⟨_, serviceSource_eq_ok_iff.mpr ⟨merged, hm, rfl⟩⟩

/-! ## The imports of a service -/

section Step

variable {here : Path} {o : Options} {n : Names} {old new : String} (h : Unmarked o n old)
  (seamless : Seamless here o n old)
include h seamless

theorem lacks_serviceImports : ∀ i ∈ serviceImports here o n, ∀ s ∈ i.parts, Lacks mark s := by
  have module_ : ∀ i ∈ serviceImports here o n, Lacks mark i.module := by
    intro i hi
    by_cases empty : n.serviceDir.text = ""
    · exact seamless.modules empty i hi
    · -- A tag would double a separator.
      have double : ∀ target names,
          Lacks mark (Import.ofNames (Path.specifier here n.serviceDir target)
            names).module := by
        intro target names part
        rw [Import.module_ofNames] at part
        exact Path.not_infix_specifier here empty target
          (List.IsInfix.trans ⟨[], ['-', '$', '$', '$', '<'], rfl⟩ part)
      simp only [serviceImports, List.mem_cons, List.not_mem_nil, or_false] at hi
      rcases hi with rfl | rfl | rfl | rfl | rfl | rfl | rfl | rfl
      · exact lacks_of_chars _ rfl (by decide +kernel)
      · exact lacks_of_chars _ rfl (by decide +kernel)
      all_goals exact double _ _
  -- The names that are imported only hold the type of the verifier.
  have ht : Lacks mark n.attestationType := h.texts _ (by simp [Names.texts])
  have hne : mark ≠ [] := by decide
  intro i hi
  have hm := module_ i hi
  simp only [serviceImports, List.mem_cons, List.not_mem_nil, or_false] at hi
  rcases hi with rfl | rfl | rfl | rfl | rfl | rfl | rfl | rfl
  all_goals
    refine Import.forall_parts_ofNames hm ?_
    simp only [List.forall_mem_cons, toString]
    repeat' apply And.intro
  all_goals
    first
      | with_reducible exact lacks_of_chars _ rfl (by decide +kernel)
      | with_reducible exact lacks_fill hne ht _ rfl (by decide +kernel)
      | (with_reducible refine lacks_of_closed hne ?_
         repeat
           with_reducible
             refine closed_fill hne ?_ (by assumption) _ rfl (by decide +kernel)
         with_reducible exact closed_of_chars hne _ rfl (by decide +kernel))
      | simp

/-- No tag stands in the import lines of a regenerated service. -/
theorem not_infix_importLines {merged : List Import}
    (hm : mergeImports (serviceImports here o n ++ (ImportBlock.ofText old.toList).imports)
      = .ok merged) :
    ¬ mark <:+: importLines merged := by
  intro part
  obtain ⟨i, hi, s, hs, part⟩ := mark_infix_lines part
  obtain ⟨j, hj, -, hs⟩ := exists_of_mem_parts (mergeImports_eq_ok_iff.mp hm).2 hi hs
  rcases List.mem_append.mp hj with hj | hj
  · exact lacks_serviceImports h seamless j hj s hs part
  · obtain ⟨p, hp, rfl⟩ := List.mem_map.mp hj
    exact h.statements p hp (part.trans ((ImportBlock.of_mem_found hp).2.2.1 s hs))

omit h seamless in
theorem trimmed_defaultSection (o : Options) (n : Names) (name : String) :
    Trimmed (defaultSection o n name).toList := by
  unfold defaultSection
  split
  · exact trimmed_defaultConstructor _ _ _
  · exact trimmed_defaultVerify _

/-- The code that a regenerated service gets holds no tag and no outer blanks. -/
theorem lacks_code {name : String} (hname : name ∈ serviceSections) :
    Lacks mark (carried o n old name) ∧
      Trimmed (carried o n old name).toList := by
  unfold carried
  cases hx : extract old name with
  | some code => exact ⟨h.sections name hname code hx, trimmed_of_extract hx⟩
  | none =>
      refine ⟨?_, trimmed_defaultSection o n name⟩
      simp only [serviceSections, List.mem_cons, List.not_mem_nil, or_false] at hname
      rcases hname with rfl | rfl
      · exact seamless.constructor_ hx
      · have ht : Lacks mark n.attestationType := h.texts _ (by simp [Names.texts])
        exact lacks_defaultVerify (by simp [searchWords]) ht

omit seamless in
theorem lacks_sourceId : Lacks mark (o.testnetPrefix ++ "\"" ++ n.dataSource ++ "\"") :=
  lacks_quoted (by decide) (by decide) (h.texts _ (by simp [Options.texts]))
    (h.texts _ (by simp [Names.texts]))

/-- **One regeneration** keeps both sections, or puts in those of a new service.  It is the
step of `extract_of_regenerates`. -/
theorem extract_serviceSource (hnew : serviceSource here o n old = .ok new) {name : String}
    (hname : name ∈ serviceSections) :
    extract new name = some (carried o n old name) := by
  obtain ⟨merged, hm, rfl⟩ := serviceSource_eq_ok_iff.mp hnew
  obtain ⟨hc, hct⟩ := lacks_code h seamless
    (show constructorSection ∈ serviceSections by simp [serviceSections])
  obtain ⟨hv, hvt⟩ := lacks_code h seamless
    (show verifySection ∈ serviceSections by simp [serviceSections])
  have ht : Lacks mark n.attestationType := h.texts _ (by simp [Names.texts])
  have hp : Lacks mark n.classPrefix := h.texts _ (by simp [Names.texts])
  have both := extract_renderService (not_infix_importLines h seamless hm) hp ht
    (lacks_sourceId h) hc hct hv hvt
  simp only [serviceSections, List.mem_cons, List.not_mem_nil, or_false] at hname
  rcases hname with rfl | rfl
  · exact both.1
  · exact both.2

end Step

/-! ## Regenerations -/

/-- **Hand-written code survives regeneration**, however often a service is regenerated and
whatever for: both sections hold what they held in the first script.  A section that was
missing there is that of a new service of the first regeneration, and stays so under all later
options and names. -/
theorem extract_of_regenerates {here : Path} {steps : List (Options × Names)}
    {old new : String}
    (h : Regenerates here steps old new) {name : String} (hname : name ∈ serviceSections) :
    extract new name = sectionAfter steps old name := by
  induction steps generalizing old with
  | nil =>
      obtain rfl : new = old := h
      rw [sectionAfter, List.head?_nil, Option.map_none, Option.or_none]
  | cons step more ih =>
      obtain ⟨o, n⟩ := step
      obtain ⟨unmarked, seamless, next, hnext, rest⟩ := h
      have kept := extract_serviceSource unmarked seamless hnext hname
      rw [ih rest, sectionAfter, kept, sectionAfter]
      show some (carried o n old name) = (extract old name).or (some (defaultSection o n name))
      unfold carried
      cases extract old name with
      | none => rfl
      | some code => rfl

/-- A script with a constructor that has been written by hand. -/
def handEdited : String := "//-$$$<start-constructor>
constructor(private readonly log: Logger) \x7b\x7d
//-$$$<end-constructor>"

/-- The texts of a verifier that is generated as presets say hold no tag. -/
theorem lacks_template : ∀ s ∈ Options.template.texts
      ++ (Names.make .template "Payment" "BTC").texts,
    Lacks mark s := by
  have stem : kebab "Payment" = "payment" := by decide +kernel
  simp only [Options.texts, Options.template, Names.texts, Names.make, stem, Lacks]
  decide +kernel

theorem unmarked_handEdited :
    Unmarked .template (Names.make .template "Payment" "BTC") handEdited where
  texts := lacks_template
  statements := by
    have nothing : (ImportBlock.ofText handEdited.toList).found = [] := by decide +kernel
    rw [nothing]
    simp
  sections := by
    unfold Lacks
    decide +kernel

/-- A constructor that was written by hand is still there after a regeneration for another data
source. -/
theorem extract_handEdited : ∃ new,
    Regenerates ⟨"/"⟩ [(.template, Names.make .template "Payment" "BTC")] handEdited new ∧
      extract new constructorSection
        = some "constructor(private readonly log: Logger) \x7b\x7d" := by
  have nothing : (ImportBlock.ofText handEdited.toList).imports = [] := by decide +kernel
  obtain ⟨new, hnew⟩ : ∃ new, serviceSource ⟨"/"⟩ .template
      (Names.make .template "Payment" "BTC") handEdited = .ok new :=
    exists_serviceSource_iff.mpr (nothing ▸ Sorted.compatible List.Pairwise.nil)
  have code : extract handEdited constructorSection
      = some "constructor(private readonly log: Logger) \x7b\x7d" := by decide +kernel
  have seamless : Seamless ⟨"/"⟩ .template (Names.make .template "Payment" "BTC") handEdited :=
    ⟨fun hx => absurd (code.symm.trans hx) (by simp), fun empty => absurd empty (by decide)⟩
  have run : Regenerates ⟨"/"⟩ [(.template, Names.make .template "Payment" "BTC")] handEdited
    new :=
    ⟨unmarked_handEdited, seamless, new, hnew, rfl⟩
  refine ⟨new, run, ?_⟩
  rw [extract_of_regenerates run (by simp [serviceSections]), sectionAfter, code]
  rfl

/-! ## Where a tag comes about -/

/-- A type that makes a tag of the separator in front of it. -/
def tagType : String := "/-$$$<end-constructor>"

theorem unmarked_tagType : Unmarked .template (Names.make .template tagType "BTC") "" where
  texts := by
    have stem : kebab tagType = tagType := by decide +kernel
    simp only [Options.texts, Options.template, Names.texts, Names.make, stem, Lacks]
    decide +kernel
  statements := by
    have nothing : (ImportBlock.ofText "".toList).found = [] := by decide +kernel
    rw [nothing]
    simp
  sections := by
    unfold Lacks
    decide +kernel

/-- A new constructor names the file of the example. -/
theorem exampleLine_within (typeDefinitionsPath examplePath t : String) :
    s!"        this.exampleData = JSON.parse(readFileSync(\"{examplePath}/{t}.json\", \"utf8\"));".toList
      <:+: (defaultConstructor typeDefinitionsPath examplePath t).toList :=
  infix_join (by simp only [List.mem_cons, true_or, or_true])

/-- **A tag may come about** although none of the texts holds one: the constructor of a new
service names the file of the example, and the slash in front of that name completes a tag,
which ends the section there. -/
theorem exists_extract_ne : Unmarked .template (Names.make .template tagType "BTC") "" ∧
    ∃ new, serviceSource ⟨"/"⟩ .template (Names.make .template tagType "BTC") "" = .ok new ∧
      extract "" constructorSection = none ∧ extract new constructorSection
        ≠ some (defaultSection .template (Names.make .template tagType "BTC")
          constructorSection) := by
  have nothing : (ImportBlock.ofText "".toList).imports = [] := by decide +kernel
  obtain ⟨new, hnew⟩ : ∃ new, serviceSource ⟨"/"⟩ .template
      (Names.make .template tagType "BTC") "" = .ok new :=
    exists_serviceSource_iff.mpr (nothing ▸ Sorted.compatible List.Pairwise.nil)
  refine ⟨unmarked_tagType, new, hnew, by decide +kernel, fun hx => ?_⟩
  have closed : (closingTag constructorSection).toList <:+:
      (defaultSection .template (Names.make .template tagType "BTC")
        constructorSection).toList := by
    -- It stands in the line that reads the example.
    have line : (closingTag constructorSection).toList <:+:
        s!"        this.exampleData = JSON.parse(readFileSync(\"{Options.template.exampleRelPath.plainText}/{tagType}.json\", \"utf8\"));".toList := by
      decide +kernel
    exact line.trans (exampleLine_within Options.template.typeDefinitionsRelPath.plainText _ _)
  exact not_infix_of_extract hx closed

end Attestation.Verifier
