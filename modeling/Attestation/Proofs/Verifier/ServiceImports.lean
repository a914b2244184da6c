import Attestation.Proofs.Verifier.ServiceSections

/-!
# Imports of a regenerated service

A service that is generated again imports what its old script imports, and what every service
imports.  This is so exactly if no module is imported both as a namespace and in another way,
and no module is blank (`keeps_imports_iff`).

## Main definitions

* `Importless`: no statement stands behind the imports.
* `regenerate`: a service that is generated again and again.

## Design notes

The statements for one module are merged, and a line with a namespace and names, or a blank
module, is not read back by the reader of import blocks.  The condition on the old script is
therefore `Tame`, which speaks of pairs of statements and not of single ones.

The section texts of the old script come back into the new one behind its imports.  Without
`Importless` they could add statements of their own, so the condition is part of every
statement here.
-/

namespace Attestation.Verifier

open Text CustomSection ImportBlock

/-- Neither the texts that a script is filled with nor its sections hold the word that a
statement starts with.  Import statements are searched for in the whole script, so a
hand-written one within a section would be found as well. -/
structure Importless (o : Options) (n : Names) (old : String) : Prop where
  texts : ∀ s ∈ [n.attestationType, n.classPrefix, n.dataSource, o.testnetPrefix,
    o.typeDefinitionsRelPath.plainText, o.exampleRelPath.plainText], Lacks importWord s
  sections : ∀ name ∈ serviceSections, ∀ code ∈ extract old name, Lacks importWord code

/-- The script, generated `k` times more. -/
def regenerate (here : Path) (o : Options) (n : Names) : Nat → String → Except Failure String
  | 0, s => .ok s
  | k + 1, s => serviceSource here o n s >>= regenerate here o n k

theorem regenerate_of_fixed {here : Path} {o : Options} {n : Names} {s : String}
    (h : serviceSource here o n s = .ok s) (k : Nat) : regenerate here o n k s = .ok s := by
  induction k with
  | zero => rfl
  | succ k ih =>
      rw [regenerate, h]
      exact ih

/-! ## The statements of every service -/

/-- A statement whose module and names are made of plain characters. -/
theorem wellFormed_ofNames_of_chars {module : String} {names : List String}
    (hm : ∀ c ∈ module.toList, isModule c = true ∧ isBlank c = false)
    (hn : ∀ s ∈ names, Path.IsSpecifier s) : (Import.ofNames module names).WellFormed where
  default := by simp [Import.ofNames]
  named := by
    intro s hs
    have hs : s ∈ NameSet.ofList names := hs
    have word := hn s (NameSet.mem_ofList.mp hs)
    refine isWord_of_no_blank word.nonempty fun c hc => ⟨?_, word.not_blank hc⟩
    have apart : ∀ d : Char, Path.isSpecifierChar d = false → c ≠ d :=
      fun d => word.ne_of_mem hc
    simp [Import.isListedName, isListed, apart ',' (by decide), apart '"' (by decide),
      apart '\'' (by decide), apart '\x7b' (by decide), apart '\x7d' (by decide)]
  wildcard := by simp [Import.ofNames]
  trimmed := trimmed_of_no_blank fun c hc => (hm c hc).2
  module := fun c hc => (hm c hc).1

/-- The places that a service imports from are plain, and so is its type.  Plain paths have
specifiers without quotes and line breaks, which are read back. -/
structure PlainService (o : Options) (n : Names) : Prop where
  type : IsAlphanum n.attestationType
  dir : n.serviceDir.IsPlain
  libraries : o.externalLibsRelPath.IsPlain
  dto : o.dtoRelPath.IsPlain
  genericDto : o.dtoGenericRelPath.IsPlain

namespace PlainService

variable {here : Path} {o : Options} {n : Names} (h : PlainService o n)
include h

theorem module_specifier {p : Path} (hp : p.IsPlain) :
    ∀ c ∈ (Path.specifier here n.serviceDir p).toList, isModule c = true ∧
      isBlank c = false := by
  intro c hc
  have spec : Path.IsSpecifier (Path.specifier here n.serviceDir p) :=
    Path.isSpecifier_specifier (.inr h.dir) hp
  have apart : ∀ d : Char, Path.isSpecifierChar d = false → c ≠ d := fun d => spec.ne_of_mem hc
  refine ⟨?_, spec.not_blank hc⟩
  simp [isModule, isQuote, apart '"' (by decide), apart '\'' (by decide),
    apart '\n' (by decide)]

/-- A name that is made for the type is a word. -/
theorem isSpecifier_typed (before : String) {behind : String}
    (hb : before.toList.all Path.isSpecifierChar = true)
    (hh : behind.toList.all Path.isSpecifierChar = true) :
    Path.IsSpecifier (before ++ n.attestationType ++ behind) := by
  refine ⟨?_, fun c hc => ?_⟩
  · simpa using fun _ hnil => absurd hnil (by simpa using h.type.nonempty)
  simp only [String.toList_append, List.mem_append] at hc
  rcases hc with (hc | hc) | hc
  · exact List.all_eq_true.mp hb c hc
  · simp [Path.isSpecifierChar, h.type.alphanum c hc]
  · exact List.all_eq_true.mp hh c hc

theorem isSpecifier_behind {behind : String}
    (hh : behind.toList.all Path.isSpecifierChar = true) :
    Path.IsSpecifier (n.attestationType ++ behind) := by
  have word := h.isSpecifier_typed "" rfl hh
  rwa [String.empty_append] at word

theorem wellFormed : ∀ i ∈ serviceImports here o n, i.WellFormed := by
  -- The imports are closed up to the options and the names of the verifier, so each part is
  -- either evaluated or put together from parts of these.
  have words : ∀ {names : List String} (chars : List (List Char)), chars.map String.ofList
      = names →
      chars.all (fun cs => !cs.isEmpty && cs.all Path.isSpecifierChar) = true →
      ∀ s ∈ names, Path.IsSpecifier s := by
    rintro - chars rfl hchars s hs
    obtain ⟨cs, hcs, rfl⟩ := List.mem_map.mp hs
    have hcs := List.all_eq_true.mp hchars cs hcs
    rw [Bool.and_eq_true] at hcs
    exact ⟨by simpa using hcs.1, by simpa using hcs.2⟩
  have package : ∀ {m : String} (cs : List Char), String.ofList cs = m →
      cs.all (fun c => isModule c && !isBlank c) = true →
      ∀ c ∈ m.toList, isModule c = true ∧ isBlank c = false := by
    rintro - cs rfl hcs c hc
    rw [String.toList_ofList] at hc
    simpa using List.all_eq_true.mp hcs c hc
  have file : ∀ {m : String} (cs : List Char), String.ofList cs = m →
      (cs.isEmpty = false ∧ cs.all Path.isNameChar = true) ∧ cs.head? ≠ some '.' →
      Path.IsPlainName m.toList := by
    rintro - cs rfl hcs
    rw [String.toList_ofList]
    exact ⟨by simpa using hcs.1.1, List.all_eq_true.mp hcs.1.2, hcs.2⟩
  have dto : (o.dtoRelPath.entry (n.attestationType ++ ".dto")).IsPlain :=
    h.dto.entry (isPlainName_append h.type (List.all_eq_true.mp (by decide)))
  intro i hi
  simp only [serviceImports, toString, List.mem_cons, List.not_mem_nil, or_false] at hi
  rcases hi with rfl | rfl | rfl | rfl | rfl | rfl | rfl | rfl
  · exact wellFormed_ofNames_of_chars (package _ rfl (by decide))
      (words [_, _, _] rfl (by decide))
  · exact wellFormed_ofNames_of_chars (package _ rfl (by decide)) (words [_] rfl (by decide))
  · exact wellFormed_ofNames_of_chars
      (h.module_specifier (h.libraries.entry (file _ rfl (by decide))))
      (words [_] rfl (by decide))
  · refine wellFormed_ofNames_of_chars (h.module_specifier dto) ?_
    simp only [List.forall_mem_cons, List.not_mem_nil, false_implies, implies_true, and_true]
    exact ⟨h.isSpecifier_typed _ (by decide) (by decide), h.isSpecifier_behind (by decide),
      h.isSpecifier_behind (by decide), h.isSpecifier_behind (by decide)⟩
  · exact wellFormed_ofNames_of_chars
      (h.module_specifier (h.libraries.entry (file _ rfl (by decide))))
      (words [_] rfl (by decide))
  · exact wellFormed_ofNames_of_chars
      (h.module_specifier (h.libraries.entry (file _ rfl (by decide))))
      (words [_] rfl (by decide))
  · exact wellFormed_ofNames_of_chars
      (h.module_specifier (h.genericDto.entry (file _ rfl (by decide))))
      (words [_, _] rfl (by decide))
  · exact wellFormed_ofNames_of_chars
      (h.module_specifier (h.libraries.entry (file _ rfl (by decide))))
      (words [_, _, _, _] rfl (by decide))

end PlainService

/-- No module that every service imports from is blank. -/
theorem module_serviceImports_ne {here : Path} {o : Options} {n : Names} :
    ∀ i ∈ serviceImports here o n, i.module ≠ "" := by
  have relative : ∀ p names, (Import.ofNames (Path.specifier here n.serviceDir p) names).module
      ≠ "" := by
    intro p names empty
    rw [Import.module_ofNames] at empty
    have head := Path.head?_specifier here n.serviceDir p
    rw [empty] at head
    cases head
  intro i hi
  simp only [serviceImports, List.mem_cons, List.not_mem_nil, or_false] at hi
  rcases hi with rfl | rfl | rfl | rfl | rfl | rfl | rfl | rfl
  · decide
  · decide
  all_goals exact relative _ _

/-! ## The text behind the imports -/

namespace Importless

variable {o : Options} {n : Names} {old : String} (h : Importless o n old)
include h

theorem lacks_carried {name : String} (hname : name ∈ serviceSections) :
    Lacks importWord (carried o n old name) := by
  have text := h.texts
  simp only [List.forall_mem_cons, List.not_mem_nil, false_implies,
    implies_true, and_true] at text
  obtain ⟨ht, -, -, -, hd, he⟩ := text
  unfold carried
  cases hx : extract old name with
  | some code => exact h.sections name hname code hx
  | none =>
      show Lacks importWord (defaultSection o n name)
      unfold defaultSection
      split
      · refine lacks_defaultConstructor (by simp [searchWords]) hd ?_
        have text : (o.exampleRelPath.plainText ++ "/" ++ n.attestationType).toList
            = o.exampleRelPath.plainText.toList ++ '/' :: n.attestationType.toList := by simp
        rw [Lacks, text, infix_append_cons_iff (by decide)]
        exact fun part => part.elim he ht
      · exact lacks_defaultVerify (by simp [searchWords]) ht

end Importless

/-- The lines of a section hold the word for no other reason than the code. -/
theorem lacks_sectionLines {indent name code : String} (hi : Closed importWord indent.toList)
    (hname : name ∈ serviceSections) (hcode : Lacks importWord code) :
    ∀ line ∈ sectionLines indent name code, Lacks importWord line := by
  have hne : importWord ≠ [] := by decide
  have tags : ∀ name ∈ serviceSections, fixes importWord (openingTag name).toList = true ∧
      fixes importWord (closingTag name).toList = true := by decide +kernel
  have nothing : Lacks importWord "" := fun part => hne (List.infix_nil.mp part)
  have opened : Lacks importWord (opening name) :=
    lacks_append (closed_of_fixes hne (tags name hname).1)
    (lacks_of_chars _ rfl (by decide +kernel))
  have closed : Lacks importWord (closing name) :=
    lacks_append (closed_of_fixes hne (tags name hname).2)
    (lacks_of_chars _ rfl (by decide +kernel))
  simp only [sectionLines, List.forall_mem_cons, List.not_mem_nil, false_implies,
    implies_true, and_true]
  exact ⟨lacks_append hi opened, nothing, lacks_append hi hcode, nothing,
    lacks_append hi closed⟩

/-- A text without the word holds no statement. -/
theorem imports_of_lacks {cs : List Char} (h : ¬ importWord <:+: cs) :
    (ofText cs).imports = [] := by
  have calm : Calm cs := fun c _ part => h (List.IsInfix.trans ⟨[], [c], rfl⟩ part)
  rw [ofText_of_silent (calm.silent (by simp))]
  rfl

/-- The lines behind the imports. -/
def serviceBody (o : Options) (n : Names) (constructorCode verifyCode : String) :
    List String :=
  serviceHead n.classPrefix n.attestationType
    ++ sectionLines "    " constructorSection constructorCode
    ++ serviceMiddle n.attestationType (o.testnetPrefix ++ "\"" ++ n.dataSource ++ "\"")
    ++ sectionLines "        " verifySection verifyCode
    ++ serviceTail n.attestationType

theorem toList_renderService (o : Options) (n : Names) (imports : List Import)
    (constructorCode verifyCode : String) :
    (renderService o n imports constructorCode verifyCode).toList
      = importLines imports ++ '\n' ::
        (unlines (serviceBody o n constructorCode verifyCode)).toList := by
  have lines : renderService o n imports constructorCode verifyCode
      = unlines ([renderImports imports] ++ serviceBody o n constructorCode verifyCode) := by
    simp [renderService, serviceBody]
  have nonempty : serviceBody o n constructorCode verifyCode ≠ [] := by
    simp [serviceBody, serviceTail]
  rw [lines, unlines_append (by simp) nonempty]
  simp [unlines, toList_join, importLines]

section Body

variable {o : Options} {n : Names} {old : String} (h : Importless o n old)
include h

theorem lacks_serviceBody :
    ∀ line ∈ serviceBody o n (carried o n old constructorSection)
      (carried o n old verifySection),
      Lacks importWord line := by
  have text := h.texts
  simp only [List.forall_mem_cons, List.not_mem_nil, false_implies,
    implies_true, and_true] at text
  obtain ⟨ht, hp, hs, ho, -, -⟩ := text
  have sourceId := lacks_quoted (w := importWord) (by decide) (by decide) ho hs
  have fixed := lacks_serviceLines (w := importWord) (by simp [searchWords]) ht hp sourceId
  have constructor_ : ∀ line ∈ sectionLines "    " constructorSection
    (carried o n old constructorSection),
      Lacks importWord line := lacks_sectionLines (closed_of_chars (by decide) _ rfl
        (by decide +kernel))
    (by simp [serviceSections]) (h.lacks_carried (by simp [serviceSections]))
  have verify : ∀ line ∈ sectionLines "        " verifySection (carried o n old verifySection),
      Lacks importWord line := lacks_sectionLines (closed_of_chars (by decide) _ rfl
        (by decide +kernel))
    (by simp [serviceSections]) (h.lacks_carried (by simp [serviceSections]))
  intro line hline
  simp only [serviceBody, List.mem_append] at hline
  simp only [List.mem_append] at fixed
  rcases hline with (((hline | hline) | hline) | hline) | hline
  · exact fixed line (.inl (.inl hline))
  · exact constructor_ line hline
  · exact fixed line (.inl (.inr hline))
  · exact verify line hline
  · exact fixed line (.inr hline)

/-- **No statement stands behind the imports of a service.**  So what a service imports is what
is read back of the merged statements at its top. -/
theorem imports_renderService {merged : List Import} (readable : Readable merged) :
    (ofText (renderService o n merged (carried o n old constructorSection)
      (carried o n old verifySection)).toList).imports = merged.filter fun i => i.Legible := by
  have behind := imports_of_lacks (not_infix_unlines (by decide) (by decide)
    (lacks_serviceBody h))
  rw [toList_renderService, imports_lines readable, ofText_cons (by decide),
    imports_prepend, behind,
    List.append_nil]

end Body

/-! ## What is imported again -/

section Merged

variable {here : Path} {o : Options} {n : Names} {old : String} {merged : List Import}
  (hm : mergeImports (serviceImports here o n ++ (ofText old.toList).imports) = .ok merged)
include hm

/-- All imports of the old script are read back only if all statements are tame. -/
theorem tame_of_kept (kept : ∀ module item, Provides (ofText old.toList).imports module item →
      Provides (merged.filter fun i => i.Legible) module item) :
    Tame (serviceImports here o n ++ (ofText old.toList).imports) := by
  obtain ⟨sorted, same⟩ := mergeImports_eq_ok_iff.mp hm
  have readBack : ∀ i ∈ (ofText old.toList).imports, ∀ item, i.Has item →
      ∃ k ∈ merged, k.Legible ∧ k.module = i.module ∧ k.Has item := by
    intro i hi item hitem
    obtain ⟨k, hk, hmodule, hitem⟩ := kept i.module item ⟨i, hi, rfl, hitem⟩
    rw [List.mem_filter, decide_eq_true_eq] at hk
    exact ⟨k, hk.1, hk.2, hmodule, hitem⟩
  refine ⟨fun i hi => ?_, fun i hi j hj hij hw => ?_⟩
  · rcases List.mem_append.mp hi with hi | hi
    · exact module_serviceImports_ne i hi
    · obtain ⟨k, -, legible, hmodule, -⟩ := readBack i hi .module trivial
      exact hmodule ▸ legible.1
  · -- A namespace comes from the old script.
    have hi : i ∈ (ofText old.toList).imports := by
      refine (List.mem_append.mp hi).resolve_left fun hi => hw (serviceImports_named i hi).2
    obtain ⟨w, hw⟩ := Option.ne_none_iff_exists'.mp hw
    obtain ⟨k, hk, legible, hki, hkw⟩ := readBack i hi (.wildcard w) hw
    -- A statement that is read back has its namespace alone, and all that is imported from its
    -- module is in it.
    have alone := legible.2.resolve_left fun hnone => by
      have hkw : k.wildcard = some w := hkw
      rw [hnone] at hkw
      cases hkw
    have given : ∀ item, j.Has item → k.Has item := by
      intro item hitem
      rw [has_iff_provides sorted hk, same]
      exact ⟨j, hj, hij.symm.trans hki.symm, hitem⟩
    constructor
    · refine Option.eq_none_iff_forall_not_mem.mpr fun d hd => ?_
      have hkd : k.default = some d := given (.default d) hd
      rw [alone.1] at hkd
      cases hkd
    · refine NameSet.eq_of_mem_iff fun name => ⟨fun hn => ?_, fun hn => ?_⟩
      · have hkn : name ∈ k.named := given (.named name) hn
        rwa [alone.2] at hkn
      · exact absurd (NameSet.mem_def.mp hn) List.not_mem_nil

/-- When all statements of a script are read back, they are merged to the same statements
again. -/
theorem mergeImports_again :
    mergeImports (serviceImports here o n ++ merged) = .ok merged := by
  obtain ⟨sorted, same⟩ := mergeImports_eq_ok_iff.mp hm
  refine mergeImports_eq_ok_iff.mpr ⟨sorted, fun module item => ?_⟩
  rw [provides_append]
  refine ⟨.inr, fun given => given.elim (fun own => ?_) id⟩
  exact (same module item).mpr (provides_append.mpr (.inl own))

end Merged

variable {here : Path} {o : Options} {n : Names} {old : String} {merged : List Import}

/-- **Imports survive regeneration** exactly if the statements are tame.  Then the script
imports what the old one does and what every service does, and it stays the same however often
it is generated again.  Without tameness something is lost at once: a namespace that is merged
with a name is written on a line that no regeneration reads. -/
theorem keeps_imports_iff (unmarked : Unmarked o n old) (seamless : Seamless here o n old)
    (importless : Importless o n old) (plain : PlainService o n)
    (hm : mergeImports (serviceImports here o n ++ (ofText old.toList).imports) = .ok merged)
    (settled : ∀ i ∈ merged, i.Legible ∨ i.Mute) :
    ∃ new, serviceSource here o n old = .ok new ∧
      ((∀ module item, Provides (ofText old.toList).imports module item →
          Provides (ofText new.toList).imports module item) ↔
        Tame (serviceImports here o n ++ (ofText old.toList).imports)) ∧
      (Tame (serviceImports here o n ++ (ofText old.toList).imports) →
        SameImports (ofText new.toList).imports
          (serviceImports here o n ++ (ofText old.toList).imports) ∧
          ∀ k, regenerate here o n k new = .ok new) := by
  obtain ⟨sorted, same⟩ := mergeImports_eq_ok_iff.mp hm
  have wf : ∀ i ∈ merged, i.WellFormed := wellFormed_of_sameImports same fun j hj =>
    (List.mem_append.mp hj).elim (plain.wellFormed j) wellFormed_of_mem_imports
  have imports := imports_renderService importless ⟨wf, settled⟩
  generalize hnew : renderService o n merged (carried o n old constructorSection)
    (carried o n old verifySection) = new at imports
  have written : serviceSource here o n old = .ok new :=
    serviceSource_eq_ok_iff.mpr ⟨merged, hm, hnew.symm⟩
  -- What is read back of the new script are the legible statements, and these are all of them
  -- exactly if the merge is tame.
  have all : Tame (serviceImports here o n ++ (ofText old.toList).imports) →
      (ofText new.toList).imports = merged := by
    intro tame
    rw [imports, List.filter_eq_self]
    exact fun i hi => decide_eq_true (tame.legible same i hi)
  refine ⟨new, written, ⟨fun kept => tame_of_kept hm (imports ▸ kept),
    fun tame module item given => ?_⟩,
    fun tame => ⟨(all tame).symm ▸ same, regenerate_of_fixed ?_⟩⟩
  · rw [all tame, same]
    exact provides_append.mpr (.inr given)
  · -- Both sections are read back, too.
    have carriedAgain : ∀ name ∈ serviceSections, carried o n new name
        = carried o n old name := by
      intro name hname
      rw [carried, extract_serviceSource unmarked seamless written hname, Option.getD_some]
    rw [serviceSource_eq_ok_iff, all tame]
    refine ⟨merged, mergeImports_again hm, ?_⟩
    rw [carriedAgain _ (by simp [serviceSections]),
      carriedAgain _ (by simp [serviceSections]), hnew]

/-! ## Scripts without sections -/

section Template

variable {old : String} (code : ∀ name ∈ serviceSections, extract old name = none)
include code

theorem importless_template :
    Importless .template (Names.make .template "Payment" "BTC") old where
  texts := by
    unfold Lacks
    decide +kernel
  sections name hname x hx := by
    rw [code name hname] at hx
    cases hx

theorem unmarked_template
    (statements : ∀ p ∈ (ofText old.toList).found, ¬ mark <:+: p.source) :
    Unmarked .template (Names.make .template "Payment" "BTC") old where
  texts := lacks_template
  statements := statements
  sections name hname x hx := by
    rw [code name hname] at hx
    cases hx

omit code in
theorem seamless_template :
    Seamless ⟨"/"⟩ .template (Names.make .template "Payment" "BTC") old where
  constructor_ _ := by
    rw [defaultSection, if_pos rfl]
    refine lacks_defaultConstructor (by simp [searchWords]) ?_ ?_
    · unfold Lacks
      decide +kernel
    · unfold Lacks
      decide +kernel
  modules empty := absurd empty (by decide)

end Template

theorem plainService_template :
    PlainService .template (Names.make .template "Payment" "BTC") where
  type := ⟨by decide, List.all_eq_true.mp (by decide)⟩
  dir := isPlain_template.services.entry
    (isPlainName_of_isAlphanum
      (isAlphanum_toSmall ⟨by decide, List.all_eq_true.mp (by decide)⟩))
  libraries := isPlain_of_splitOn _ rfl (by decide)
  dto := isPlain_of_splitOn _ rfl (by decide)
  genericDto := isPlain_of_splitOn _ rfl (by decide)

/-- A script with a default import of a module that every service imports from. -/
def withDefault : String := "import fs, \x7b writeFileSync \x7d from 'fs';"

/-- A default import of a module that every service imports from is merged into its statement,
and kept. -/
theorem keeps_imports_withDefault : ∃ new,
    serviceSource ⟨"/"⟩ .template (Names.make .template "Payment" "BTC") withDefault
      = .ok new ∧
      Provides (ofText new.toList).imports "fs" (.default "fs") ∧
      ∀ k, regenerate ⟨"/"⟩ .template (Names.make .template "Payment" "BTC") k new
        = .ok new := by
  have imported : (ofText withDefault.toList).imports
      = [⟨some "fs", .ofList ["writeFileSync"], none, "fs"⟩] := by decide +kernel
  have code : ∀ name ∈ serviceSections, extract withDefault name = none := by decide +kernel
  have statements : ∀ p ∈ (ofText withDefault.toList).found, ¬ mark <:+: p.source := by
    decide +kernel
  have tame : Tame (serviceImports ⟨"/"⟩ .template (Names.make .template "Payment" "BTC")
      ++ (ofText withDefault.toList).imports) := by
    refine ⟨fun i hi => ?_, fun i hi j hj _ hw => absurd ?_ hw⟩
    · rcases List.mem_append.mp hi with hi | hi
      · exact module_serviceImports_ne i hi
      · rw [imported, List.mem_singleton] at hi
        rw [hi]
        decide
    · rcases List.mem_append.mp hi with hi | hi
      · exact (serviceImports_named i hi).2
      · rw [imported, List.mem_singleton] at hi
        rw [hi]
  obtain ⟨merged, hm⟩ : ∃ merged, mergeImports (serviceImports ⟨"/"⟩ .template
      (Names.make .template "Payment" "BTC") ++ (ofText withDefault.toList).imports)
        = .ok merged := by
    rw [exists_mergeImports_iff]
    refine Compatible.append_named serviceImports_named ?_
    rw [imported]
    exact Sorted.compatible (List.pairwise_singleton _ _)
  have legible := tame.legible (mergeImports_eq_ok_iff.mp hm).2
  obtain ⟨new, written, survives, stays⟩ :=
    keeps_imports_iff (unmarked_template code statements)
    seamless_template (importless_template code) plainService_template hm fun i hi =>
    .inl (legible i hi)
  refine ⟨new, written, survives.mpr tame "fs" (.default "fs") ?_, (stays tame).2⟩
  rw [imported]
  exact ⟨_, List.mem_singleton_self _, rfl, rfl⟩

/-! ## Where an import is lost -/

/-- Every service imports one name from the file system. -/
theorem eq_of_module_fs {here : Path} {o : Options} {n : Names} {j : Import}
    (hj : j ∈ serviceImports here o n) (hmodule : j.module = "fs") :
    j = .ofNames "fs" ["readFileSync"] := by
  have relative : ∀ p names, (Import.ofNames (Path.specifier here n.serviceDir p) names).module
      ≠ "fs" := by
    intro p names heq
    rw [Import.module_ofNames] at heq
    have head := Path.head?_specifier here n.serviceDir p
    rw [heq] at head
    exact absurd head (by decide)
  simp only [serviceImports, List.mem_cons, List.not_mem_nil, or_false] at hj
  rcases hj with rfl | rfl | rfl | rfl | rfl | rfl | rfl | rfl
  · exact absurd hmodule (by decide)
  · rfl
  all_goals exact absurd hmodule (relative _ _)

/-- A script that imports this module as a whole. -/
def wholeModule : String := "import * as fs from 'fs';"

/-- **An import is lost**: its namespace is written on one line with a name that every service
imports from that module, and the line is not read back. -/
theorem exists_serviceSource_loses : ∃ new,
    serviceSource ⟨"/"⟩ .template (Names.make .template "Payment" "BTC") wholeModule
      = .ok new ∧
      Provides (ofText wholeModule.toList).imports "fs" (.wildcard "fs") ∧
      ¬ Provides (ofText new.toList).imports "fs" (.wildcard "fs") := by
  have imported : (ofText wholeModule.toList).imports = [⟨none, .empty, some "fs", "fs"⟩] := by
    decide +kernel
  have code : ∀ name ∈ serviceSections, extract wholeModule name = none := by decide +kernel
  obtain ⟨merged, hm⟩ : ∃ merged, mergeImports (serviceImports ⟨"/"⟩ .template
      (Names.make .template "Payment" "BTC") ++ (ofText wholeModule.toList).imports)
        = .ok merged := by
    rw [exists_mergeImports_iff]
    refine Compatible.append_named serviceImports_named ?_
    rw [imported]
    exact Sorted.compatible (List.pairwise_singleton _ _)
  obtain ⟨sorted, same⟩ := mergeImports_eq_ok_iff.mp hm
  have origin : ∀ j ∈ serviceImports ⟨"/"⟩ .template (Names.make .template "Payment" "BTC")
      ++ (ofText wholeModule.toList).imports,
      (j.module = "fs" → j = .ofNames "fs" ["readFileSync"] ∨
        j = ⟨none, .empty, some "fs", "fs"⟩) ∧
        (j.module ≠ "fs" → j.module ≠ "" ∧ j.wildcard = none) := by
    intro j hj
    rw [imported, List.mem_append, List.mem_singleton] at hj
    rcases hj with hj | rfl
    · exact ⟨fun h => .inl (eq_of_module_fs hj h), fun _ => ⟨module_serviceImports_ne j hj,
        (serviceImports_named j hj).2⟩⟩
    · exact ⟨fun _ => .inr rfl, fun h => absurd rfl h⟩
  -- The module is imported as a namespace, and by name.
  have illegible : ∀ i ∈ merged, i.module = "fs" → ¬ i.Legible := by
    intro i hi hmodule
    refine not_legible_of_provides same hi sorted (w := "fs") ?_ (.inr ⟨"readFileSync", ?_⟩)
    · rw [hmodule, imported]
      exact provides_append.mpr (.inr ⟨_, List.mem_singleton_self _, rfl, rfl⟩)
    · rw [hmodule]
      refine provides_append.mpr
        (.inl ⟨.ofNames "fs" ["readFileSync"], by simp [serviceImports], rfl, ?_⟩)
      exact NameSet.mem_ofList.mpr (by simp)
  have harmless : ∀ j ∈ [Import.ofNames "fs" ["readFileSync"], ⟨none, .empty,
    some "fs", "fs"⟩],
      (∀ d ∈ j.default, ∀ c ∈ d.toList, isQuote c = false) ∧
        ∀ s ∈ j.parts, ¬ "import".toList <:+: s.toList := by
    decide +kernel
  have settled : ∀ i ∈ merged, i.Legible ∨ i.Mute := by
    intro i hi
    by_cases hmodule : i.module = "fs"
    · refine .inr (mute_of_sameImports same hi (illegible i hi hmodule) fun j hj hjm =>
        harmless j ?_)
      simpa using (origin j hj).1 (hjm.trans hmodule)
    · exact .inl (legible_of_wildcard_eq_none same hi fun j hj hjm =>
        (origin j hj).2 (hjm ▸ hmodule))
  have wf : ∀ i ∈ merged, i.WellFormed := wellFormed_of_sameImports same fun j hj =>
    (List.mem_append.mp hj).elim (plainService_template.wellFormed j) wellFormed_of_mem_imports
  refine ⟨_, serviceSource_eq_ok_iff.mpr ⟨merged, hm, rfl⟩, ?_, ?_⟩
  · rw [imported]
    exact ⟨_, List.mem_singleton_self _, rfl, rfl⟩
  · rw [imports_renderService (importless_template code) ⟨wf, settled⟩]
    rintro ⟨i, hi, hmodule, -⟩
    rw [List.mem_filter, decide_eq_true_eq] at hi
    exact illegible i hi.1 hmodule hi.2

end Attestation.Verifier
