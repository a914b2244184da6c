import Attestation.Proofs.Script.ImportParts
import Attestation.Proofs.Verifier.ArrayEdits
import Attestation.Proofs.Verifier.Regular

/-!
# One wiring after another

`Parsed` names all that wiring reads from a text.  A regular text is parsed
(`Regular.exists_parsed`), wiring a parsed text succeeds when its imports can be merged
(`Parsed.wire`), and what it makes is parsed again (`Parsed.next`), so that the next wiring
starts from the parts that this one has put together.

## Design notes

A hand-written text and one that wiring has made differ in one respect: in the latter the
merged statements are sorted, and each stands on its line.  `Parsed` covers both, and so no
statement about several wirings has to tell the first from the later ones.

The lines of the block and the edited arrays must not disturb each other.  When the arrays lie
behind the block the final text has the block as one piece (`infix_of_wire`), which is what
makes an import line of the block one of the result.
-/

namespace Attestation

open Text

namespace Verifier

open ArrayLiteral ImportBlock

section Keep

variable {here : Path} {o : Options} {n : Names} {imports merged : List Import}
  (plain : Plain here o n)
  (hm : mergeImports (own here o n ++ imports) = .ok merged)
include hm

/-- Merging adds no anchor to statements without one. -/
theorem quiet_of_merged (quiet : ∀ i ∈ own here o n, ∀ s ∈ i.parts, ∀ name ∈ arrayNames,
    ¬ Occurs name s.toList)
    (h : ∀ i ∈ imports, ∀ s ∈ i.parts, ∀ name ∈ arrayNames, ¬ Occurs name s.toList)
    (clear : Bool) :
    ∀ i ∈ keep here o n clear merged, ∀ s ∈ i.parts, ∀ name ∈ arrayNames,
      ¬ Occurs name s.toList := by
  intro i hi s hs name hname
  obtain ⟨j, hj, -, hs⟩ :=
    exists_of_mem_parts (mergeImports_eq_ok_iff.mp hm).2 (mem_of_mem_keep hi) hs
  rcases List.mem_append.mp hj with hj | hj
  · exact quiet j hj s hs name hname
  · exact h j hj s hs name hname

include plain

/-- Merging adds no anchor. -/
theorem quiet_keep
    (h : ∀ i ∈ imports, ∀ s ∈ i.parts, ∀ name ∈ arrayNames, ¬ Occurs name s.toList)
    (clear : Bool) :
    ∀ i ∈ keep here o n clear merged, ∀ s ∈ i.parts, ∀ name ∈ arrayNames,
      ¬ Occurs name s.toList :=
  quiet_of_merged hm (fun i hi s hs name _ => own_quiet plain name i hi s hs) h clear

theorem wellFormed_keep (h : ∀ i ∈ imports, i.WellFormed) (clear : Bool) :
    ∀ i ∈ keep here o n clear merged, i.WellFormed := by
  intro i hi
  refine wellFormed_of_sameImports (mergeImports_eq_ok_iff.mp hm).2 ?_ i (mem_of_mem_keep hi)
  intro j hj
  rcases List.mem_append.mp hj with hj | hj
  · exact own_wellFormed plain j hj
  · exact h j hj

end Keep

/-! ## The import block in the text -/

/-- What stands in front of the first anchor has none. -/
theorem not_occurs_of_behind {name : String} (hname : name ∈ arrayNames) {u back : List Char}
    (behind : ∀ cut ∈ (Anchor.array name).cut (u ++ back), u <+: cut.1) : ¬ Occurs name u := by
  rintro ⟨w, hw, f, r, hu⟩
  have unbracketed := (isArrayName hname).unbracketed
  cases hm : firstMatch (Anchor.array name).recognise (u ++ back) with
  | none =>
      have missing := firstMatch_eq_none_iff.mp hm (w ++ '[' :: (r ++ back))
        ⟨f, by rw [← hu]; simp⟩
      rw [recognise_eq_some_iff.mpr ⟨w, hw, rfl⟩] at missing
      cases missing
  | some found =>
      obtain ⟨front, rest⟩ := found
      obtain ⟨v, -, -, opens⟩ := opens_of_firstMatch unbracketed hm
      have cut : (Anchor.array name).cut (u ++ back) = some (front,
        (u ++ back).drop front.length) := by
        rw [Anchor.cut, hm]
        rfl
      have order : u <+: front := behind _ cut
      exact opens.first ⟨w, hw,
        List.IsInfix.trans ⟨f, r, hu⟩ (order.trans (List.prefix_append _ _)).isInfix⟩

theorem not_occurs_of_not_mem {name : String} {u : List Char} (bracket : '[' ∉ u) :
    ¬ Occurs name u := by
  rintro ⟨w, -, part⟩
  exact bracket (part.subset (by simp))

section Block

variable {here : Path} {o : Options} {n : Names} {clear : Bool} {content wired : List Char}
  {merged : List Import}

/-- Behind the import block lies the rest of the text, with the anchors. -/
theorem ArraysBehind.cut_behind (h : ArraysBehind content) {name : String}
    (hname : name ∈ arrayNames) :
    ∀ cut ∈ (Anchor.array name).cut ((ofText content).upTo ++ (ofText content).back),
      (ofText content).upTo <+: cut.1 := by
  rw [upTo_append_back, text_ofText]
  exact h name hname

theorem ArraysBehind.quiet (h : ArraysBehind content) :
    ∀ name ∈ arrayNames, ¬ Occurs name (ofText content).upTo :=
  fun _ hname => not_occurs_of_behind hname (h.cut_behind hname)

theorem quiet_own (hc : IsAlphanum n.controllerClass) (hp : IsAlphanum n.serviceClass)
    (modules : ∀ i ∈ own here o n, ∀ name ∈ arrayNames, ¬ Occurs name i.module.toList) :
    ∀ i ∈ own here o n, ∀ s ∈ i.parts, ∀ name ∈ arrayNames, ¬ Occurs name s.toList := by
  have quiet : ∀ {module className : String},
    (∀ name ∈ arrayNames, ¬ Occurs name module.toList) →
      IsAlphanum className →
      ∀ s ∈ (Import.ofNames module [className]).parts, ∀ name ∈ arrayNames,
        ¬ Occurs name s.toList :=
    fun hmodule hclass =>
      Import.forall_parts_ofNames hmodule fun s hs name _ => List.mem_singleton.mp hs ▸
        hclass.not_occurs name
  rw [own, controllerImport, serviceImport, List.forall_mem_cons, List.forall_mem_singleton,
    Import.module_ofNames,
    Import.module_ofNames] at modules
  rw [own, controllerImport, serviceImport, List.forall_mem_cons, List.forall_mem_singleton]
  exact ⟨quiet modules.1 hc, quiet modules.2 hp⟩

variable (quiet : ∀ i ∈ own here o n, ∀ s ∈ i.parts, ∀ name ∈ arrayNames,
  ¬ Occurs name s.toList)
  (behind : ArraysBehind content)
  (hm : mergeImports (own here o n ++ (ofText content).imports) = .ok merged)
  (full : keep here o n clear merged ≠ [])
include quiet behind hm full

/-- The new block adds no anchor in front of the arrays. -/
theorem neutral_block : ∀ name ∈ arrayNames,
    Neutral name ((ofText content).front.getD []
      ++ importLines (keep here o n clear merged)) := by
  intro name hname
  have old := behind.quiet name hname
  have front : ¬ Occurs name ((ofText content).front.getD []) := by
    cases found : (ofText content).found with
    | nil =>
        rw [ImportBlock.front, found]
        exact not_occurs_nil
    | cons p more =>
        rw [ImportBlock.front, found]
        exact fun ho => old (ho.mono (infix_upTo (found ▸ List.mem_cons_self)).1)
  refine neutral_lines hname front (fun i hi s hs => ?_) full
  exact quiet_of_merged hm quiet (fun i hi s hs name hname ho =>
    behind.quiet name hname (ho.mono (infix_upTo_of_mem_parts hi hs))) clear i hi s hs name
      hname

/-- **The new block stands in the finished text**: the arrays are edited behind it. -/
theorem infix_of_wire (hw : wire here o n clear content = .ok wired) :
    importLines (keep here o n clear merged) <:+: wired := by
  obtain ⟨merged', middle, hm', first, second⟩ := wire_eq_ok_iff.mp hw
  obtain rfl := Except.ok.inj (hm.symm.trans hm')
  have edited := editArrays_eq_ok_iff.mpr ⟨middle, first, second⟩
  obtain ⟨back, spliced⟩ := exists_splice (ofText content) (importLines_ne_nil full)
  rw [spliced] at edited
  obtain ⟨rest, -, rfl⟩ := (editArrays_append_eq_ok_iff
    (neutral_block quiet behind hm full)).mp edited
  exact ⟨_, rest, rfl⟩

end Block

/-- All that wiring reads from a text: its layout, its import statements and the entries of its
arrays.  A wiring of a parsed text gives a text that is parsed with the same layout, which is
the step of every run. -/
structure Parsed (content : List Char) (l : Layout) (imports : List Import)
    (controllers providers : List String) : Prop where
  sound : l.Sound
  calm : l.Calm
  found : (ofText content).imports = imports
  front : (ofText content).front = some l.front
  back : ∃ x y, (ofText content).back = l.back x y ∧ l.Holds x y controllers providers
  stillControllers : ∀ e ∈ controllers, Still e
  stillProviders : ∀ e ∈ providers, Still e
  wellFormed : ∀ i ∈ imports, i.WellFormed
  quiet : ∀ i ∈ imports, ∀ s ∈ i.parts, ∀ name ∈ arrayNames, ¬ Occurs name s.toList

/-- A regular text that imports something is parsed, and its arrays stand as they are in the
rest of its layout. -/
theorem Regular.exists_parsed {content : List Char} {controllers providers : ArrayLiteral}
    (h : Regular content controllers providers) (hne : (ofText content).imports ≠ []) :
    ∃ l, Parsed content l (ofText content).imports controllers.entries providers.entries ∧
      (ofText content).back = l.back controllers.inner providers.inner := by
  have found : (ofText content).found ≠ [] := fun hf => hne (by rw [imports, hf, List.map_nil])
  obtain ⟨l, sound, calm, front, back, holds, stillC, stillP, quiet⟩ := h.exists_layout found
  exact ⟨l, ⟨sound, calm, rfl, front, ⟨_, _, back, holds⟩, stillC, stillP,
    fun i => wellFormed_of_mem_imports, quiet⟩, back⟩

namespace Parsed

variable {here : Path} {o : Options} {n : Names} (clear : Bool) {content : List Char}
  {l : Layout}
  {imports merged : List Import} {cs ps : List String}
  (h : Parsed content l imports cs ps) (plain : Plain here o n)
  (hm : mergeImports (own here o n ++ imports) = .ok merged)
include h plain hm

/-- **One wiring** puts the kept statements and the edited entries into the layout of the
text. -/
theorem wire (hne : keep here o n clear merged ≠ []) :
    wire here o n clear content
      = .ok (l.text (keep here o n clear merged) (edit clear n.controllerClass cs)
          (edit clear n.serviceClass ps)) := by
  obtain ⟨x, y, hback, holds⟩ := h.back
  refine wire_of_splice plain content merged clear h.sound ?_ ?_ (.inl hne)
    (quiet_keep plain hm h.quiet clear) holds
  · rw [h.found, hm]
  · rw [ImportBlock.splice, h.front, hback]

/-- What wiring makes is parsed again. -/
theorem next (hne : keep here o n clear merged ≠ [])
    (legible : ∀ i ∈ keep here o n clear merged, i.Legible) :
    Parsed (l.text (keep here o n clear merged) (edit clear n.controllerClass cs)
      (edit clear n.serviceClass ps)) l (keep here o n clear merged)
      (edit clear n.controllerClass cs) (edit clear n.serviceClass ps) := by
  obtain ⟨x, y, -, holds⟩ := h.back
  have wf := wellFormed_keep plain hm h.wellFormed clear
  have stillC := plain.controllerClass.still_edit h.stillControllers clear
  have stillP := plain.serviceClass.still_edit h.stillProviders clear
  have entries := holds.entries.edit plain.controllerClass plain.serviceClass clear
  obtain ⟨found, front, back⟩ := ofText_text h.calm stillC stillP wf legible hne
  exact ⟨h.sound, h.calm, found, front, ⟨_, _, back, entries.holds⟩, stillC, stillP, wf,
    quiet_keep plain hm h.quiet clear⟩

end Parsed

end Verifier

end Attestation
