import Attestation.Proofs.Script.ImportLines
import Attestation.Proofs.Script.ImportMerge

/-!
# The parts of merged statements

Merged statements are made of the names and modules of the others (`exists_of_mem_parts`).  So
they can be written when the others can, and they can be read back when no module is imported
both as a namespace and in another way (`Tame.legible`).  What becomes of one module depends on
the statements for that module alone (`legible_of_wildcard_eq_none`, `not_legible_of_provides`,
`mute_of_sameImports`).

## Design notes

`Tame` is a condition on the statements that go in and not on the merged ones, since only the
first are known to a user.  It is the weakest one under which every merged statement can be
read back.  Where it does not hold, the damage is confined to one module, and the lemmas about
single modules say which.
-/

namespace Attestation

@[simp] theorem Import.module_ofNames (module : String) (names : List String) :
    (Import.ofNames module names).module = module := rfl

theorem exists_of_mem_parts {merged statements : List Import}
    (same : SameImports merged statements)
    {i : Import} (hi : i ∈ merged) {s : String} (hs : s ∈ i.parts) :
    ∃ j ∈ statements, j.module = i.module ∧ s ∈ j.parts := by
  -- Every part but the module is a thing that the statement imports.
  have given : ∀ item, i.Has item → (∀ j : Import, j.Has item → s ∈ j.parts) →
      ∃ j ∈ statements, j.module = i.module ∧ s ∈ j.parts := by
    intro item hitem member
    obtain ⟨j, hj, hm, hjitem⟩ := (same i.module item).mp ⟨i, hi, rfl, hitem⟩
    exact ⟨j, hj, hm, member j hjitem⟩
  simp only [Import.parts, List.mem_append, Option.mem_toList, List.mem_singleton] at hs
  rcases hs with ((hs | hs) | hs) | rfl
  · refine given (.default s) hs fun j hj => ?_
    have hj : j.default = some s := hj
    simp [Import.parts, hj]
  · refine given (.named s) hs fun j hj => ?_
    have hj : s ∈ j.named.toList := hj
    simp [Import.parts, hj]
  · refine given (.wildcard s) hs fun j hj => ?_
    have hj : j.wildcard = some s := hj
    simp [Import.parts, hj]
  · obtain ⟨j, hj, hm, -⟩ := (same i.module .module).mp ⟨i, hi, rfl, trivial⟩
    exact ⟨j, hj, hm, by simp [Import.parts, hm]⟩

theorem wellFormed_of_sameImports {merged statements : List Import}
    (same : SameImports merged statements)
    (wf : ∀ j ∈ statements, j.WellFormed) : ∀ i ∈ merged, i.WellFormed := by
  intro i hi
  obtain ⟨k, hk, hm, -⟩ := (same i.module .module).mp ⟨i, hi, rfl, trivial⟩
  constructor
  · intro s hs
    obtain ⟨j, hj, -, hd⟩ := (same i.module (.default s)).mp ⟨i, hi, rfl, hs⟩
    exact (wf j hj).default s hd
  · intro s hs
    obtain ⟨j, hj, -, hn⟩ := (same i.module (.named s)).mp ⟨i, hi, rfl, hs⟩
    exact (wf j hj).named s hn
  · intro s hs
    obtain ⟨j, hj, -, hw⟩ := (same i.module (.wildcard s)).mp ⟨i, hi, rfl, hs⟩
    exact (wf j hj).wildcard s hw
  · exact hm ▸ (wf k hk).trimmed
  · exact hm ▸ (wf k hk).module

/-- No module is blank, and a module that is imported as a namespace is imported in no other
way.  Then the merged statements are legible. -/
structure Tame (statements : List Import) : Prop where
  named : ∀ i ∈ statements, i.module ≠ ""
  alone : ∀ i ∈ statements, ∀ j ∈ statements, i.module = j.module → i.wildcard ≠ none →
    j.default = none ∧ j.named = NameSet.empty

theorem tame_of_wildcard_eq_none {statements : List Import}
    (h : ∀ i ∈ statements, i.module ≠ "" ∧ i.wildcard = none) : Tame statements :=
  ⟨fun i hi => (h i hi).1, fun i hi _ _ _ wild => absurd (h i hi).2 wild⟩

theorem Tame.of_subset {first second : List Import} (h : Tame second) (sub : first ⊆ second) :
    Tame first :=
  ⟨fun i hi => h.named i (sub hi), fun i hi j hj => h.alone i (sub hi) j (sub hj)⟩

/-- Merging keeps statements tame. -/
theorem Tame.of_sameImports {statements merged : List Import} (h : Tame statements)
    (same : SameImports merged statements) : Tame merged := by
  constructor
  · intro i hi
    obtain ⟨k, hk, hm, -⟩ := (same i.module .module).mp ⟨i, hi, rfl, trivial⟩
    exact hm ▸ h.named k hk
  · intro i hi j hj hij wild
    obtain ⟨w, hw⟩ := Option.ne_none_iff_exists'.mp wild
    obtain ⟨k, hk, hkm, hkw⟩ := (same i.module (.wildcard w)).mp ⟨i, hi, rfl, hw⟩
    have hkw : k.wildcard ≠ none := Option.ne_none_iff_exists'.mpr ⟨w, hkw⟩
    -- What the module is imported as besides stands in some statement for it.
    have alone : ∀ item, j.Has item → ∃ x :
      Import, x.default = none ∧ x.named = NameSet.empty ∧ x.Has item := by
      intro item hitem
      obtain ⟨x, hx, hxm, hxitem⟩ := (same i.module item).mp ⟨j, hj, hij.symm, hitem⟩
      have nothing := h.alone k hk x hx (hkm.trans hxm.symm) hkw
      exact ⟨x, nothing.1, nothing.2, hxitem⟩
    constructor
    · cases hd : j.default with
      | none => rfl
      | some d =>
          obtain ⟨x, none_, -, some_⟩ := alone (.default d) hd
          cases none_.symm.trans some_
    · refine NameSet.eq_of_mem_iff fun name => ⟨fun hn => ?_, fun hn => ?_⟩
      · obtain ⟨x, -, empty, member⟩ := alone (.named name) hn
        have member : name ∈ x.named := member
        rwa [empty] at member
      · exact absurd (NameSet.mem_def.mp hn) List.not_mem_nil

/-- Such statements stay legible when they are merged. -/
theorem Tame.legible {statements merged : List Import} (h : Tame statements)
    (same : SameImports merged statements) : ∀ i ∈ merged, i.Legible := by
  have tame := h.of_sameImports same
  intro i hi
  refine ⟨tame.named i hi, ?_⟩
  by_cases wild : i.wildcard = none
  · exact .inl wild
  · exact .inr (tame.alone i hi i hi rfl wild)

/-! ## One module at a time -/

section OneModule

variable {merged statements : List Import} (same : SameImports merged statements) {i : Import}
  (hi : i ∈ merged)
include same hi

/-- A merged statement is legible when no statement for its module has a namespace. -/
theorem legible_of_wildcard_eq_none
    (h : ∀ j ∈ statements, j.module = i.module → j.module ≠ "" ∧ j.wildcard = none) :
    i.Legible := by
  obtain ⟨k, hk, hkm, -⟩ := (same i.module .module).mp ⟨i, hi, rfl, trivial⟩
  refine ⟨hkm ▸ (h k hk hkm).1, .inl (Option.eq_none_iff_forall_not_mem.mpr fun w hw => ?_)⟩
  obtain ⟨j, hj, hjm, hjw⟩ := (same i.module (.wildcard w)).mp ⟨i, hi, rfl, hw⟩
  have hjw : j.wildcard = some w := hjw
  rw [(h j hj hjm).2] at hjw
  cases hjw

/-- A merged statement is not legible when its module is imported as a namespace and in another
way. -/
theorem not_legible_of_provides (sorted : Sorted merged) {w : String}
    (namespaced : Provides statements i.module (.wildcard w))
    (besides : (∃ d, Provides statements i.module (.default d)) ∨
      ∃ x, Provides statements i.module (.named x)) :
    ¬ i.Legible := by
  have has : ∀ {item}, Provides statements i.module item → i.Has item := fun given => by
    rwa [has_iff_provides sorted hi, same]
  have wild : i.wildcard = some w := has namespaced
  rintro ⟨-, none_ | ⟨default, named⟩⟩
  · rw [none_] at wild
    cases wild
  · rcases besides with ⟨d, given⟩ | ⟨x, given⟩
    · have given : i.default = some d := has given
      rw [default] at given
      cases given
    · have given : x ∈ i.named := has given
      rw [named] at given
      exact absurd (NameSet.mem_def.mp given) List.not_mem_nil

/-- Nothing is found on the line of a merged statement that cannot be read back, when the
statements for its module give no reason to. -/
theorem mute_of_sameImports (illegible : ¬ i.Legible)
    (h : ∀ j ∈ statements, j.module = i.module →
      (∀ d ∈ j.default, ∀ c ∈ d.toList, ImportBlock.isQuote c = false) ∧
        ∀ s ∈ j.parts, ¬ "import".toList <:+: s.toList) :
    i.Mute := by
  refine ⟨illegible, fun d hd => ?_, fun s hs => ?_⟩
  · obtain ⟨j, hj, hjm, hjd⟩ := (same i.module (.default d)).mp ⟨i, hi, rfl, hd⟩
    exact (h j hj hjm).1 d hjd
  · obtain ⟨j, hj, hjm, hs⟩ := exists_of_mem_parts same hi hs
    exact (h j hj hjm).2 s hs

end OneModule

end Attestation
