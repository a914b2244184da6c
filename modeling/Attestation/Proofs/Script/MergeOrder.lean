import Attestation.Proofs.Script.ImportMerge

/-!
# Merging in any order

Merged statements are told by what the statements import, so that neither the order of the
statements nor the order in which they are merged matters (`mergeImports_unordered`).

## Main definitions

* `Merges`: what the merged statements are, module by module.

## Main results

* `mergeImports_eq_ok_iff_merges`: merging is the function that this relation describes.
* `mergeImports_congr`: statements that import the same are merged to the same.

## Design notes

The merge is a fold that inserts one statement after the other into a sorted list, and may fail
at each of them.  Its order is not visible in `Merges`, which is a property of sets of imports;
so all statements about permutations and about merging in parts follow from one
characterisation, without a second induction.
-/

namespace Attestation

namespace Import

theorem before_iff {a b : Import} :
    a.before b = true ↔
      (a.isPath = true ∧ b.isPath = false) ∨ (a.isPath = b.isPath ∧ a.module < b.module) := by
  unfold before
  cases ha : a.isPath <;> cases hb : b.isPath <;> simp

end Import

/-- One statement for each module, paths before packages and each group ordered by module, with
all that the statements for its module import.  This determines the merged list, so equality of
results follows from it. -/
structure Merges (statements merged : List Import) : Prop where
  ordered : merged.Pairwise fun a b =>
    (a.isPath = true ∧ b.isPath = false) ∨ (a.isPath = b.isPath ∧ a.module < b.module)
  unique : (merged.map (·.module)).Nodup
  modules : ∀ module, (∃ i ∈ merged, i.module = module) ↔ ∃ j ∈ statements, j.module = module
  named : ∀ i ∈ merged, ∀ name,
    name ∈ i.named ↔ ∃ j ∈ statements, j.module = i.module ∧ name ∈ j.named
  default : ∀ i ∈ merged, ∀ name,
    i.default = some name ↔ ∃ j ∈ statements, j.module = i.module ∧ j.default = some name
  wildcard : ∀ i ∈ merged, ∀ name,
    i.wildcard = some name ↔ ∃ j ∈ statements, j.module = i.module ∧ j.wildcard = some name

variable {statements others merged more result : List Import}

theorem sorted_iff :
    Sorted merged ↔ merged.Pairwise fun a b =>
      (a.isPath = true ∧ b.isPath = false) ∨ (a.isPath = b.isPath ∧ a.module < b.module) := by
  unfold Sorted
  simp only [Import.before_iff]

/-- Merging gives these statements and no others. -/
theorem mergeImports_eq_ok_iff_merges : mergeImports statements = .ok merged ↔
    Merges statements merged := by
  rw [mergeImports_eq_ok_iff]
  constructor
  · rintro ⟨sorted, same⟩
    exact {
      ordered := sorted_iff.mp sorted
      unique := List.pairwise_map.mpr (List.Pairwise.imp Import.module_ne_of_before sorted)
      modules := fun module => by simpa [Provides, Import.Has] using same module .module
      named := fun i hi name =>
        (has_iff_provides sorted hi (.named name)).trans (same i.module (.named name))
      default := fun i hi name =>
        (has_iff_provides sorted hi (.default name)).trans (same i.module (.default name))
      wildcard := fun i hi name =>
        (has_iff_provides sorted hi (.wildcard name)).trans (same i.module (.wildcard name)) }
  · intro h
    refine ⟨sorted_iff.mpr h.ordered, fun module item => ?_⟩
    -- What holds of the merged statement for each module holds of the list.
    have lift : (∀ i ∈ merged, i.Has item ↔ Provides statements i.module item) →
        (Provides merged module item ↔ Provides statements module item) := by
      intro each
      constructor
      · rintro ⟨i, hi, rfl, hitem⟩
        exact (each i hi).mp hitem
      · rintro ⟨j, hj, rfl, hitem⟩
        obtain ⟨i, hi, hm⟩ := (h.modules j.module).mpr ⟨j, hj, rfl⟩
        exact ⟨i, hi, hm, (each i hi).mpr ⟨j, hj, hm.symm, hitem⟩⟩
    cases item with
    | module => simpa [Provides, Import.Has] using h.modules module
    | default name => exact lift fun i hi => h.default i hi name
    | named name => exact lift fun i hi => h.named i hi name
    | wildcard name => exact lift fun i hi => h.wildcard i hi name

/-- Statements that import the same are merged to the same. -/
theorem mergeImports_congr (same : SameImports statements others) :
    mergeImports statements = .ok merged ↔ mergeImports others = .ok merged := by
  rw [mergeImports_eq_ok_iff, mergeImports_eq_ok_iff]
  exact ⟨fun ⟨sorted, provides⟩ => ⟨sorted, provides.trans same⟩,
    fun ⟨sorted, provides⟩ => ⟨sorted, provides.trans same.symm⟩⟩

theorem mergeImports_perm (perm : others.Perm statements) :
    (mergeImports others).toOption = (mergeImports statements).toOption := by
  have same : SameImports others statements := sameImports_of_mem_iff fun _ => perm.mem_iff
  cases h : mergeImports statements with
  | ok merged => rw [(mergeImports_congr same).mpr h]
  | error e =>
      cases h' : mergeImports others with
      | error e' => rfl
      | ok merged =>
          rw [(mergeImports_congr same).mp h'] at h
          cases h

/-- What has been merged can be merged on. -/
theorem mergeImports_append :
    mergeImports (statements ++ more) = .ok result ↔
      ∃ merged, mergeImports statements = .ok merged ∧
        mergeImports (merged ++ more) = .ok result := by
  -- Merged statements stand for those that they were merged from.
  have onward : ∀ {merged}, mergeImports statements = .ok merged →
      (mergeImports (merged ++ more) = .ok result ↔
        mergeImports (statements ++ more) = .ok result) :=
    fun hm => mergeImports_congr ((mergeImports_eq_ok_iff.mp hm).2.append
      (SameImports.refl more))
  constructor
  · intro h
    have compatible : Compatible statements := (exists_mergeImports_iff.mp ⟨result, h⟩).mono
      fun module item provides => provides_append.mpr (.inl provides)
    obtain ⟨merged, hm⟩ := exists_mergeImports_iff.mpr compatible
    exact ⟨merged, hm, (onward hm).mpr h⟩
  · rintro ⟨merged, hm, h⟩
    exact (onward hm).mp h

/-- **Merging does not depend on any order.**  It fails only on two default imports or two
namespaces of one module, and gives the merged statements otherwise; the same ones from the
statements in another order, and from a part of them that has been merged before.  The last is
what makes repeated merges agree with one merge. -/
theorem mergeImports_unordered (statements : List Import) :
    ((∃ merged, mergeImports statements = .ok merged) ↔ Compatible statements) ∧
      (∀ merged, mergeImports statements = .ok merged ↔ Merges statements merged) ∧
      (∀ others : List Import, others.Perm statements →
        (mergeImports others).toOption = (mergeImports statements).toOption) ∧
      ∀ more result, mergeImports (statements ++ more) = .ok result ↔
        ∃ merged, mergeImports statements = .ok merged ∧
          mergeImports (merged ++ more) = .ok result :=
  ⟨exists_mergeImports_iff, fun _ => mergeImports_eq_ok_iff_merges,
    fun _ => mergeImports_perm, fun _ _ => mergeImports_append⟩

/-- A default import and a name of one module are merged from either side. -/
theorem mergeImports_unordered_twoModules :
    [⟨some "D", NameSet.empty, none, "m"⟩, Import.ofNames "./x" ["b"],
      Import.ofNames "m" ["a"]].Perm
        [Import.ofNames "m" ["a"], ⟨some "D", NameSet.empty, none, "m"⟩,
          Import.ofNames "./x" ["b"]] ∧
      (mergeImports
          [⟨some "D", NameSet.empty, none, "m"⟩, Import.ofNames "./x" ["b"],
            Import.ofNames "m" ["a"]]).toOption
        = (mergeImports
          [Import.ofNames "m" ["a"], ⟨some "D", NameSet.empty, none, "m"⟩,
            Import.ofNames "./x" ["b"]]).toOption ∧
      mergeImports
          [Import.ofNames "m" ["a"], ⟨some "D", NameSet.empty, none, "m"⟩,
            Import.ofNames "./x" ["b"]]
        = .ok [Import.ofNames "./x" ["b"], ⟨some "D", NameSet.ofList ["a"], none, "m"⟩] :=
  have perm : [⟨some "D", NameSet.empty, none, "m"⟩, Import.ofNames "./x" ["b"],
    Import.ofNames "m" ["a"]].Perm
      [Import.ofNames "m" ["a"], ⟨some "D", NameSet.empty, none, "m"⟩,
        Import.ofNames "./x" ["b"]] := by
    decide
  ⟨perm, (mergeImports_unordered _).2.2.1 _ perm, by decide⟩

end Attestation
