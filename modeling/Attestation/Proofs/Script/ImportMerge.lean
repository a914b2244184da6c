import Attestation.Script.ImportMerge
import Mathlib.Data.List.Induction
import Mathlib.Data.List.Perm.Basic

/-!
# What merged imports import

Merging sorts statements by their modules and makes one of those for the same module.  What a
list of statements imports is kept apart from how it is listed: `Provides` says that some
statement for a module has a given part, and merged imports are the only sorted list that
provides the same (`mergeImports_eq_ok_iff`).

## Design notes

Everything that later proofs use about merging follows from that one equivalence; none of them
looks at the insertion again.  The parts of a statement are items (`Import.Item`), with the
module itself as one of them, so that a statement that imports nothing by name is still seen.
Merging fails only when two statements for a module disagree in their default import or in
their namespace, which `Compatible` says without an order.
-/

namespace Attestation

namespace Import

/-! ## The order of statements -/

theorem before_congr {a a' b b' : Import} (ha : a.module = a'.module)
    (hb : b.module = b'.module) :
    a.before b = a'.before b' := by
  unfold before isPath
  rw [ha, hb]

theorem before_irrefl (a : Import) : a.before a = false := by
  simp [before]

theorem before_trans {a b c : Import} (hab : a.before b = true) (hbc : b.before c = true) :
    a.before c = true := by
  unfold before at hab hbc ⊢
  cases ha : a.isPath <;> cases hb : b.isPath <;> cases hc : c.isPath <;>
    simp_all only [decide_eq_true_eq, if_true, if_false, reduceCtorEq] <;>
    exact String.lt_trans hab hbc

/-- Statements for different modules are ordered. -/
theorem before_total {a b : Import} (hne : a.module ≠ b.module) :
    a.before b = true ∨ b.before a = true := by
  have differ : a.module < b.module ∨ b.module < a.module := by
    by_contra h
    rw [not_or, String.not_lt, String.not_lt] at h
    exact hne (String.le_antisymm h.2 h.1)
  unfold before
  cases ha : a.isPath <;> cases hb : b.isPath <;> simp_all

theorem module_ne_of_before {a b : Import} (h : a.before b = true) : a.module ≠ b.module := by
  intro heq
  rw [before_congr heq rfl, before_irrefl] at h
  cases h

/-! ## The parts of a statement -/

/-- One thing that a statement imports from its module. -/
inductive Item where
  /-- The module itself, which every statement loads. -/
  | module
  | default (name : String)
  | named (name : String)
  | wildcard (name : String)

/-- Whether a statement imports a thing from its module. -/
def Has (i : Import) : Item → Prop
  | .module => True
  | .default name => i.default = some name
  | .named name => name ∈ i.named
  | .wildcard name => i.wildcard = some name

/-- A statement is determined by its module and what it imports from it. -/
theorem eq_of_has_iff {i j : Import} (hm : i.module = j.module) (h : ∀ item, i.Has item ↔
    j.Has item) :
    i = j := by
  have hd : i.default = j.default := Option.ext fun name => h (.default name)
  have hw : i.wildcard = j.wildcard := Option.ext fun name => h (.wildcard name)
  have hn : i.named = j.named := NameSet.eq_of_mem_iff fun name => h (.named name)
  obtain ⟨d, n, w, m⟩ := i
  obtain ⟨d', n', w', m'⟩ := j
  simp_all

theorem agree_eq_ok_iff {f : String → String → EditError} {a b c : Option String} :
    agree f a b = .ok c ↔ ∀ x, c = some x ↔ a = some x ∨ b = some x := by
  cases a with
  | none =>
      cases b with
      | none =>
          simp only [agree, Except.ok.injEq, or_self]
          exact ⟨fun h x => by rw [h], fun h => (Option.ext h).symm⟩
      | some y =>
          simp only [agree, Except.ok.injEq, reduceCtorEq, false_or]
          exact ⟨fun h x => by rw [h], fun h => (Option.ext h).symm⟩
  | some x =>
      cases b with
      | none =>
          simp only [agree, Except.ok.injEq, reduceCtorEq, or_false]
          exact ⟨fun h x => by rw [h], fun h => (Option.ext h).symm⟩
      | some y =>
          simp only [agree]
          split
          · next heq =>
              subst heq
              simp only [Except.ok.injEq, or_self]
              exact ⟨fun h x => by rw [h], fun h => (Option.ext h).symm⟩
          · next hne =>
              simp only [reduceCtorEq, false_iff, Option.some.injEq]
              intro h
              have hx := (h x).mpr (.inl rfl)
              rw [(h y).mpr (.inr rfl), Option.some.injEq] at hx
              exact hne hx.symm

/-- Two statements combine to the one that imports what either of them does. -/
theorem combine_eq_ok_iff {a b c : Import} :
    a.combine b = .ok c ↔ c.module = a.module ∧ ∀ item, c.Has item ↔
    a.Has item ∨ b.Has item := by
  constructor
  · intro h
    simp only [combine, bind, Except.bind] at h
    split at h
    · cases h
    next d hd =>
      split at h
      · cases h
      next w hw =>
        cases h
        rw [agree_eq_ok_iff] at hd hw
        refine ⟨rfl, ?_⟩
        intro item
        cases item with
        | module => simp [Has]
        | default name => exact hd name
        | named name => exact NameSet.mem_union
        | wildcard name => exact hw name
  · rintro ⟨hm, h⟩
    have hd := agree_eq_ok_iff (f := .conflictingDefaultImport b.module)
      |>.mpr fun name => h (.default name)
    have hw := agree_eq_ok_iff (f := .conflictingWildcardImport b.module)
      |>.mpr fun name => h (.wildcard name)
    have hn : a.named.union b.named = c.named :=
      NameSet.eq_of_mem_iff fun name => NameSet.mem_union.trans (h (.named name)).symm
    simp only [combine, hd, hw, hn, ← hm]
    rfl

end Import

/-! ## What statements provide -/

/-- Some statement for the module imports the thing. -/
def Provides (statements : List Import) (module : String) (item : Import.Item) : Prop :=
  ∃ i ∈ statements, i.module = module ∧ i.Has item

/-- Two lists of statements import the same.  How it is spread over statements does not matter,
nor how often it is said. -/
def SameImports (first second : List Import) : Prop :=
  ∀ module item, Provides first module item ↔ Provides second module item

/-- Sorted statements, at most one for each module.  Two sorted lists that import the same are
equal. -/
def Sorted (statements : List Import) : Prop :=
  statements.Pairwise fun a b => a.before b = true

theorem SameImports.refl (statements : List Import) : SameImports statements statements :=
  fun _ _ => Iff.rfl

theorem SameImports.symm {first second : List Import} (h : SameImports first second) :
    SameImports second first :=
  fun module item => (h module item).symm

theorem SameImports.trans {first second third : List Import} (h : SameImports first second)
    (h' : SameImports second third) : SameImports first third :=
  fun module item => (h module item).trans (h' module item)

theorem sameImports_of_mem_iff {first second : List Import} (h : ∀ i, i ∈ first ↔ i ∈ second) :
    SameImports first second := by
  intro module item
  simp only [Provides, h]

@[simp] theorem provides_append {first second : List Import} {module : String}
  {item : Import.Item} :
    Provides (first ++ second) module item ↔
      Provides first module item ∨ Provides second module item := by
  simp only [Provides, List.mem_append, or_and_right, exists_or]

theorem provides_cons {i : Import} {more : List Import} {module : String}
    {item : Import.Item} :
    Provides (i :: more) module item ↔
      (i.module = module ∧ i.Has item) ∨ Provides more module item := by
  simp only [Provides, List.mem_cons, or_and_right, exists_or, exists_eq_left]

theorem SameImports.append {first second third fourth : List Import}
    (h : SameImports first second)
    (h' : SameImports third fourth) : SameImports (first ++ third) (second ++ fourth) := by
  intro module item
  rw [provides_append, provides_append, h, h']

/-- What is left out are whole modules. -/
theorem provides_filter {p : String → Bool} {statements : List Import} {module : String}
    {item : Import.Item} :
    Provides (statements.filter fun i => p i.module) module item ↔
      p module = true ∧ Provides statements module item := by
  constructor
  · rintro ⟨i, hi, rfl, hitem⟩
    rw [List.mem_filter] at hi
    exact ⟨hi.2, i, hi.1, rfl, hitem⟩
  · rintro ⟨hp, i, hi, rfl, hitem⟩
    exact ⟨i, List.mem_filter.mpr ⟨hi, hp⟩, rfl, hitem⟩

/-- Leaving out whole modules keeps the same imports the same. -/
theorem SameImports.filter {first second : List Import} (p : String → Bool)
    (h : SameImports first second) :
    SameImports (first.filter fun i => p i.module) (second.filter fun i => p i.module) := by
  intro module item
  rw [provides_filter, provides_filter, h]

theorem Sorted.filter {statements : List Import} (h : Sorted statements) (p : Import → Bool) :
    Sorted (statements.filter p) :=
  List.Pairwise.filter p h

/-- Statements for one module are the same in a sorted list. -/
theorem Sorted.eq_of_module_eq {statements : List Import} (h : Sorted statements)
    {i j : Import}
    (hi : i ∈ statements) (hj : j ∈ statements) (hm : i.module = j.module) : i = j := by
  have apart : statements.Pairwise fun a b => a.module ≠ b.module :=
    List.Pairwise.imp Import.module_ne_of_before h
  exact List.Pairwise.forall_of_forall_of_flip (R := fun a b => a.module = b.module → a = b)
    (fun _ _ _ => rfl) (apart.imp fun hne heq => absurd heq hne)
    (apart.imp fun hne heq => absurd heq.symm hne) hi hj hm

theorem has_iff_provides {statements : List Import} (h : Sorted statements) {s : Import}
    (hs : s ∈ statements) (item : Import.Item) : s.Has item ↔
    Provides statements s.module item := by
  constructor
  · intro hitem
    exact ⟨s, hs, rfl, hitem⟩
  · rintro ⟨i, hi, hm, hitem⟩
    rwa [← h.eq_of_module_eq hi hs hm]

/-- **A sorted list is determined by what it imports.** -/
theorem Sorted.eq_of_sameImports {first second : List Import} (h₁ : Sorted first)
    (h₂ : Sorted second)
    (h : SameImports first second) : first = second := by
  have sub : ∀ {a b : List Import}, Sorted a → Sorted b → SameImports a b →
    ∀ i ∈ a, i ∈ b := by
    intro a b ha hb hab i hi
    obtain ⟨j, hj, hm, -⟩ := (hab i.module .module).mp ⟨i, hi, rfl, trivial⟩
    have heq : i = j := Import.eq_of_has_iff hm.symm fun item => by
      rw [has_iff_provides ha hi, has_iff_provides hb hj, hab, hm]
    rwa [heq]
  have nodup : ∀ {a : List Import}, Sorted a → a.Nodup := fun ha =>
    List.Pairwise.imp (fun hab heq => Import.module_ne_of_before hab (congrArg _ heq)) ha
  have perm : first.Perm second := (List.perm_ext_iff_of_nodup (nodup h₁) (nodup h₂)).mpr
    fun i => ⟨sub h₁ h₂ h i, sub h₂ h₁ h.symm i⟩
  refine perm.eq_of_pairwise ?_ h₁ h₂
  intro a b _ _ hab hba
  have := Import.before_trans hab hba
  rw [Import.before_irrefl] at this
  cases this

/-! ## Putting one statement into a sorted list -/

namespace Import

theorem insertInto_of_mem {front back : List Import} {o s : Import}
    (h : Sorted (front ++ o :: back)) (hm : o.module = s.module) :
    s.insertInto (front ++ o :: back) = (o.combine s).map fun c => front ++ c :: back := by
  induction front with
  | nil =>
      simp only [List.nil_append, insertInto, if_pos hm]
      cases o.combine s <;> rfl
  | cons a front ih =>
      have ordered : a.before o = true := List.rel_of_pairwise_cons h (by simp)
      have apart : a.module ≠ s.module := hm ▸ module_ne_of_before ordered
      have behind : s.before a = false := by
        cases hsa : s.before a with
        | false => rfl
        | true =>
            have := before_trans ordered (before_congr hm.symm rfl ▸ hsa)
            rw [before_irrefl] at this
            cases this
      simp only [List.cons_append, insertInto, if_neg apart, behind,
        Bool.false_eq_true, if_false,
        ih (List.Pairwise.of_cons h)]
      cases o.combine s <;> rfl

/-- A statement for a new module comes into its place. -/
theorem exists_insertInto_of_not_mem {merged : List Import} {s : Import} (h : Sorted merged)
    (hm : ∀ o ∈ merged, o.module ≠ s.module) :
    ∃ result, s.insertInto merged = .ok result ∧ Sorted result ∧
      ∀ i, i ∈ result ↔ i = s ∨ i ∈ merged := by
  induction merged with
  | nil => exact ⟨[s], rfl, List.pairwise_singleton _ _, by simp⟩
  | cons o more ih =>
      have apart : o.module ≠ s.module := hm o (by simp)
      cases hso : s.before o with
      | true =>
          refine ⟨s :: o :: more, by simp [insertInto, apart, hso], ?_, by simp⟩
          refine List.pairwise_cons.mpr ⟨?_, h⟩
          intro a ha
          rcases List.mem_cons.mp ha with rfl | ha
          · exact hso
          · exact before_trans hso (List.rel_of_pairwise_cons h ha)
      | false =>
          have behind : o.before s = true := (before_total apart).resolve_right (by simp [hso])
          obtain ⟨result, hr, sorted, members⟩ :=
            ih (List.Pairwise.of_cons h) fun a ha => hm a (List.mem_cons_of_mem _ ha)
          refine ⟨o :: result, ?_, ?_, ?_⟩
          · simp only [insertInto, if_neg apart, hso, Bool.false_eq_true, if_false, hr]
            rfl
          · refine List.pairwise_cons.mpr ⟨?_, sorted⟩
            intro a ha
            rcases (members a).mp ha with rfl | ha
            · exact behind
            · exact List.rel_of_pairwise_cons h ha
          · intro i
            rw [List.mem_cons, members, List.mem_cons]
            exact or_left_comm

/-- Putting a statement into a sorted list gives the sorted list that imports what both do. -/
theorem insertInto_eq_ok_iff {merged result : List Import} {s : Import} (h : Sorted merged) :
    s.insertInto merged = .ok result ↔ Sorted result ∧ SameImports result (s :: merged) := by
  by_cases hmem : ∃ o ∈ merged, o.module = s.module
  · obtain ⟨o, ho, hm⟩ := hmem
    obtain ⟨front, back, rfl⟩ := List.append_of_mem ho
    -- The list with `c` in the place of `o` imports the right things when `c` does.
    have replaced : ∀ c : Import, c.module = o.module →
      (∀ item, c.Has item ↔ o.Has item ∨ s.Has item) →
        Sorted (front ++ c :: back) ∧
        SameImports (front ++ c :: back) (s :: (front ++ o :: back)) := by
      intro c hc hitems
      constructor
      · simp only [Sorted, List.pairwise_append, List.pairwise_cons, List.mem_cons] at h ⊢
        obtain ⟨hf, ⟨hob, hb⟩, hfb⟩ := h
        refine ⟨hf, ⟨fun b hbm => before_congr hc rfl ▸ hob b hbm, hb⟩, ?_⟩
        rintro a ha b (rfl | hbm)
        · exact before_congr rfl hc ▸ hfb a ha o (.inl rfl)
        · exact hfb a ha b (.inr hbm)
      · intro m item
        simp only [provides_cons, provides_append, hc, hitems, ← hm]
        tauto
    rw [insertInto_of_mem h hm]
    constructor
    · intro hok
      cases hc : o.combine s with
      | error e => rw [hc] at hok; cases hok
      | ok c =>
          rw [hc] at hok
          cases hok
          obtain ⟨hcm, hitems⟩ := combine_eq_ok_iff.mp hc
          exact replaced c hcm hitems
    · rintro ⟨sorted, same⟩
      obtain ⟨c, hcr, hcm, -⟩ := (same o.module .module).mpr ⟨o, by simp, rfl, trivial⟩
      have hitems : ∀ item, c.Has item ↔ o.Has item ∨ s.Has item := by
        intro item
        rw [has_iff_provides sorted hcr, same, provides_cons, hcm, ← has_iff_provides h ho, hm]
        tauto
      obtain ⟨sorted', same'⟩ := replaced c hcm hitems
      rw [combine_eq_ok_iff.mpr ⟨hcm, hitems⟩,
        sorted.eq_of_sameImports sorted' (same.trans same'.symm)]
      rfl
  · have new : ∀ o ∈ merged, o.module ≠ s.module := fun o ho hm => hmem ⟨o, ho, hm⟩
    obtain ⟨inserted, hr, sorted, members⟩ := exists_insertInto_of_not_mem h new
    have same : SameImports inserted (s :: merged) :=
      sameImports_of_mem_iff fun i => by rw [members, List.mem_cons]
    rw [hr, Except.ok.injEq]
    constructor
    · rintro rfl
      exact ⟨sorted, same⟩
    · rintro ⟨sorted', same'⟩
      exact sorted.eq_of_sameImports sorted' (same.trans same'.symm)

end Import

/-! ## Merging -/

/-- No module is given two default imports or two namespaces.  Nothing else keeps statements
from being merged. -/
structure Compatible (statements : List Import) : Prop where
  default : ∀ module first second, Provides statements module (.default first) →
    Provides statements module (.default second) → first = second
  wildcard : ∀ module first second, Provides statements module (.wildcard first) →
    Provides statements module (.wildcard second) → first = second

theorem Compatible.mono {first second : List Import} (h : Compatible second)
    (sub : ∀ module item, Provides first module item → Provides second module item) :
    Compatible first :=
  ⟨fun module _ _ ha hb => h.default module _ _ (sub _ _ ha) (sub _ _ hb),
    fun module _ _ ha hb => h.wildcard module _ _ (sub _ _ ha) (sub _ _ hb)⟩

/-- Statements that import names only do not get in the way of others. -/
theorem Compatible.append_named {first second : List Import}
    (named : ∀ i ∈ first, i.default = none ∧ i.wildcard = none) (h : Compatible second) :
    Compatible (first ++ second) := by
  have behind : ∀ {module : String} {item : Import.Item}, (∀ i ∈ first, ¬ i.Has item) →
      Provides (first ++ second) module item → Provides second module item := by
    intro module item lacks hp
    rcases provides_append.mp hp with ⟨i, hi, -, hitem⟩ | hp
    · exact absurd hitem (lacks i hi)
    · exact hp
  have noDefault : ∀ name, ∀ i ∈ first, ¬ i.Has (.default name) := by
    intro name i hi hitem
    have hitem : i.default = some name := hitem
    rw [(named i hi).1] at hitem
    cases hitem
  have noWildcard : ∀ name, ∀ i ∈ first, ¬ i.Has (.wildcard name) := by
    intro name i hi hitem
    have hitem : i.wildcard = some name := hitem
    rw [(named i hi).2] at hitem
    cases hitem
  exact ⟨fun module x y hx hy =>
      h.default module x y (behind (noDefault x) hx) (behind (noDefault y) hy),
    fun module x y hx hy =>
      h.wildcard module x y (behind (noWildcard x) hx) (behind (noWildcard y) hy)⟩

theorem Sorted.compatible {statements : List Import} (h : Sorted statements) :
    Compatible statements := by
  constructor
  · rintro m x y ⟨i, hi, him, hx⟩ ⟨j, hj, hjm, hy⟩
    rw [h.eq_of_module_eq hi hj (him.trans hjm.symm)] at hx
    exact Option.some.inj (hx.symm.trans hy)
  · rintro m x y ⟨i, hi, him, hx⟩ ⟨j, hj, hjm, hy⟩
    rw [h.eq_of_module_eq hi hj (him.trans hjm.symm)] at hx
    exact Option.some.inj (hx.symm.trans hy)

namespace Import

theorem exists_agree {f : String → String → EditError} {a b : Option String}
    (h : ∀ x y, a = some x → b = some y → x = y) : ∃ c, agree f a b = .ok c := by
  cases a with
  | none => cases b <;> exact ⟨_, rfl⟩
  | some x =>
      cases b with
      | none => exact ⟨_, rfl⟩
      | some y => exact ⟨_, by rw [agree, if_pos (h x y rfl rfl)]⟩

theorem exists_insertInto {merged : List Import} {s : Import} (h : Sorted merged)
    (compatible : Compatible (s :: merged)) : ∃ result, s.insertInto merged = .ok result := by
  by_cases hmem : ∃ o ∈ merged, o.module = s.module
  · obtain ⟨o, ho, hm⟩ := hmem
    have shared : ∀ item, o.Has item → Provides (s :: merged) s.module item :=
      fun item hitem => ⟨o, List.mem_cons_of_mem _ ho, hm, hitem⟩
    have own : ∀ item, s.Has item → Provides (s :: merged) s.module item :=
      fun item hitem => ⟨s, List.mem_cons_self, rfl, hitem⟩
    obtain ⟨d, hd⟩ := exists_agree (f := .conflictingDefaultImport s.module)
      (a := o.default) (b := s.default)
      fun x y hx hy => compatible.default s.module x y (shared (.default x) hx)
        (own (.default y) hy)
    obtain ⟨w, hw⟩ := exists_agree (f := .conflictingWildcardImport s.module)
      (a := o.wildcard) (b := s.wildcard)
      fun x y hx hy => compatible.wildcard s.module x y (shared (.wildcard x) hx)
        (own (.wildcard y) hy)
    obtain ⟨front, back, rfl⟩ := List.append_of_mem ho
    rw [insertInto_of_mem h hm, combine, hd, hw]
    exact ⟨_, rfl⟩
  · obtain ⟨result, hr, -, -⟩ :=
      exists_insertInto_of_not_mem h fun o ho hm => hmem ⟨o, ho, hm⟩
    exact ⟨result, hr⟩

end Import

theorem foldlM_insertInto_eq_ok_iff {statements merged result : List Import}
    (h : Sorted merged) :
    statements.foldlM (fun merged statement => statement.insertInto merged) merged
      = .ok result ↔
      Sorted result ∧ SameImports result (merged ++ statements) := by
  induction statements generalizing merged with
  | nil =>
      rw [List.foldlM_nil, List.append_nil]
      constructor
      · intro heq
        cases heq
        exact ⟨h, SameImports.refl _⟩
      · rintro ⟨sorted, same⟩
        rw [h.eq_of_sameImports sorted same.symm]
        rfl
  | cons s more ih =>
      -- The order in which statements are put in does not matter for what they import.
      have swap : SameImports (s :: merged ++ more) (merged ++ s :: more) := by
        refine sameImports_of_mem_iff fun i => ?_
        simp only [List.mem_append, List.mem_cons]
        tauto
      rw [List.foldlM_cons]
      constructor
      · intro hok
        cases hs : s.insertInto merged with
        | error e => rw [hs] at hok; cases hok
        | ok next =>
            rw [hs] at hok
            obtain ⟨sorted, same⟩ := (Import.insertInto_eq_ok_iff h).mp hs
            obtain ⟨sorted', same'⟩ := (ih sorted).mp hok
            exact ⟨sorted', (same'.trans (same.append (SameImports.refl _))).trans swap⟩
      · rintro ⟨sorted', same'⟩
        have compatible : Compatible (s :: merged) := sorted'.compatible.mono fun m item hp =>
          ((same'.trans swap.symm) m item).mpr (provides_append.mpr (.inl hp))
        obtain ⟨next, hs⟩ := Import.exists_insertInto h compatible
        obtain ⟨sorted, same⟩ := (Import.insertInto_eq_ok_iff h).mp hs
        rw [hs]
        exact (ih sorted).mpr ⟨sorted',
          (same'.trans swap.symm).trans (same.symm.append (SameImports.refl _))⟩

/-- **What merging gives**: the sorted list, one statement for each module, that imports the
same. -/
theorem mergeImports_eq_ok_iff {statements merged : List Import} :
    mergeImports statements = .ok merged ↔ Sorted merged ∧ SameImports merged statements :=
  foldlM_insertInto_eq_ok_iff List.Pairwise.nil

/-- Merging fails only on two default imports or two namespaces of one module. -/
theorem exists_mergeImports_iff {statements : List Import} :
    (∃ merged, mergeImports statements = .ok merged) ↔ Compatible statements := by
  constructor
  · rintro ⟨merged, h⟩
    obtain ⟨sorted, same⟩ := mergeImports_eq_ok_iff.mp h
    exact sorted.compatible.mono fun m item => (same m item).mpr
  · intro compatible
    induction statements using List.reverseRecOn with
    | nil => exact ⟨[], rfl⟩
    | append_singleton front s ih =>
        obtain ⟨merged, hm⟩ := ih (compatible.mono fun m item hp =>
          provides_append.mpr (.inl hp))
        obtain ⟨sorted, same⟩ := mergeImports_eq_ok_iff.mp hm
        have both : Compatible (s :: merged) := compatible.mono fun m item hp => by
          rw [provides_cons, same] at hp
          rw [provides_append, provides_cons]
          tauto
        obtain ⟨result, hr⟩ := Import.exists_insertInto sorted both
        refine ⟨result, ?_⟩
        rw [mergeImports] at hm ⊢
        rw [List.foldlM_append, hm]
        show (s.insertInto merged >>= fun merged => pure merged) = _
        rw [hr]
        rfl

end Attestation
