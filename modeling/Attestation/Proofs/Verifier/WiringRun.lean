import Attestation.Proofs.Verifier.FileNames
import Attestation.Proofs.Verifier.Wiring
import Mathlib.Data.List.Nodup
import Mathlib.Data.Set.Insert

/-!
# Wiring and unwiring many verifiers

Verifiers are wired into one app module, and taken out of it again, in any order.  At every
moment the module is what its hand-written text and the calls say: its import statements, the
entries of both arrays and the text around them (`exists_wireAll_reflects`).

## Main definitions

* `wired`: the verifiers that are in the module after some calls.
* `statementsAfter`, `entriesAfter`: what the module imports and lists then.
* `Separate`, `Wirable`: what is asked of the verifiers, and of the hand-written module.
* `Reflects`: what a module says after some calls.

## Design notes

A run is followed by one invariant: the text is parsed as the calls so far say
(`exists_parsed_wireAll`).  It is stated for all calls and not only for the verifiers that are
wired in the end, since a verifier that has been taken out may have removed statements for its
files that were written by hand.

The verifiers are a set of names and not of types and data sources, because wiring looks at
nothing else; that names made of different words are separate is a fact of its own
(`separate_of_pairwise`).
-/

namespace Attestation.Verifier

open Text ArrayLiteral ImportBlock

/-- One call after the other.  A call wires a verifier, or takes it out when its flag is
set. -/
def wireAll (here : Path) (o : Options) (calls : List (Names × Bool)) (content : List Char) :
    Except EditError (List Char) :=
  calls.foldlM (fun content call => wire here o call.1 call.2 content) content

theorem wireAll_concat {here : Path} {o : Options} {calls : List (Names × Bool)}
    {content text : List Char}
    (h : wireAll here o calls content = .ok text) (n : Names) (clear : Bool) :
    wireAll here o (calls ++ [(n, clear)]) content = wire here o n clear text := by
  have goesOn : ∀ f : List Char → Except EditError (List Char), (Except.ok text >>= f)
      = f text :=
    fun _ => rfl
  rw [wireAll, List.foldlM_append, ← wireAll, h, goesOn]
  simp only [List.foldlM_cons, List.foldlM_nil, bind_pure]

/-- The verifiers whose last call wires them, in the order of these calls. -/
def wired (calls : List (Names × Bool)) : List Names :=
  calls.foldl (fun names call => edit call.2 call.1 names) []

/-- A statement survives unless some call takes out a verifier with its file.  All calls count
and not only the last ones: a verifier that is taken out and wired again comes back with its
own statements, and the hand-written ones for its files stay away. -/
def survives (here : Path) (o : Options) (calls : List (Names × Bool)) (i : Import) : Bool :=
  calls.all fun call => !call.2 || (own here o call.1).all fun j => j.module ≠ i.module

/-- What a module with the given statements imports after some calls: the statements that
survive, and those of the wired verifiers.  The merge that wiring does is left out, so this is
compared to the text up to the items that are provided (`SameImports`). -/
def statementsAfter (here : Path) (o : Options) (statements : List Import)
    (calls : List (Names × Bool)) : List Import :=
  statements.filter (survives here o calls) ++ (wired calls).flatMap (own here o)

/-- What an array with the given entries lists after some calls, where `class` names the entry
of a verifier. -/
def entriesAfter (className : Names → String) (entries : List String)
    (calls : List (Names × Bool)) :
    List String :=
  entries.filter (fun e => calls.all fun call => className call.1 ≠ e)
    ++ (wired calls).map className

theorem wired_concat (calls : List (Names × Bool)) (n : Names) (clear : Bool) :
    wired (calls ++ [(n, clear)]) = edit clear n (wired calls) := by
  rw [wired, List.foldl_append]
  rfl

/-- The last call of a verifier decides whether it is wired. -/
theorem mem_wired_iff {calls : List (Names × Bool)} {n : Names} :
    n ∈ wired calls ↔ ∃ before after, calls = before ++ (n, false) :: after ∧
      ∀ call ∈ after, call.1 ≠ n := by
  induction calls using List.reverseRecOn with
  | nil => simp [wired]
  | append_singleton calls call ih =>
      obtain ⟨m, clear⟩ := call
      rw [wired_concat]
      -- The last call decides about its own verifier, and leaves the others as they are.
      by_cases same : m = n
      · subst same
        cases clear with
        | true =>
            have out : m ∉ edit true m (wired calls) := by simp [edit]
            refine ⟨fun h => absurd h out, ?_⟩
            rintro ⟨before, after, heq, hafter⟩
            rcases List.eq_nil_or_concat' after with rfl | ⟨after, last, rfl⟩
            · have := List.append_inj_right' heq rfl
              cases this
            · rw [← List.cons_append, ← List.append_assoc] at heq
              have hlast := List.append_inj_right' heq rfl
              rw [List.cons.injEq] at hlast
              exact absurd (by rw [← hlast.1]) (hafter last (by simp))
        | false =>
            refine ⟨fun _ => ⟨calls, [], rfl, by simp⟩, fun _ => by simp [edit]⟩
      · have other : n ∈ edit clear m (wired calls) ↔ n ∈ wired calls := by
          cases clear <;> simp [edit, Ne.symm same]
        rw [other, ih]
        constructor
        · rintro ⟨before, after, rfl, hafter⟩
          refine ⟨before, after ++ [(m, clear)], by simp, ?_⟩
          intro call hcall
          rcases List.mem_append.mp hcall with hcall | hcall
          · exact hafter call hcall
          · rw [List.mem_singleton.mp hcall]
            exact same
        · rintro ⟨before, after, heq, hafter⟩
          rcases List.eq_nil_or_concat' after with rfl | ⟨after, last, rfl⟩
          · have hlast := List.append_inj_right' heq rfl
            rw [List.cons.injEq, Prod.mk.injEq] at hlast
            exact absurd hlast.1.1 same
          · rw [← List.cons_append, ← List.append_assoc] at heq
            exact ⟨before, after, List.append_inj_left' heq rfl, fun call hcall =>
              hafter call (List.mem_append_left _ hcall)⟩

theorem nodup_wired (calls : List (Names × Bool)) : (wired calls).Nodup := by
  induction calls using List.reverseRecOn with
  | nil => exact List.nodup_nil
  | append_singleton calls call ih =>
      obtain ⟨n, clear⟩ := call
      rw [wired_concat]
      unfold edit
      split
      · exact ih.filter _
      · rw [List.nodup_append]
        refine ⟨ih.filter _, List.nodup_singleton n, ?_⟩
        intro m hm k hk
        rw [List.mem_singleton.mp hk]
        simpa using (List.mem_filter.mp hm).2

/-- A verifier that is not wired after its calls has been taken out. -/
theorem mem_wired_or_cleared {calls : List (Names × Bool)} {call : Names × Bool}
    (h : call ∈ calls) :
    call.1 ∈ wired calls ∨ (call.1, true) ∈ calls := by
  induction calls using List.reverseRecOn with
  | nil => cases h
  | append_singleton calls last ih =>
      obtain ⟨m, clear⟩ := last
      rw [wired_concat]
      by_cases same : call.1 = m
      · cases clear with
        | true => exact .inr (by simp [same])
        | false => exact .inl (by simp [edit, same])
      · have before : call ∈ calls := by
          rcases List.mem_append.mp h with h | h
          · exact h
          · exact absurd (by rw [List.mem_singleton.mp h]) same
        rcases ih before with hw | hw
        · exact .inl (by cases clear <;> simp [edit, same, hw])
        · exact .inr (List.mem_append_left _ hw)

/-- Verifiers whose names do not get in each other's way: no two of them share a class or a
file.  The converse happens, since names are put together without separators; for names made of
different words it does not (`separate_of_pairwise`). -/
structure Separate (here : Path) (o : Options) (V : Set Names) : Prop where
  controllers : ∀ n ∈ V, ∀ m ∈ V, n.controllerClass = m.controllerClass → n = m
  services : ∀ n ∈ V, ∀ m ∈ V, n.serviceClass = m.serviceClass → n = m
  modules : ∀ n ∈ V, ∀ m ∈ V, ∀ i ∈ own here o n, ∀ j ∈ own here o m, i.module = j.module →
  n = m

/-- Verifiers are separate when no two of them share a class or a file. -/
theorem separate_of_pairwise {here : Path} {o : Options} {words : List (String × String)}
    (alphanum : ∀ w ∈ words, IsAlphanum w.1 ∧ IsAlphanum w.2)
    (apart : words.Pairwise fun w w' => w.2 ++ w.1 ≠ w'.2 ++ w'.1 ∧
      ¬ SameFiles w.1 w.2 w'.1 w'.2) :
    Separate here o {n | ∃ w ∈ words, n = Names.make o w.1 w.2} := by
  have differ : ∀ w ∈ words, ∀ w' ∈ words, w ≠ w' →
      w.2 ++ w.1 ≠ w'.2 ++ w'.1 ∧ ¬ SameFiles w.1 w.2 w'.1 w'.2 := by
    have symmetric : Std.Symm fun w w' : String × String =>
        w.2 ++ w.1 ≠ w'.2 ++ w'.1 ∧ ¬ SameFiles w.1 w.2 w'.1 w'.2 :=
      ⟨fun _ _ h => ⟨h.1.symm, fun same => h.2 ⟨same.1.symm, same.2.symm⟩⟩⟩
    intro w hw w' hw'
    exact apart.forall hw hw'
  constructor
  · rintro _ ⟨w, hw, rfl⟩ _ ⟨w', hw', rfl⟩ classes
    by_contra other
    exact (differ w hw w' hw' fun same => other (same ▸ rfl)).1
      (controllerClass_eq_iff.mp classes)
  · rintro _ ⟨w, hw, rfl⟩ _ ⟨w', hw', rfl⟩ classes
    by_contra other
    exact (differ w hw w' hw' fun same => other (same ▸ rfl)).1
      (serviceClass_eq_iff.mp classes)
  · rintro _ ⟨w, hw, rfl⟩ _ ⟨w', hw', rfl⟩ i hi j hj modules
    by_contra other
    have files := (differ w hw w' hw' fun same => other (same ▸ rfl)).2
    exact own_module_ne (alphanum w hw).1 (alphanum w hw).2 (alphanum w' hw').1
      (alphanum w' hw').2 files hi hj modules

/-! ## One more call -/

section Call

variable {here : Path} {o : Options} {V : Set Names} {calls : List (Names × Bool)} {n : Names}

theorem mem_of_mem_wired (hcalls : ∀ call ∈ calls, call.1 ∈ V) : ∀ m ∈ wired calls, m ∈ V := by
  intro m hm
  obtain ⟨before, after, rfl, -⟩ := mem_wired_iff.mp hm
  exact hcalls (m, false) (by simp)

theorem entriesAfter_concat {className : Names → String} {entries : List String}
    (inj : ∀ m ∈ wired calls, className m = className n → m = n) (clear : Bool) :
    edit clear (className n) (entriesAfter className entries calls)
      = entriesAfter className entries (calls ++ [(n, clear)]) := by
  have kept : ((wired calls).map className).filter (fun e => e ≠ className n)
      = ((wired calls).filter fun m => m ≠ n).map className := by
    rw [List.filter_map]
    congr 1
    refine List.filter_congr ?_
    intro m hm
    have same : className m = className n ↔ m = n := ⟨inj m hm, fun h => by rw [h]⟩
    simp [same]
  have old : (entries.filter fun e => calls.all fun call => className call.1 ≠ e).filter
        (fun e => e ≠ className n)
      = entries.filter fun e => (calls ++ [(n, clear)]).all fun call => className call.1
        ≠ e := by
    rw [List.filter_filter]
    refine List.filter_congr ?_
    intro e _
    simp only [List.all_append, List.all_cons, List.all_nil, Bool.and_true]
    rw [Bool.and_comm]
    congr 1
    exact decide_eq_decide.mpr ne_comm
  rw [entriesAfter, entriesAfter, wired_concat, ← old]
  unfold edit
  cases clear with
  | true => simp only [if_true, List.filter_append, kept]
  | false =>
      simp only [Bool.false_eq_true, if_false, List.filter_append, kept, List.map_append,
        List.map_cons,
        List.map_nil, List.append_assoc]

/-- What is kept after one more call imports what the longer list of calls says. -/
theorem statementsAfter_concat (separate : Separate here o V)
    (hcalls : ∀ call ∈ calls, call.1 ∈ V)
    (hn : n ∈ V) {statements merged : List Import} (clear : Bool)
    (same : SameImports merged (own here o n ++ statementsAfter here o statements calls)) :
    SameImports (keep here o n clear merged)
      (statementsAfter here o statements (calls ++ [(n, clear)])) := by
  have survivors : ∀ i, survives here o (calls ++ [(n, clear)]) i
      = (survives here o calls i && (!clear || (own here o n).all fun j =>
        j.module ≠ i.module)) := by
    intro i
    simp [survives]
  cases clear with
  | false =>
      refine same.trans (sameImports_of_mem_iff fun i => ?_)
      simp only [statementsAfter, wired_concat, edit, survivors, Bool.not_false, Bool.true_or,
        Bool.and_true,
        Bool.false_eq_true, if_false, List.mem_append, List.flatMap_append, List.mem_flatMap,
        List.flatMap_cons, List.flatMap_nil, List.append_nil, List.mem_filter,
        decide_eq_true_eq]
      -- The statements of `n` are there on either side, so it does not matter whether `n` was
      -- wired before.
      constructor
      · rintro (h | h | ⟨m, hm, h⟩)
        · exact .inr (.inr h)
        · exact .inl h
        · by_cases hmn : m = n
          · exact .inr (.inr (hmn ▸ h))
          · exact .inr (.inl ⟨m, ⟨hm, hmn⟩, h⟩)
      · rintro (h | ⟨m, ⟨hm, -⟩, h⟩ | h)
        · exact .inr (.inl h)
        · exact .inr (.inr ⟨m, hm, h⟩)
        · exact .inl h
  | true =>
      rw [keep_true]
      have kept := same.filter fun module => (own here o n).all fun j => j.module ≠ module
      refine kept.trans (sameImports_of_mem_iff fun i => ?_)
      simp only [statementsAfter, wired_concat, edit, survivors, Bool.not_true,
        Bool.false_or, if_true,
        List.mem_append, List.mem_flatMap, List.mem_filter, List.all_eq_true, Bool.and_eq_true,
        decide_eq_true_eq]
      constructor
      · rintro ⟨h | h | ⟨m, hm, h⟩, apart⟩
        · exact absurd rfl (apart i h)
        · exact .inl ⟨h.1, h.2, apart⟩
        · refine .inr ⟨m, ⟨hm, ?_⟩, h⟩
          rintro rfl
          exact apart i h rfl
      · rintro (⟨h, hs, apart⟩ | ⟨m, ⟨hm, hne⟩, h⟩)
        · exact ⟨.inr (.inl ⟨h, hs⟩), apart⟩
        · refine ⟨.inr (.inr ⟨m, hm, h⟩), ?_⟩
          intro j hj hmodule
          exact hne (separate.modules m (mem_of_mem_wired hcalls m hm) n hn i h j hj
            hmodule.symm)

end Call

/-! ## Whole runs -/

/-- An app module that the verifiers `V` can be wired into: it can be read, it imports
something besides their files, and no module is imported in two ways that do not fit on one
line.  That something else is imported keeps the block from becoming empty, where it would be
read at another place. -/
structure Wirable (here : Path) (o : Options) (V : Set Names) (content : List Char)
    (controllers providers : ArrayLiteral) : Prop where
  regular : Regular content controllers providers
  other : ∃ i ∈ (ofText content).imports, ∀ n ∈ V, ∀ j ∈ own here o n, i.module ≠ j.module
  named : ∀ i ∈ (ofText content).imports, i.module ≠ ""
  alone : ∀ i ∈ (ofText content).imports, ∀ j ∈ (ofText content).imports, i.module = j.module →
    i.wildcard ≠ none → j.default = none ∧ j.named = NameSet.empty
  files : ∀ i ∈ (ofText content).imports, ∀ n ∈ V, ∀ j ∈ own here o n, i.module = j.module →
    i.wildcard = none
  succeeds : V.Nonempty → ∃ n ∈ V, ∃ clear d, wire here o n clear content = .ok d

namespace Wirable

variable {here : Path} {o : Options} {V : Set Names} {content : List Char}
  {controllers providers : ArrayLiteral} (h : Wirable here o V content controllers providers)
include h

section Parts

variable {statements : List Import}
  (parts : ∀ i ∈ statements, i ∈ (ofText content).imports ∨ ∃ n ∈ V, i ∈ own here o n)
include parts

theorem tame (plain : ∀ n ∈ V, Plain here o n) : Tame statements := by
  constructor
  · intro i hi
    rcases parts i hi with hi | ⟨n, hn, hi⟩
    · exact h.named i hi
    · exact (own_legible (plain n hn) i hi).1
  · intro i hi j hj hm hw
    rcases parts i hi with hi | ⟨n, hn, hi⟩
    · rcases parts j hj with hj | ⟨m, hmV, hj⟩
      · exact h.alone i hi j hj hm hw
      · exact absurd (h.files i hi m hmV j hj hm) hw
    · exact absurd (own_named hi).2 hw

/-- The files of verifiers are imported by names only, so they bring no conflict. -/
theorem compatible (hV : V.Nonempty) : Compatible statements := by
  obtain ⟨n, hn, clear, d, hd⟩ := h.succeeds hV
  obtain ⟨merged, hm⟩ := exists_merged_of_wire hd
  have found := exists_mergeImports_iff.mp ⟨merged, hm⟩
  -- Default imports and namespaces only come from the text.
  have fromText : ∀ item, (∀ n, ∀ i ∈ own here o n, ¬ i.Has item) → ∀ module,
      Provides statements module item →
        Provides (own here o n ++ (ofText content).imports) module item := by
    rintro item none_ module ⟨i, hi, him, hitem⟩
    rcases parts i hi with hi | ⟨m, -, hi⟩
    · exact ⟨i, List.mem_append_right _ hi, him, hitem⟩
    · exact absurd hitem (none_ m i hi)
  have noDefault : ∀ name n, ∀ i ∈ own here o n, ¬ i.Has (.default name) := by
    intro name n i hi hitem
    have hitem : i.default = some name := hitem
    rw [(own_named hi).1] at hitem
    cases hitem
  have noWildcard : ∀ name n, ∀ i ∈ own here o n, ¬ i.Has (.wildcard name) := by
    intro name n i hi hitem
    have hitem : i.wildcard = some name := hitem
    rw [(own_named hi).2] at hitem
    cases hitem
  constructor
  · intro module x y hx hy
    exact found.default module x y (fromText _ (noDefault x) module hx)
      (fromText _ (noDefault y) module hy)
  · intro module x y hx hy
    exact found.wildcard module x y (fromText _ (noWildcard x) module hx)
      (fromText _ (noWildcard y) module hy)

end Parts

section Run

variable {calls : List (Names × Bool)} (hcalls : ∀ call ∈ calls, call.1 ∈ V)
include hcalls

omit h in
/-- What one more call merges comes from the text or from a verifier. -/
theorem mem_or_mem_own {n : Names} (hn : n ∈ V) :
    ∀ i ∈ own here o n ++ statementsAfter here o (ofText content).imports calls,
      i ∈ (ofText content).imports ∨ ∃ m ∈ V, i ∈ own here o m := by
  intro i hi
  simp only [statementsAfter, List.mem_append, List.mem_filter, List.mem_flatMap] at hi
  rcases hi with hi | ⟨hi, -⟩ | ⟨m, hm, hi⟩
  · exact .inr ⟨n, hn, hi⟩
  · exact .inl hi
  · exact .inr ⟨m, mem_of_mem_wired hcalls m hm, hi⟩

/-- What else the text imports stays through all calls. -/
theorem exists_mem_statementsAfter :
    ∃ i, i ∈ statementsAfter here o (ofText content).imports calls := by
  obtain ⟨i, hi, apart⟩ := h.other
  refine ⟨i, List.mem_append_left _ (List.mem_filter.mpr ⟨hi, ?_⟩)⟩
  simp only [survives, List.all_eq_true, Bool.or_eq_true, decide_eq_true_eq]
  exact fun call hc => .inr fun j hj hmodule =>
    apart call.1 (hcalls call hc) j hj hmodule.symm

end Run

/-- **The invariant of a run**: every call succeeds, and the text is parsed as the calls say.
The induction adds a call at the end, so the layout `l` of the hand-written module stays fixed,
and one call is the step lemma of `Parsed`. -/
theorem exists_parsed_wireAll (separate : Separate here o V) (plain : ∀ n ∈ V, Plain here o n)
    {l : Layout}
    (parsed : Parsed content l (ofText content).imports controllers.entries providers.entries)
    (calls : List (Names × Bool)) (hcalls : ∀ call ∈ calls, call.1 ∈ V) :
    ∃ text imports, wireAll here o calls content = .ok text ∧
      Parsed text l imports (entriesAfter Names.controllerClass controllers.entries calls)
        (entriesAfter Names.serviceClass providers.entries calls) ∧
      SameImports imports (statementsAfter here o (ofText content).imports calls) ∧
      (calls ≠ [] → Sorted imports ∧
        text = l.text imports (entriesAfter Names.controllerClass controllers.entries calls)
          (entriesAfter Names.serviceClass providers.entries calls)) := by
  induction calls using List.reverseRecOn with
  | nil =>
      refine ⟨content, (ofText content).imports, rfl, ?_, ?_, fun hne => absurd rfl hne⟩
      · simpa [entriesAfter, wired] using parsed
      · have all : (ofText content).imports.filter (survives here o [])
            = (ofText content).imports :=
          List.filter_eq_self.mpr fun _ _ => rfl
        rw [statementsAfter, all, wired, List.foldl_nil, List.flatMap_nil, List.append_nil]
        exact SameImports.refl _
  | append_singleton calls call ih =>
      obtain ⟨n, clear⟩ := call
      have hn : n ∈ V := hcalls (n, clear) (by simp)
      have hcalls' : ∀ call ∈ calls, call.1 ∈ V :=
        fun call hc => hcalls call (List.mem_append_left _ hc)
      obtain ⟨text, imports, run, state, same, -⟩ := ih hcalls'
      have ofV : ∀ m ∈ wired calls, m ∈ V := mem_of_mem_wired hcalls'
      have parts : ∀ i ∈ own here o n ++ statementsAfter here o (ofText content).imports calls,
          i ∈ (ofText content).imports ∨ ∃ m ∈ V, i ∈ own here o m :=
        mem_or_mem_own hcalls' hn
      have joined : SameImports (own here o n ++ imports)
          (own here o n ++ statementsAfter here o (ofText content).imports calls) :=
        (SameImports.refl _).append same
      -- The statements can be merged, because those of the text can.
      obtain ⟨merged, hm⟩ : ∃ merged, mergeImports (own here o n ++ imports) = .ok merged :=
        exists_mergeImports_iff.mpr ((h.compatible parts ⟨n, hn⟩).mono fun module item =>
          (joined module item).mp)
      obtain ⟨sorted, sameMerged⟩ := mergeImports_eq_ok_iff.mp hm
      have after := statementsAfter_concat separate hcalls' hn clear (sameMerged.trans joined)
      have legible : ∀ i ∈ keep here o n clear merged, i.Legible := fun i hi =>
        (h.tame parts plain).legible (sameMerged.trans joined) i (mem_of_mem_keep hi)
      have hne : keep here o n clear merged ≠ [] := by
        obtain ⟨i, stays⟩ := h.exists_mem_statementsAfter hcalls
        obtain ⟨j, hj, -⟩ := (after i.module .module).mpr ⟨i, stays, rfl, trivial⟩
        exact List.ne_nil_of_mem hj
      have listed : edit clear n.controllerClass
            (entriesAfter Names.controllerClass controllers.entries calls)
          = entriesAfter Names.controllerClass controllers.entries (calls ++ [(n, clear)]) :=
        entriesAfter_concat (fun m hm' => separate.controllers m (ofV m hm') n hn) clear
      have provided : edit clear n.serviceClass
            (entriesAfter Names.serviceClass providers.entries calls)
          = entriesAfter Names.serviceClass providers.entries (calls ++ [(n, clear)]) :=
        entriesAfter_concat (fun m hm' => separate.services m (ofV m hm') n hn) clear
      have wires := state.wire clear (plain n hn) hm hne
      have next := state.next clear (plain n hn) hm hne legible
      rw [listed, provided] at wires next
      refine ⟨_, _, ?_, next, after, fun _ => ⟨?_, rfl⟩⟩
      · rw [wireAll_concat run]
        exact wires
      · exact sorted_keep sorted

end Wirable

/-! ## What a module says after some calls -/

theorem count_entriesAfter {className : Names → String} {entries : List String}
    {calls : List (Names × Bool)}
    (inj : ∀ n ∈ wired calls, ∀ m ∈ wired calls, className n = className m → n = m) {n : Names}
    (hn : n ∈ wired calls) : (entriesAfter className entries calls).count (className n)
      = 1 := by
  have old : (entries.filter fun e => calls.all fun call => className call.1 ≠ e).count
    (className n) = 0 := by
    refine List.count_eq_zero.mpr fun h => ?_
    obtain ⟨before, after, rfl, -⟩ := mem_wired_iff.mp hn
    have all := (List.mem_filter.mp h).2
    rw [List.all_eq_true] at all
    simpa using all (n, false) (by simp)
  have new : ((wired calls).map className).count (className n) = 1 :=
    List.count_eq_one_of_mem
      ((nodup_wired calls).map_on fun a ha b hb => inj a ha b hb) (List.mem_map_of_mem hn)
  rw [entriesAfter, List.count_append, old, new]

theorem not_mem_entriesAfter {className : Names → String} {entries : List String}
    {calls : List (Names × Bool)} {call : Names × Bool} (hcall : call ∈ calls)
    (inj : ∀ m ∈ wired calls, className m = className call.1 → m = call.1)
    (hn : call.1 ∉ wired calls) : className call.1 ∉ entriesAfter className entries calls := by
  intro h
  rcases List.mem_append.mp h with h | h
  · have all := (List.mem_filter.mp h).2
    rw [List.all_eq_true] at all
    simpa using all call hcall
  · obtain ⟨m, hm, heq⟩ := List.mem_map.mp h
    exact hn (inj m hm heq ▸ hm)

section Imported

variable {here : Path} {o : Options} {V : Set Names} {imports found : List Import}
  {calls : List (Names × Bool)}
  (same : SameImports imports (statementsAfter here o found calls))
include same

/-- Each file of a wired verifier is imported by one statement, with all names from it. -/
theorem exists_statement_of_mem_wired (sorted : Sorted imports) {n : Names}
    (hn : n ∈ wired calls) {i : Import} (hi : i ∈ own here o n) :
    ∃ s ∈ imports, s.module = i.module ∧ (∀ name ∈ i.named, name ∈ s.named) ∧
      ∀ s' ∈ imports, s'.module = i.module → s' = s := by
  have listed : i ∈ statementsAfter here o found calls :=
    List.mem_append_right _ (List.mem_flatMap.mpr ⟨n, hn, hi⟩)
  obtain ⟨s, hs, hm, -⟩ := (same i.module .module).mpr ⟨i, listed, rfl, trivial⟩
  refine ⟨s, hs, hm, fun name hname => ?_,
    fun s' hs' hm' => sorted.eq_of_module_eq hs' hs (hm'.trans hm.symm)⟩
  refine (has_iff_provides sorted hs (.named name)).mpr ?_
  rw [hm]
  exact (same i.module (.named name)).mpr ⟨i, listed, rfl, hname⟩

/-- No file of a verifier that has been taken out is imported. -/
theorem module_ne_of_not_mem_wired (separate : Separate here o V)
    (hcalls : ∀ call ∈ calls, call.1 ∈ V) {call : Names × Bool} (hcall : call ∈ calls)
    (hn : call.1 ∉ wired calls) {i s : Import} (hi : i ∈ own here o call.1)
    (hs : s ∈ imports) : s.module ≠ i.module := by
  intro hm
  obtain ⟨j, hj, hjm, -⟩ := (same s.module .module).mp ⟨s, hs, rfl, trivial⟩
  rcases List.mem_append.mp hj with hj | hj
  · -- A statement of the text for this file does not survive.
    have cleared := (mem_wired_or_cleared hcall).resolve_left hn
    have all := (List.mem_filter.mp hj).2
    simp only [survives, List.all_eq_true] at all
    have apart := all (call.1, true) cleared
    simp only [Bool.not_true, Bool.false_or, List.all_eq_true, decide_eq_true_eq] at apart
    exact apart i hi (hm.symm.trans hjm.symm)
  · obtain ⟨m, hmw, hj⟩ := List.mem_flatMap.mp hj
    have heq := separate.modules m (mem_of_mem_wired hcalls m hmw) call.1
      (hcalls call hcall) j hj i hi (hjm.trans hm)
    exact hn (heq ▸ hmw)

end Imported

/-- What the text `text` says, if it comes from the text `content` by some calls.  The fields
name everything that a reader of the module sees: what it imports, what both arrays list, and
the text around these. -/
structure Reflects (here : Path) (o : Options) (content : List Char)
    (controllers providers : ArrayLiteral)
    (calls : List (Names × Bool)) (text : List Char) : Prop where
  /-- It imports what is left of `content`, and the wired verifiers. -/
  imports : SameImports (ofText text).imports (statementsAfter here o (ofText content).imports
    calls)
  /-- The controllers are those of `content` and then those of the wired verifiers. -/
  listed : ∃ a, extract (.array "controllers") text = .ok a ∧
    a.entries = entriesAfter Names.controllerClass controllers.entries calls
  provided : ∃ a, extract (.array "providers") text = .ok a ∧
    a.entries = entriesAfter Names.serviceClass providers.entries calls
  /-- A wired verifier is listed once, and each of its files is imported by one statement. -/
  once : ∀ n ∈ wired calls,
    (entriesAfter Names.controllerClass controllers.entries calls).count n.controllerClass
      = 1 ∧
    (entriesAfter Names.serviceClass providers.entries calls).count n.serviceClass = 1 ∧
    ∀ i ∈ own here o n, ∃ s ∈ (ofText text).imports, s.module = i.module ∧
      (∀ name ∈ i.named, name ∈ s.named) ∧ ∀ s' ∈ (ofText text).imports, s'.module = i.module →
      s' = s
  /-- A verifier that has been taken out is not listed, and none of its files is imported. -/
  gone : ∀ call ∈ calls, call.1 ∉ wired calls →
    call.1.controllerClass ∉ entriesAfter Names.controllerClass controllers.entries calls ∧
    call.1.serviceClass ∉ entriesAfter Names.serviceClass providers.entries calls ∧
    ∀ i ∈ own here o call.1, ∀ s ∈ (ofText text).imports, s.module ≠ i.module
  /-- Nothing is changed around the import block and the arrays. -/
  around : calls ≠ [] → ∃ l : Layout, (ofText content).front = some l.front ∧
    (ofText content).back = l.back controllers.inner providers.inner ∧
    mergeImports (statementsAfter here o (ofText content).imports calls)
      = .ok (ofText text).imports ∧
    text = l.text (ofText text).imports
      (entriesAfter Names.controllerClass controllers.entries calls)
      (entriesAfter Names.serviceClass providers.entries calls)

theorem Parsed.imports_ne_nil {text : List Char} {l : Layout} {imports : List Import}
    {cs ps : List String} (h : Parsed text l imports cs ps) : imports ≠ [] := by
  rintro rfl
  have none_ : (ofText text).found = [] := List.map_eq_nil_iff.mp h.found
  have front := h.front
  rw [ImportBlock.front, none_] at front
  cases front

/-- The arrays of a text that has been put together are found again. -/
theorem Parsed.exists_extract {text : List Char} {l : Layout} {imports : List Import}
    {cs ps : List String} (h : Parsed text l imports cs ps) (hne : imports ≠ [])
    (heq : text = l.text imports cs ps) :
    (∃ a, extract (.array "controllers") text = .ok a ∧ a.entries = cs) ∧
      ∃ a, extract (.array "providers") text = .ok a ∧ a.entries = ps := by
  obtain ⟨x, y, -, holds⟩ := h.back
  have neutral := h.sound.neutral_block h.quiet hne
  obtain ⟨_, _, foundC, -⟩ :=
    Layout.exists_extract_controllers h.sound neutral holds.entries.holds
  obtain ⟨_, _, foundP, -⟩ :=
    Layout.exists_extract_providers h.sound neutral holds.entries.holds
  subst heq
  exact ⟨⟨_, foundC, rfl⟩, _, foundP, rfl⟩

/-- **Wiring over whole runs.**  Whatever calls are made for plain verifiers, in any order and
with repetitions, all of them succeed, and the module says what the calls say: the wired
verifiers are imported and listed once, those that have been taken out leave nothing behind,
and the hand-written rest is untouched. -/
theorem exists_wireAll_reflects {here : Path} {o : Options} {V : Set Names}
    {content : List Char}
    {controllers providers : ArrayLiteral} (paths : o.IsPlain)
    (words : ∀ n ∈ V, ∃ t d, IsAlphanum t ∧ IsAlphanum d ∧ n = Names.make o t d)
    (separate : Separate here o V) (h : Wirable here o V content controllers providers)
    (calls : List (Names × Bool)) (hcalls : ∀ call ∈ calls, call.1 ∈ V) :
    ∃ text, wireAll here o calls content = .ok text ∧
      Reflects here o content controllers providers calls text := by
  have plain : ∀ n ∈ V, Plain here o n := by
    intro n hn
    obtain ⟨t, d, ht, hd, rfl⟩ := words n hn
    exact plain_make here paths ht hd
  have imported : (ofText content).imports ≠ [] := by
    obtain ⟨i, hi, -⟩ := h.other
    exact List.ne_nil_of_mem hi
  obtain ⟨l, parsed, back⟩ := h.regular.exists_parsed imported
  obtain ⟨text, imports, run, state, same, shape⟩ :=
    h.exists_parsed_wireAll separate plain parsed calls hcalls
  have ofV : ∀ m ∈ wired calls, m ∈ V := mem_of_mem_wired hcalls
  obtain rfl : (ofText text).imports = imports := state.found
  have arrays : (∃ a, extract (.array "controllers") text = .ok a ∧
        a.entries = entriesAfter Names.controllerClass controllers.entries calls) ∧
      ∃ a, extract (.array "providers") text = .ok a ∧
        a.entries = entriesAfter Names.serviceClass providers.entries calls := by
    cases calls with
    | nil =>
        cases run
        exact ⟨⟨controllers, h.regular.hasControllers, by simp [entriesAfter, wired]⟩,
          providers, h.regular.hasProviders, by simp [entriesAfter, wired]⟩
    | cons call calls => exact state.exists_extract state.imports_ne_nil (shape (by simp)).2
  have injC : ∀ n ∈ wired calls, ∀ m ∈ V, n.controllerClass = m.controllerClass → n = m :=
    fun n hn => separate.controllers n (ofV n hn)
  have injS : ∀ n ∈ wired calls, ∀ m ∈ V, n.serviceClass = m.serviceClass → n = m :=
    fun n hn => separate.services n (ofV n hn)
  refine ⟨text, run, ⟨same, arrays.1, arrays.2, ?_, ?_, ?_⟩⟩
  · intro n hn
    refine ⟨count_entriesAfter (fun k hk m hm => injC k hk m (ofV m hm)) hn,
      count_entriesAfter (fun k hk m hm => injS k hk m (ofV m hm)) hn, ?_⟩
    obtain ⟨before, after, rfl, -⟩ := mem_wired_iff.mp hn
    exact fun i hi => exists_statement_of_mem_wired same (shape (by simp)).1 hn hi
  · intro call hcall hn
    refine ⟨not_mem_entriesAfter hcall (fun m hm => injC m hm call.1 (hcalls call hcall)) hn,
      not_mem_entriesAfter hcall (fun m hm => injS m hm call.1 (hcalls call hcall)) hn, ?_⟩
    exact fun i hi s hs =>
      module_ne_of_not_mem_wired same separate hcalls hcall hn hi hs
  · intro hne
    obtain ⟨sorted, heq⟩ := shape hne
    exact ⟨l, parsed.front, back, mergeImports_eq_ok_iff.mpr ⟨sorted, same⟩, heq⟩

section Merged

variable {here : Path} {o : Options} {n : Names} {content : List Char}
  {controllers providers : ArrayLiteral}
  {imports merged : List Import}

theorem merged_ne_nil (hm : mergeImports (own here o n ++ imports) = .ok merged) :
    merged ≠ [] := by
  obtain ⟨j, hj⟩ : ∃ j, j ∈ own here o n := ⟨_, List.mem_cons_self⟩
  obtain ⟨k, hk, -⟩ := ((mergeImports_eq_ok_iff.mp hm).2 j.module .module).mpr
    ⟨j, List.mem_append_left _ hj, rfl, trivial⟩
  exact List.ne_nil_of_mem hk

/-- A regular text can be wired when its own statements can be merged. -/
theorem exists_wire_of_merges (regular : Regular content controllers providers)
    (plain : Plain here o n)
    (hne : (ofText content).imports ≠ [])
    (merges : ∃ merged, mergeImports (ofText content).imports = .ok merged) :
    ∃ merged d, mergeImports (own here o n ++ (ofText content).imports) = .ok merged ∧
      wire here o n false content = .ok d := by
  obtain ⟨merged, hm⟩ := exists_mergeImports_iff.mpr
    (Compatible.append_named (fun _ => own_named) (exists_mergeImports_iff.mp merges))
  obtain ⟨l, parsed, -⟩ := regular.exists_parsed hne
  exact ⟨merged, _, hm, parsed.wire false plain hm
    (by rw [keep_false]; exact merged_ne_nil hm)⟩

end Merged

/-- A module that imports one package and has two empty arrays. -/
def smallModule : List Char :=
  "import \x7b X \x7d from 'x';\ncontrollers: [], providers: []".toList

theorem imports_smallModule : (ofText smallModule).imports = [Import.ofNames "x" ["X"]] := by
  decide +kernel

theorem regular_smallModule : Regular smallModule
    ⟨"import \x7b X \x7d from 'x';\ncontrollers: ".toList, [], ", providers: []".toList, []⟩
    ⟨"import \x7b X \x7d from 'x';\ncontrollers: [], providers: ".toList, [], [], []⟩ :=
  Regular.of_not_mem (by decide +kernel) (by decide +kernel) (by decide +kernel)
    (by decide +kernel)
    (by decide +kernel) (by decide +kernel)

/-- The types and data sources of two verifiers. -/
def smallWords : List (String × String) := [("Payment", "BTC"), ("Payment", "DOGE")]

/-- Both verifiers are wired, and the first one is taken out again. -/
def smallCalls : List (Names × Bool) :=
  [(Names.make .template "Payment" "BTC", false),
    (Names.make .template "Payment" "DOGE", false),
    (Names.make .template "Payment" "BTC", true)]

/-- Two verifiers are wired into the small module and the first one is taken out, which leaves
the second one in both arrays. -/
theorem wireAll_reflects_smallModule :
    ∃ text, wireAll ⟨"/"⟩ .template smallCalls smallModule = .ok text ∧
    wired smallCalls = [Names.make .template "Payment" "DOGE"] ∧
    Reflects ⟨"/"⟩ .template smallModule
      ⟨"import \x7b X \x7d from 'x';\ncontrollers: ".toList, [], ", providers: []".toList, []⟩
      ⟨"import \x7b X \x7d from 'x';\ncontrollers: [], providers: ".toList, [], [], []⟩
        smallCalls text := by
  have alphanum : ∀ w ∈ smallWords, IsAlphanum w.1 ∧ IsAlphanum w.2 := by
    simp [smallWords, isAlphanum_payment, isAlphanum_btc, isAlphanum_doge]
  have separate : Separate ⟨"/"⟩ .template {n | ∃ w ∈ smallWords,
    n = Names.make .template w.1 w.2} :=
    separate_of_pairwise alphanum (by decide +kernel)
  have single : ∀ i ∈ (ofText smallModule).imports, i = Import.ofNames "x" ["X"] := by
    rw [imports_smallModule]
    simp
  have wirable : Wirable ⟨"/"⟩ .template {n | ∃ w ∈ smallWords,
    n = Names.make .template w.1 w.2} smallModule _ _ := {
    regular := regular_smallModule
    other := by
      refine ⟨Import.ofNames "x" ["X"], by simp [imports_smallModule], fun n _ j hj hx => ?_⟩
      have dotted := own_relative hj
      rw [← hx] at dotted
      exact absurd dotted (by decide)
    named := fun i hi => by
      rw [single i hi]
      decide
    alone := fun i hi _ _ _ wild => by
      rw [single i hi] at wild
      exact absurd rfl wild
    files := fun i hi _ _ _ _ _ => by
      rw [single i hi]
      rfl
    succeeds := fun _ => by
      obtain ⟨-, d, -, first⟩ :=
        exists_wire_of_merges regular_smallModule (plain_template ⟨"/"⟩)
        (by simp [imports_smallModule]) (by rw [imports_smallModule]; exact ⟨_, rfl⟩)
      exact ⟨_, ⟨("Payment", "BTC"), by decide, rfl⟩, false, d, first⟩ }
  have named : ∀ n ∈ {n | ∃ w ∈ smallWords, n = Names.make .template w.1 w.2},
      ∃ t d, IsAlphanum t ∧ IsAlphanum d ∧ n = Names.make .template t d := by
    rintro n ⟨w, hw, same⟩
    exact ⟨w.1, w.2, (alphanum w hw).1, (alphanum w hw).2, same⟩
  have called : ∀ call ∈ smallCalls, call.1 ∈ {n | ∃ w ∈ smallWords,
    n = Names.make .template w.1 w.2} := by
    intro call hcall
    simp only [smallCalls, List.mem_cons, List.not_mem_nil, or_false] at hcall
    rcases hcall with rfl | rfl | rfl
    · exact ⟨("Payment", "BTC"), by decide, rfl⟩
    · exact ⟨("Payment", "DOGE"), by decide, rfl⟩
    · exact ⟨("Payment", "BTC"), by decide, rfl⟩
  obtain ⟨text, run, reflects⟩ :=
    exists_wireAll_reflects isPlain_template named separate wirable smallCalls called
  exact ⟨text, run, by decide +kernel, reflects⟩

end Attestation.Verifier
