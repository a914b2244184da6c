import Attestation.Proofs.Script.ImportLive
import Attestation.Proofs.Verifier.WiringTwice

/-!
# Which imports are live after wiring

Statements that are commented out are found like others, and all statements are written anew in
place of the block.  The first of them is written where the first one was found, so that it is
commented out when that one was, and the others are live whether they were or not
(`live_wire`).

## Main definitions

* `KeepsLive`: the statements of the verifier are live after wiring, and of the others those
  that were.

## Design notes

Whether a statement is live is told by the text in front of it on its line.  All lines but the
first start behind a line break that wiring has written; so everything depends on the text in
front of the block, and on which statement comes first in the order of the modules.  The exact
condition (`keepsLive_iff`) therefore speaks of the statements that are written behind no
comment, and not of those that were found.
-/

namespace Attestation.Verifier

open Text ImportBlock

variable {here : Path} {o : Options} {n : Names} {content d : List Char}
  {controllers providers : ArrayLiteral}
  {merged : List Import}

/-- The classes of a verifier are imported by live statements, and every other module that is
imported by one was so before.  A statement is live if no line comment starts in front of it on
its line. -/
structure KeepsLive (here : Path) (o : Options) (n : Names) (content d : List Char) :
    Prop where
  own : ∀ j ∈ own here o n, ∃ i ∈ live d, i.module = j.module ∧
    ∀ name ∈ j.named, name ∈ i.named
  others : ∀ i ∈ live d, (∀ j ∈ Verifier.own here o n, i.module ≠ j.module) →
  ∃ k ∈ live content, k.module = i.module

/-- The merged statements that are written behind no comment.  Only the first one can stand
behind a comment, where the block starts on a line with something in front. -/
def uncommented (content : List Char) (merged : List Import) : List Import :=
  if Commented (lastLine ((ofText content).front.getD [])) then merged.tail else merged

theorem mem_of_mem_uncommented {i : Import} (h : i ∈ uncommented content merged) :
    i ∈ merged := by
  unfold uncommented at h
  split at h
  · exact List.mem_of_mem_tail h
  · exact h

/-- The statements of a verifier and those of a module without namespaces. -/
theorem tame_append {statements : List Import} (plain : Plain here o n)
    (h : ∀ i ∈ statements, i.module ≠ "" ∧ i.wildcard = none) :
    Tame (own here o n ++ statements) := by
  refine tame_of_wildcard_eq_none fun i hi => ?_
  rcases List.mem_append.mp hi with hi | hi
  · exact ⟨(own_legible plain i hi).1, (own_named hi).2⟩
  · exact h i hi

section Wire

variable (regular : Regular content controllers providers) (plain : Plain here o n)
  (hm : mergeImports (own here o n ++ (ofText content).imports) = .ok merged)
  (settled : ∀ i ∈ merged, i.Legible ∨ i.Mute)
include regular plain hm settled

/-- What is live after wiring. -/
theorem live_wire (h : wire here o n false content = .ok d) :
    live d = (uncommented content merged).filter fun i => i.Legible := by
  have nonempty := merged_ne_nil hm
  rw [← keep_false here o n merged] at settled nonempty
  obtain ⟨l, cs, ps, wired, written, front⟩ :=
    exists_written false regular plain hm settled nonempty
  rw [keep_false] at wired written
  obtain rfl := Except.ok.inj (h.symm.trans wired)
  obtain ⟨i, more, rfl⟩ := List.exists_cons_of_ne_nil (merged_ne_nil hm)
  rw [Layout.text, live_lines written.readable written.calm.front
    (silent_back written.calm written.stillControllers written.stillProviders), front]
  rfl

/-- **Comments in front of imports.**  Wiring keeps to the comments exactly if the statements
of the verifier are among those that are written behind no comment, and every other module
among them has been imported by a live statement.  So it does when nothing is commented out.
Statements are read from the text with its comments, which is why a dead one is written
again. -/
theorem keepsLive_iff (h : wire here o n false content = .ok d) :
    (KeepsLive here o n content d ↔
      (∀ j ∈ own here o n, ∃ i ∈ uncommented content merged, i.Legible ∧ i.module = j.module) ∧
        ∀ i ∈ uncommented content merged, i.Legible →
        (∀ j ∈ own here o n, i.module ≠ j.module) →
          ∃ k ∈ live content, k.module = i.module) ∧
      (live content = (ofText content).imports →
        (∀ i ∈ merged, ∀ j ∈ own here o n, i.module = j.module → i.Legible) →
        KeepsLive here o n content d) := by
  have alive := live_wire regular plain hm settled h
  obtain ⟨sorted, same⟩ := mergeImports_eq_ok_iff.mp hm
  -- The statement for a file of the verifier imports what the verifier needs.
  have names : ∀ j ∈ own here o n, ∀ i ∈ merged, i.module = j.module →
    ∀ name ∈ j.named, name ∈ i.named := by
    intro j hj i hi hmodule name hname
    obtain ⟨k, hk, hkm, hkn⟩ :=
      (same j.module (.named name)).mpr ⟨j, List.mem_append_left _ hj, rfl, hname⟩
    rwa [sorted.eq_of_module_eq hi hk (hmodule.trans hkm.symm)]
  have iff_ : KeepsLive here o n content d ↔
      (∀ j ∈ own here o n, ∃ i ∈ uncommented content merged, i.Legible ∧ i.module = j.module) ∧
        ∀ i ∈ uncommented content merged, i.Legible →
        (∀ j ∈ own here o n, i.module ≠ j.module) →
          ∃ k ∈ live content, k.module = i.module := by
    constructor
    · rintro ⟨own, others⟩
      rw [alive] at own others
      refine ⟨fun j hj => ?_, fun i hi legible =>
        others i (List.mem_filter.mpr ⟨hi, by simpa using legible⟩)⟩
      obtain ⟨i, hi, hmodule, -⟩ := own j hj
      obtain ⟨hi, legible⟩ := List.mem_filter.mp hi
      exact ⟨i, hi, by simpa using legible, hmodule⟩
    · rintro ⟨own, others⟩
      constructor <;> rw [alive]
      · intro j hj
        obtain ⟨i, hi, legible, hmodule⟩ := own j hj
        exact ⟨i, List.mem_filter.mpr ⟨hi, by simpa using legible⟩, hmodule,
          names j hj i (mem_of_mem_uncommented hi) hmodule⟩
      · intro i hi apart
        obtain ⟨hi, legible⟩ := List.mem_filter.mp hi
        exact others i hi (by simpa using legible) apart
  refine ⟨iff_, fun nothing legible => iff_.mpr ?_⟩
  have all : uncommented content merged = merged := by
    unfold uncommented
    refine if_neg ?_
    cases hf : (ofText content).front with
    | none => exact not_commented_nil
    | some front => exact not_commented_front nothing front hf
  rw [all]
  constructor
  · intro j hj
    obtain ⟨i, hi, hmodule, -⟩ :=
      (same j.module .module).mpr ⟨j, List.mem_append_left _ hj, rfl, trivial⟩
    exact ⟨i, hi, legible i hi j hj hmodule, hmodule⟩
  · intro i hi _ apart
    obtain ⟨j, hj, hmodule, -⟩ := (same i.module .module).mp ⟨i, hi, rfl, trivial⟩
    rcases List.mem_append.mp hj with hj | hj
    · exact absurd hmodule.symm (apart j hj)
    · exact ⟨j, nothing ▸ hj, hmodule⟩

end Wire

/-- Nothing is commented out in the small module, so that the imports of the verifier are
live. -/
theorem keepsLive_smallModule : ∃ d,
    wire ⟨"/"⟩ .template (Names.make .template "Payment" "BTC") false smallModule = .ok d ∧
      KeepsLive ⟨"/"⟩ .template (Names.make .template "Payment" "BTC") smallModule d := by
  have plain := plain_template ⟨"/"⟩
  generalize Names.make .template "Payment" "BTC" = n at plain ⊢
  obtain ⟨merged, d, hm, run⟩ := exists_wire_of_merges regular_smallModule plain
    (by simp [imports_smallModule]) (by rw [imports_smallModule]; exact ⟨_, rfl⟩)
  have tame : Tame (own ⟨"/"⟩ .template n ++ (ofText smallModule).imports) := by
    refine tame_append plain ?_
    rw [imports_smallModule]
    decide
  have legible := tame.legible (mergeImports_eq_ok_iff.mp hm).2
  refine ⟨d, run, (keepsLive_iff regular_smallModule plain hm (fun i hi => .inl (legible i hi))
    run).2 ?_ ?_⟩
  · decide +kernel
  · exact fun i hi _ _ _ => legible i hi

/-- A module that has one of its imports commented out. -/
def commentedOut : List Char :=
  "// import A from 'a';\n".toList ++ "import B from 'b';\n".toList
    ++ "controllers: [], ".toList ++ "providers: []".toList

theorem imports_commentedOut : (ofText commentedOut).imports
    = [⟨some "A", .empty, none, "a"⟩, ⟨some "B", .empty, none, "b"⟩] := by
  decide +kernel

theorem front_commentedOut : (ofText commentedOut).front = some "// ".toList := by
  decide +kernel

theorem live_commentedOut : live commentedOut = [⟨some "B", .empty, none, "b"⟩] := by
  decide +kernel

theorem exists_regular_commentedOut :
    ∃ controllers providers, Regular commentedOut controllers providers :=
  exists_regular_of_not_mem (by decide +kernel) (by decide +kernel) (by decide +kernel)
    (by decide +kernel)

/-- **An import that comes alive.**  The comment in front of it is left to the import of the
controller, which is written first and so is dead, while the import that was commented out has
a line of its own. -/
theorem exists_wire_not_keepsLive : ∃ d,
    wire ⟨"/"⟩ .template (Names.make .template "Payment" "BTC") false commentedOut = .ok d ∧
      (∃ i ∈ live d, i.module = "a") ∧ (∀ i ∈ live commentedOut, i.module ≠ "a") ∧
      ¬ KeepsLive ⟨"/"⟩ .template (Names.make .template "Payment" "BTC") commentedOut d := by
  have plain := plain_template ⟨"/"⟩
  generalize Names.make .template "Payment" "BTC" = n at plain ⊢
  obtain ⟨controllers, providers, regular⟩ := exists_regular_commentedOut
  obtain ⟨merged, d, hm, run⟩ := exists_wire_of_merges regular plain
    (by simp [imports_commentedOut]) (by rw [imports_commentedOut]; exact ⟨_, rfl⟩)
  obtain ⟨sorted, same⟩ := mergeImports_eq_ok_iff.mp hm
  have tame : Tame (own ⟨"/"⟩ .template n ++ (ofText commentedOut).imports) := by
    refine tame_append plain ?_
    rw [imports_commentedOut]
    decide
  have legible := tame.legible same
  have alive := live_wire regular plain hm (fun i hi => .inl (legible i hi)) run
  have dead : ∀ i ∈ live commentedOut, i.module ≠ "a" := by
    rw [live_commentedOut]
    decide
  have foreign : ∀ j ∈ own ⟨"/"⟩ .template n, "a" ≠ j.module := by
    intro j hj hmodule
    have dotted := own_relative hj
    rw [← hmodule] at dotted
    exact absurd dotted (by decide)
  obtain ⟨a, ha, ham, -⟩ := (same "a" .module).mpr
    ⟨⟨some "A", .empty, none, "a"⟩, by simp [imports_commentedOut], rfl, trivial⟩
  -- The statements of the verifier have paths, which come before packages.
  have behind : a ∈ merged.tail := by
    obtain ⟨j, hj⟩ : ∃ j, j ∈ own ⟨"/"⟩ .template n := ⟨_, List.mem_cons_self⟩
    obtain ⟨k, hk, hkj, -⟩ :=
      (same j.module .module).mpr ⟨j, List.mem_append_left _ hj, rfl, trivial⟩
    have path : k.isPath = true := by simp [Import.isPath, hkj, own_relative hj]
    have package : a.isPath = false := by
      rw [Import.isPath, ham]
      decide
    obtain ⟨first, more, rfl⟩ := List.exists_cons_of_ne_nil (List.ne_nil_of_mem ha)
    rcases List.mem_cons.mp ha with rfl | ha
    · rcases List.mem_cons.mp hk with rfl | hk
      · rw [path] at package
        cases package
      · have order := List.rel_of_pairwise_cons sorted hk
        rw [Import.before, path, package] at order
        cases order
    · exact ha
  have comment : uncommented commentedOut merged = merged.tail := by
    rw [uncommented, front_commentedOut]
    exact if_pos (by decide)
  have revived : a ∈ live d := by
    rw [alive, comment]
    exact List.mem_filter.mpr ⟨behind, by simpa using legible a ha⟩
  refine ⟨d, run, ⟨a, revived, ham⟩, dead, fun kept => ?_⟩
  obtain ⟨k, hk, hkm⟩ := kept.others a revived fun j hj => by
    rw [ham]
    exact foreign j hj
  exact dead k hk (hkm.trans ham)

end Attestation.Verifier
