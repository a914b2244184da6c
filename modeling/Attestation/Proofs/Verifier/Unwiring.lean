import Attestation.Proofs.Verifier.ArrayEdits
import Attestation.Proofs.Verifier.WiringTwice

/-!
# Wiring and unwiring

A verifier is wired into an app module and taken out again, over and over.  The import block is
written anew each time, and so are the arrays.  What is left of the text after a cycle depends
on the statements for other files: with such a statement the block stays, and a cycle leaves
nothing behind.  Without one the block vanishes, and when it is written in front of the text
the next time, a line break comes with it that no cycle takes away again (`wireAll_cycles`).

## Main definitions

* `cycles`: wiring and unwiring a number of times.
* `Clearable`: the app modules in question.
* `surplus`: the line breaks that are left after some cycles.

## Design notes

A cycle is described by the text without the verifier, and not by the text itself: the arrays
are normalised by the first edit, and only from then on a cycle can leave the text alone.
There is one lemma for a cycle with a block and one for a cycle without, and the number of line
breaks is counted by an induction over the cycles.
-/

namespace Attestation.Verifier

open Text ArrayLiteral ImportBlock

variable {here : Path} {o : Options} {n : Names} {clear : Bool} {content d e : List Char}
  {imports merged : List Import}

/-! ## Statements of other files -/

/-- Whether a statement imports another file than those of the verifier. -/
def isOther (here : Path) (o : Options) (n : Names) (i : Import) : Bool :=
  (own here o n).all fun j => j.module ≠ i.module

theorem keep_true_eq (here : Path) (o : Options) (n : Names) (statements : List Import) :
    keep here o n true statements = statements.filter (isOther here o n) :=
  keep_true here o n statements

/-- Clearing keeps what the other statements import. -/
theorem sameImports_keep_true (hm : mergeImports (own here o n ++ imports) = .ok merged) :
    SameImports (keep here o n true merged) (imports.filter (isOther here o n)) := by
  have nothing : (own here o n).filter (isOther here o n) = [] := by
    rw [List.filter_eq_nil_iff]
    intro j hj all
    exact absurd rfl (of_decide_eq_true (List.all_eq_true.mp all j hj))
  have same := (mergeImports_eq_ok_iff.mp hm).2.filter fun module =>
    (own here o n).all fun j => j.module ≠ module
  rw [keep_true_eq]
  refine same.trans ?_
  show SameImports ((own here o n ++ imports).filter (isOther here o n)) _
  rw [List.filter_append, nothing, List.nil_append]
  exact .refl _

/-- Sorted statements are what is kept of any others that import the same from other files. -/
theorem keep_true_eq_of_sameImports {kept : List Import} (sorted : Sorted kept)
    (hm : mergeImports (own here o n ++ imports) = .ok merged)
    (same : SameImports (imports.filter (isOther here o n)) kept) :
    keep here o n true merged = kept :=
  (sorted_keep (mergeImports_eq_ok_iff.mp hm).1).eq_of_sameImports sorted
  ((sameImports_keep_true hm).trans same)

theorem keep_true_ne_nil_iff (hm : mergeImports (own here o n ++ imports) = .ok merged) :
    keep here o n true merged ≠ [] ↔ imports.any (isOther here o n) = true := by
  have some_ : ∀ {l : List Import}, l ≠ [] ↔ ∃ module item, Provides l module item := by
    intro l
    constructor
    · intro hne
      obtain ⟨i, more, rfl⟩ := List.exists_cons_of_ne_nil hne
      exact ⟨i.module, .module, i, by simp, rfl, trivial⟩
    · rintro ⟨_, _, i, hi, -⟩
      exact List.ne_nil_of_mem hi
  rw [some_, List.any_eq_true]
  simp only [sameImports_keep_true hm _ _]
  rw [← some_]
  constructor
  · intro hne
    obtain ⟨i, hi⟩ := List.exists_mem_of_ne_nil _ hne
    exact ⟨i, List.mem_filter.mp hi⟩
  · rintro ⟨i, hi⟩
    exact List.ne_nil_of_mem (List.mem_filter.mpr hi)

/-! ## Statements that come back -/

/-- Statements that can be merged with those of the verifier, written and read back, and that
hold no anchor. -/
structure Fair (here : Path) (o : Options) (n : Names) (imports : List Import) : Prop where
  wellFormed : ∀ i ∈ imports, i.WellFormed
  tame : Tame (own here o n ++ imports)
  quiet : ∀ i ∈ imports, ∀ s ∈ i.parts, ∀ name ∈ arrayNames, ¬ Occurs name s.toList
  merges : ∃ merged, mergeImports (own here o n ++ imports) = .ok merged

theorem fair_nil (plain : Plain here o n) : Fair here o n [] := by
  refine ⟨by simp, ?_, by simp, ?_⟩
  · rw [List.append_nil]
    exact tame_of_wildcard_eq_none fun i hi => ⟨(own_legible plain i hi).1, (own_named hi).2⟩
  · have nothing : Sorted [] := List.Pairwise.nil
    exact exists_mergeImports_iff.mpr (Compatible.append_named (fun _ => own_named)
      nothing.compatible)

namespace Fair

variable (h : Fair here o n imports) (plain : Plain here o n)
  (hm : mergeImports (own here o n ++ imports) = .ok merged)
include h hm

theorem legible : ∀ i ∈ merged, i.Legible := h.tame.legible (mergeImports_eq_ok_iff.mp hm).2

include plain

/-- What is kept is fair again. -/
theorem keep (clear : Bool) : Fair here o n (keep here o n clear merged) := by
  obtain ⟨sorted, same⟩ := mergeImports_eq_ok_iff.mp hm
  refine ⟨wellFormed_keep plain hm h.wellFormed clear, ?_,
    quiet_keep plain hm h.quiet clear, ?_⟩
  · have all : SameImports (own here o n ++ merged) (own here o n ++ imports) := by
      intro module item
      rw [provides_append, same, provides_append]
      exact ⟨fun hp => hp.elim .inl id, .inr⟩
    refine (h.tame.of_sameImports all).of_subset fun i hi => ?_
    exact List.mem_append.mpr ((List.mem_append.mp hi).imp_right mem_of_mem_keep)
  · exact exists_mergeImports_iff.mpr
      (Compatible.append_named (fun _ => own_named) (sorted_keep sorted).compatible)

end Fair

/-- The lines that are written add no anchor. -/
theorem neutral_keep (plain : Plain here o n)
    (hm : mergeImports (own here o n ++ imports) = .ok merged)
    (quiet : ∀ i ∈ imports, ∀ s ∈ i.parts, ∀ name ∈ arrayNames, ¬ Occurs name s.toList)
    {front : List Char}
    (hf : ∀ name ∈ arrayNames, ¬ Occurs name front) {clear : Bool}
    (hne : keep here o n clear merged ≠ []) :
    ∀ name ∈ arrayNames, Neutral name (front ++ importLines (keep here o n clear merged)) :=
  fun name hname => neutral_lines hname (hf name hname)
    (fun i hi s hs => quiet_keep plain hm quiet clear i hi s hs name hname) hne

theorem neutral_merged (plain : Plain here o n)
    (hm : mergeImports (own here o n ++ imports) = .ok merged)
    (quiet : ∀ i ∈ imports, ∀ s ∈ i.parts, ∀ name ∈ arrayNames, ¬ Occurs name s.toList)
    {front : List Char}
    (hf : ∀ name ∈ arrayNames, ¬ Occurs name front) :
    ∀ name ∈ arrayNames, Neutral name (front ++ importLines merged) := by
  have lines := neutral_keep plain hm quiet hf (by rw [keep_false]; exact merged_ne_nil hm)
  rwa [keep_false] at lines

/-! ## One wiring -/

/-- Wiring a text with a block. -/
theorem wire_eq_ok_iff_of_front {front : List Char}
    (hfront : (ofText content).front = some front)
    (hm : mergeImports (own here o n ++ (ofText content).imports) = .ok merged)
    (neutral : ∀ name ∈ arrayNames,
      Neutral name (front ++ importLines (keep here o n clear merged))) :
    wire here o n clear content = .ok d ↔
    ∃ b, editArrays n clear (ofText content).back = .ok b ∧
      d = front ++ importLines (keep here o n clear merged) ++ b := by
  have imported : wire here o n clear content = editArrays n clear
      (front ++ importLines (keep here o n clear merged) ++ (ofText content).back) := by
    rw [wire_eq, wireImports_of_merged hm, ImportBlock.splice, hfront]
    rfl
  rw [imported, editArrays_append_eq_ok_iff neutral]

/-- Taking a verifier out of a text without a block. -/
theorem wire_true_of_none (hnone : ofText content = ⟨[], content⟩)
    (hm : mergeImports (own here o n) = .ok merged) :
    wire here o n true content = editArrays n true content := by
  have hm' : mergeImports (own here o n ++ (ofText content).imports) = .ok merged := by
    rw [hnone]
    exact hm
  rw [wire_eq, wireImports_of_merged hm', keep_true_of_nil hm, hnone]
  rfl

theorem neutral_ownLines (plain : Plain here o n)
    (hm : mergeImports (own here o n) = .ok merged) :
    ∀ name ∈ arrayNames, Neutral name (importLines merged ++ ['\n']) := by
  rw [← List.append_nil (own here o n)] at hm
  intro name hname
  have lines := neutral_merged plain hm (by simp) (fun _ _ => not_occurs_nil) name hname
  exact lines.append (neutral_newline hname)

/-- Wiring a text without a block. -/
theorem wire_false_of_none (plain : Plain here o n) (hnone : ofText content = ⟨[], content⟩)
    (hm : mergeImports (own here o n) = .ok merged) :
    wire here o n false content = .ok d ↔ ∃ b, editArrays n false content = .ok b ∧
      d = importLines merged ++ '\n' :: b := by
  have hm' : mergeImports (own here o n ++ []) = .ok merged := by rwa [List.append_nil]
  have imported : wire here o n false content
      = editArrays n false (importLines merged ++ ['\n'] ++ content) := by
    rw [wire_eq, wireImports_of_merged (by rw [hnone]; exact hm'), keep_false, hnone,
      splice_lines (merged_ne_nil hm')]
    simp
    rfl
  rw [imported, editArrays_append_eq_ok_iff (neutral_ownLines plain hm)]
  simp

/-! ## One cycle -/

section Cycle

variable {front b b₀ b₁ : List Char} {kept : List Import}

/-- The parts of a text without the verifier that has a block: the text in front, the
statements and the arrays, with the arrays that the verifier has been put into.  Nothing else
of the text matters for a cycle. -/
structure Parts (here : Path) (o : Options) (n : Names) (front : List Char)
    (kept : List Import)
    (b₀ b₁ : List Char) : Prop where
  calm : Calm front
  quiet : ∀ name ∈ arrayNames, ¬ Occurs name front
  neutral : ∀ name ∈ arrayNames, Neutral name (front ++ importLines kept)
  sorted : Sorted kept
  fair : Fair here o n kept
  other : kept.filter (isOther here o n) = kept
  peaceful : Peaceful b₀
  wired : editArrays n false b₀ = .ok b₁
  cleared : editArrays n true b₁ = .ok b₀

/-- A text that has these parts, but for the verifier. -/
structure HasParts (here : Path) (o : Options) (n : Names) (content front : List Char)
    (kept : List Import)
    (b₁ : List Char) : Prop where
  fair : Fair here o n (ofText content).imports
  front : (ofText content).front = some front
  same : SameImports ((ofText content).imports.filter (isOther here o n)) kept
  wired : editArrays n false (ofText content).back = .ok b₁

namespace Parts

variable (parts : Parts here o n front kept b₀ b₁) (plain : Plain here o n)
include parts plain

/-- **A cycle with a block** puts the parts together. -/
theorem exists_wire (h : HasParts here o n content front kept b₁) :
    ∃ d, wire here o n false content = .ok d ∧
      wire here o n true d = .ok (front ++ importLines kept ++ b₀) := by
  obtain ⟨merged, hm⟩ := h.fair.merges
  have nonempty := merged_ne_nil hm
  have next := h.fair.keep plain hm false
  rw [keep_false] at next
  have lines := neutral_merged plain hm h.fair.quiet parts.quiet
  rw [← keep_false here o n merged] at lines
  have first := (wire_eq_ok_iff_of_front h.front hm lines).mpr ⟨b₁, h.wired, rfl⟩
  rw [keep_false] at first
  refine ⟨_, first, ?_⟩
  -- The block is read back as it was written.
  have peaceful := peaceful_editArrays plain.controllerClass plain.serviceClass parts.peaceful
    parts.wired
  obtain ⟨found, front', back⟩ :=
    ofText_lines next.wellFormed (h.fair.legible hm) nonempty parts.calm
    (peaceful.silent (v := []) (by simp))
  obtain ⟨again, hm'⟩ := next.merges
  have keeps : keep here o n true again = kept := by
    refine keep_true_eq_of_sameImports parts.sorted hm' ?_
    rw [← keep_true_eq]
    exact (sameImports_keep_true hm).trans h.same
  refine (wire_eq_ok_iff_of_front front' (by rw [found]; exact hm')
    (by rw [keeps]; exact parts.neutral)).mpr
    ⟨b₀, by rw [back]; exact parts.cleared, by rw [keeps]⟩

omit plain in
/-- What a cycle makes has the parts that it was made of. -/
theorem hasParts (hne : kept ≠ []) :
    HasParts here o n (front ++ importLines kept ++ b₀) front kept b₁ := by
  have legible : ∀ i ∈ kept, i.Legible := fun i hi =>
    parts.fair.tame.legible (.refl _) i (List.mem_append_right _ hi)
  obtain ⟨found, front', back⟩ := ofText_lines parts.fair.wellFormed legible hne parts.calm
    (parts.peaceful.silent (v := []) (by simp))
  refine ⟨by rw [found]; exact parts.fair, front', ?_, by rw [back]; exact parts.wired⟩
  rw [found, parts.other]
  exact .refl _

end Parts

/-- Line breaks. -/
def breakLines (k : Nat) : List Char := List.replicate k '\n'

theorem neutral_breakLines {name : String} (hname : name ∈ arrayNames) (k : Nat) :
    Neutral name (breakLines k) := by
  induction k with
  | zero => exact neutral_nil name
  | succ k ih =>
      rw [breakLines, List.replicate_succ, ← List.singleton_append]
      exact (neutral_newline hname).append ih

theorem peaceful_breakLines (h : Peaceful b) (k : Nat) : Peaceful (breakLines k ++ b) := by
  induction k with
  | zero => exact h
  | succ k ih => exact ih.cons (by decide)

/-- **A cycle without a block** leaves a line break in front: the block is written with a line
break behind it, which stays when the block is taken away. -/
theorem exists_wire_of_none (plain : Plain here o n) (k : Nat) (peaceful : Peaceful b)
    (wired : editArrays n false b = .ok b₁) (cleared : editArrays n true b₁ = .ok b₀) :
    ∃ d, wire here o n false (breakLines k ++ b) = .ok d ∧
      wire here o n true d = .ok (breakLines (k + 1) ++ b₀) := by
  have fair : Fair here o n [] := fair_nil plain
  obtain ⟨merged, hm⟩ := fair.merges
  have hm' : mergeImports (own here o n) = .ok merged := by rwa [List.append_nil] at hm
  have nonempty := merged_ne_nil hm
  have hnone : ofText (breakLines k ++ b) = ⟨[], breakLines k ++ b⟩ :=
    ofText_of_silent ((peaceful_breakLines peaceful k).silent (by simp))
  have around : ∀ {clear c c' k}, editArrays n clear c = .ok c' →
      editArrays n clear (breakLines k ++ c) = .ok (breakLines k ++ c') := fun h =>
    (editArrays_append_eq_ok_iff fun _ hname => neutral_breakLines hname _).mpr ⟨_, h, rfl⟩
  have first := (wire_false_of_none plain hnone hm').mpr ⟨_, around wired, rfl⟩
  have text : importLines merged ++ '\n' :: (breakLines k ++ b₁)
      = [] ++ importLines merged ++ (breakLines (k + 1) ++ b₁) := rfl
  rw [text] at first
  refine ⟨_, first, ?_⟩
  -- The block that has just been put in front is read back, and it goes as a whole.
  have peaceful₁ : Peaceful b₁ :=
    peaceful_editArrays plain.controllerClass plain.serviceClass peaceful wired
  have next := fair.keep plain hm false
  rw [keep_false] at next
  obtain ⟨found, front', back⟩ := ofText_lines next.wellFormed (fair.legible hm) nonempty
    (fun _ _ part => absurd (List.infix_nil.mp part) (by simp) : Calm [])
    ((peaceful_breakLines peaceful₁ (k + 1)).silent (v := []) (by simp))
  obtain ⟨again, hagain⟩ := next.merges
  have keeps : keep here o n true again = [] := by
    refine keep_true_eq_of_sameImports List.Pairwise.nil hagain ?_
    rw [← keep_true_eq, keep_true_of_nil hm']
    exact .refl _
  refine (wire_eq_ok_iff_of_front front' (by rw [found]; exact hagain)
    (by rw [keeps]; exact fun name _ => neutral_nil name)).mpr
      ⟨_, by rw [back]; exact around cleared, ?_⟩
  rw [keeps]
  rfl

end Cycle

/-! ## Many cycles -/

/-- Wiring a verifier and taking it out again, a number of times. -/
def cycles (n : Names) (k : Nat) : List (Names × Bool) :=
  (List.replicate k [(n, false), (n, true)]).flatten

theorem cycles_succ (n : Names) (k : Nat) :
    cycles n (k + 1) = cycles n k ++ [(n, false)] ++ [(n, true)] := by
  simp [cycles, List.replicate_succ']

/-- A run of cycles from what each single one does. -/
theorem wireAll_cycles_of_step {text : Nat → List Char}
    (h : ∀ k, ∃ d, wire here o n false (text k) = .ok d ∧
      wire here o n true d = .ok (text (k + 1))) (k : Nat) :
    wireAll here o (cycles n k) (text 0) = .ok (text k) := by
  induction k with
  | zero => rfl
  | succ k ih =>
      obtain ⟨d, first, second⟩ := h k
      have wired := (wireAll_concat ih n false).trans first
      rw [cycles_succ, wireAll_concat wired]
      exact second

/-! ## Hand-written app modules -/

/-- An app module that a verifier can be taken out of.  It need not have been wired before, and
it may already hold the verifier or parts of it. -/
structure Clearable (here : Path) (o : Options) (n : Names) (content : List Char) : Prop where
  /-- Outside of the statements that are found, the word `import` does not stand in front of a
  clause. -/
  calm : (∀ p ∈ (ofText content).found, Calm p.before) ∧ Calm (ofText content).rest
  /-- The first anchors stand behind the import block. -/
  behind : ∀ name ∈ arrayNames, ∀ cut ∈ (Anchor.array name).cut content,
    (ofText content).found ≠ [] → (ofText content).upTo <+: cut.1
  named : ∀ i ∈ (ofText content).imports, i.module ≠ ""
  alone : ∀ i ∈ (ofText content).imports, ∀ j ∈ (ofText content).imports, i.module = j.module →
    i.wildcard ≠ none → j.default = none ∧ j.named = NameSet.empty
  files : ∀ i ∈ (ofText content).imports, isOther here o n i = false → i.wildcard = none
  /-- Where the block vanishes, no anchor and no statement comes about. -/
  seam : (ofText content).imports.any (isOther here o n) = false →
  ∀ front ∈ (ofText content).front,
    (∀ name ∈ arrayNames, Neutral name front) ∧ Calm (front ++ (ofText content).back)

/-- The first anchor of a text is not in a part in front of which it does not stand. -/
theorem not_occurs_of_cut {name : String} (hname : IsArrayName name) {u : List Char}
    (hu : u <+: content)
    (behind : ∀ cut ∈ (Anchor.array name).cut content, u <+: cut.1) : ¬ Occurs name u := by
  cases hm : firstMatch (Anchor.array name).recognise content with
  | none =>
      rintro ⟨w, hw, part⟩
      obtain ⟨f, t, rfl⟩ := part.trans hu.isInfix
      have missing := firstMatch_eq_none_iff.mp hm (w ++ '[' :: t) ⟨f, by simp⟩
      rw [recognise_eq_some_iff.mpr ⟨w, hw, rfl⟩] at missing
      cases missing
  | some found =>
      obtain ⟨front, rest⟩ := found
      obtain ⟨w, -, -, opens⟩ := opens_of_firstMatch hname.unbracketed hm
      have order : u <+: front :=
        behind (front, content.drop front.length) (by rw [Anchor.cut, hm]; rfl)
      exact fun ho => opens.first
        (ho.mono (order.isInfix.trans (List.prefix_append _ _).isInfix))

section Behind

variable (behind : ∀ name ∈ arrayNames, ∀ cut ∈ (Anchor.array name).cut content,
  (ofText content).found ≠ [] → (ofText content).upTo <+: cut.1)
include behind

/-- No anchor stands in the block or in front of it. -/
theorem not_occurs_upTo (hne : (ofText content).found ≠ []) :
    ∀ name ∈ arrayNames, ¬ Occurs name (ofText content).upTo := by
  intro name hname
  refine not_occurs_of_cut (isArrayName hname) ⟨(ofText content).back, ?_⟩ fun cut hcut =>
    behind name hname cut hcut hne
  rw [upTo_append_back, text_ofText]

theorem not_occurs_front : ∀ front ∈ (ofText content).front, ∀ name ∈ arrayNames,
    ¬ Occurs name front := by
  intro front hfront name hname ho
  obtain ⟨p, hp, rfl⟩ := Option.map_eq_some_iff.mp hfront
  have member := List.mem_of_mem_head? hp
  exact not_occurs_upTo behind (List.ne_nil_of_mem member) name hname
    (ho.mono (infix_upTo member).1)

theorem imports_quiet : ∀ i ∈ (ofText content).imports, ∀ s ∈ i.parts, ∀ name ∈ arrayNames,
    ¬ Occurs name s.toList := by
  intro i hi s hs name hname ho
  obtain ⟨p, hp, rfl⟩ := List.mem_map.mp hi
  have part := ((of_mem_found hp).2.2.1 s hs).trans (infix_upTo hp).2
  exact not_occurs_upTo behind (List.ne_nil_of_mem hp) name hname (ho.mono part)

end Behind

namespace Clearable

variable (h : Clearable here o n content)
include h

theorem fair (plain : Plain here o n)
    (hm : mergeImports (own here o n ++ (ofText content).imports) = .ok merged) :
    Fair here o n (ofText content).imports := by
  refine ⟨fun i => wellFormed_of_mem_imports, ⟨fun i hi => ?_, fun i hi j hj hij wild => ?_⟩,
    imports_quiet h.behind, merged, hm⟩
  · rcases List.mem_append.mp hi with hi | hi
    · exact (own_legible plain i hi).1
    · exact h.named i hi
  · rcases List.mem_append.mp hi with hi | hi
    · exact absurd (own_named hi).2 wild
    · rcases List.mem_append.mp hj with hj | hj
      · refine absurd (h.files i hi ?_) wild
        exact List.all_eq_false.mpr ⟨j, hj, by simp [hij]⟩
      · exact h.alone i hi j hj hij wild

end Clearable

/-- The line breaks in front of the text after one cycle and `k` more.  A block that vanishes
leaves one behind, and from then on each cycle adds one. -/
def surplus (here : Path) (o : Options) (n : Names) (imports : List Import) (k : Nat) : Nat :=
  if imports.any (isOther here o n) then 0 else if imports = [] then k + 1 else k

theorem surplus_eq_zero_iff (here : Path) (o : Options) (n : Names) (imports : List Import) :
    surplus here o n imports 0 = 0 ↔ imports ≠ [] := by
  unfold surplus
  split
  · next other => 
    refine iff_of_true rfl ?_
    rintro rfl
    cases other
  · split <;> simp_all

theorem forall_surplus_eq_zero_iff (here : Path) (o : Options) (n : Names)
    (imports : List Import) :
    (∀ k, surplus here o n imports k = 0) ↔ imports.any (isOther here o n) = true := by
  unfold surplus
  constructor
  · intro all
    by_contra other
    have one := all 1
    rw [if_neg other] at one
    split at one <;> cases one
  · intro other k
    rw [if_pos other]

/-- The text after some cycles. -/
def afterCycles (here : Path) (o : Options) (n : Names) (content e : List Char) : Nat →
    List Char
  | 0 => content
  | k + 1 => breakLines (surplus here o n (ofText content).imports k) ++ e

namespace Clearable

variable (h : Clearable here o n content) (plain : Plain here o n)
  (he : wire here o n true content = .ok e)
  (hd : wire here o n false content = .ok d)
include h plain he hd

/-- A text without a block. -/
theorem exists_wire_of_nil (himports : (ofText content).imports = []) (k : Nat) :
    ∃ d, wire here o n false (afterCycles here o n content e k) = .ok d ∧
      wire here o n true d = .ok (afterCycles here o n content e (k + 1)) := by
  have hnone : ofText content = ⟨[], content⟩ := ofText_of_imports_nil himports
  obtain ⟨merged, hm⟩ := exists_merged_of_wire he
  rw [himports, List.append_nil] at hm
  rw [wire_true_of_none hnone hm] at he
  obtain ⟨b, hb, -⟩ := (wire_false_of_none plain hnone hm).mp hd
  have cleared := editArrays_again plain.controllerClass plain.serviceClass he hb
  have wired := editArrays_again plain.controllerClass plain.serviceClass hb he
  have peaceful : Peaceful content := by
    have calm := h.calm.2
    rw [hnone] at calm
    exact calm.peaceful
  have breaks : ∀ k, surplus here o n (ofText content).imports k = k + 1 := fun k => by
    simp [surplus, himports]
  cases k with
  | zero =>
      rw [afterCycles, afterCycles, breaks]
      exact exists_wire_of_none plain 0 peaceful hb cleared
  | succ k =>
      rw [afterCycles, afterCycles, breaks, breaks]
      exact exists_wire_of_none plain (k + 1)
        (peaceful_editArrays plain.controllerClass plain.serviceClass peaceful he) wired
          cleared

/-- The parts of a text with a block. -/
theorem exists_parts (hne : (ofText content).imports ≠ []) : ∃ front kept b₀ b₁,
    Parts here o n front kept b₀ b₁ ∧ HasParts here o n content front kept b₁ ∧
      e = front ++ importLines kept ++ b₀ ∧ editArrays n true (ofText content).back = .ok b₀ ∧
      (kept ≠ [] ↔ (ofText content).imports.any (isOther here o n) = true) := by
  obtain ⟨merged, hm⟩ := exists_merged_of_wire he
  obtain ⟨p, more, hfound⟩ := List.exists_cons_of_ne_nil (l := (ofText content).found)
    fun hf => hne (by rw [ImportBlock.imports, hf, List.map_nil])
  have member : p ∈ (ofText content).found := by simp [hfound]
  have fair := h.fair plain hm
  have hfront : (ofText content).front = some p.before := by
    rw [ImportBlock.front, hfound]; rfl
  have quiet := not_occurs_front h.behind p.before hfront
  have nonempty := keep_true_ne_nil_iff hm
  have neutral : ∀ name ∈ arrayNames,
    Neutral name (p.before ++ importLines (keep here o n true merged)) := by
    by_cases hk : keep here o n true merged = []
    · rw [hk, show importLines [] = [] from rfl, List.append_nil]
      refine (h.seam ?_ p.before hfront).1
      cases ho : (ofText content).imports.any (isOther here o n) with
      | false => rfl
      | true => exact absurd hk (nonempty.mpr ho)
    · exact neutral_keep plain hm fair.quiet quiet hk
  obtain ⟨b₀, h₀, rfl⟩ := (wire_eq_ok_iff_of_front hfront hm neutral).mp he
  obtain ⟨b₁, h₁, -⟩ := (wire_eq_ok_iff_of_front hfront hm
    (by rw [keep_false]; exact neutral_merged plain hm fair.quiet quiet)).mp hd
  refine ⟨p.before, _, b₀, b₁, ⟨h.calm.1 p member, quiet, neutral, ?_, fair.keep plain hm true,
    ?_, ?_, ?_, ?_⟩,
    ⟨fair, hfront, (sameImports_keep_true hm).symm, h₁⟩, rfl, h₀, nonempty⟩
  · exact sorted_keep (mergeImports_eq_ok_iff.mp hm).1
  · simp [keep_true_eq, List.filter_filter]
  · exact peaceful_editArrays plain.controllerClass plain.serviceClass
      (h.calm.2.mono (back_infix_rest _)).peaceful h₀
  · exact editArrays_again plain.controllerClass plain.serviceClass h₁ h₀
  · exact editArrays_again plain.controllerClass plain.serviceClass h₀ h₁

/-- **What a cycle leaves behind.** -/
theorem exists_wire (k : Nat) :
    ∃ d, wire here o n false (afterCycles here o n content e k) = .ok d ∧
    wire here o n true d = .ok (afterCycles here o n content e (k + 1)) := by
  by_cases himports : (ofText content).imports = []
  · exact h.exists_wire_of_nil plain he hd himports k
  obtain ⟨front, kept, b₀, b₁, parts, has, rfl, cleared, nonempty⟩ :=
    h.exists_parts plain he hd himports
  cases ho : (ofText content).imports.any (isOther here o n) with
  | true =>
      -- Another import stays, so the block keeps its place and every cycle ends with the same
      -- text.
      have nothing : ∀ k, afterCycles here o n content (front ++ importLines kept ++ b₀)
        (k + 1)
          = front ++ importLines kept ++ b₀ := fun k => by
        simp [afterCycles, surplus, ho, breakLines]
      rw [nothing]
      cases k with
      | zero => exact parts.exists_wire plain has
      | succ k =>
          rw [nothing]
          exact parts.exists_wire plain (parts.hasParts (nonempty.mpr ho))
  | false =>
      -- Nothing is left to import, so the block is put in front again in every cycle and
      -- leaves one more line break.
      have vanishes : kept = [] := by
        by_contra hk
        rw [nonempty.mp hk] at ho
        cases ho
      subst vanishes
      have breaks : ∀ k, afterCycles here o n content (front ++ importLines [] ++ b₀) (k + 1)
          = breakLines k ++ (front ++ b₀) := fun k => by
        rw [afterCycles, surplus, if_neg (by simp [ho]), if_neg himports,
          show importLines [] = [] from rfl,
          List.append_nil]
      obtain ⟨neutral, calm⟩ := h.seam ho front has.front
      have around : ∀ {clear c c'}, editArrays n clear c = .ok c' →
          editArrays n clear (front ++ c) = .ok (front ++ c') := fun h =>
        (editArrays_append_eq_ok_iff neutral).mpr ⟨_, h, rfl⟩
      rw [breaks]
      cases k with
      | zero =>
          have cycle := parts.exists_wire plain has
          rwa [show importLines [] = [] from rfl, List.append_nil] at cycle
      | succ k =>
          rw [breaks]
          exact exists_wire_of_none plain k
            (peaceful_editArrays plain.controllerClass plain.serviceClass calm.peaceful
            (around cleared)) (around parts.wired) (around parts.cleared)

end Clearable

/-- **Wiring and unwiring.**  After any number of cycles the text is the one without the
verifier, but for line breaks in front of it.  One cycle leaves none of them exactly if the
text imports something, and no number of cycles leaves any exactly if it imports something from
another file than those of the verifier.  Entries and statements come back in all cases. -/
theorem wireAll_cycles (h : Clearable here o n content) (plain : Plain here o n)
    (he : wire here o n true content = .ok e) (hd : wire here o n false content = .ok d) :
    (∀ k, wireAll here o (cycles n (k + 1)) content
      = .ok (breakLines (surplus here o n (ofText content).imports k) ++ e)) ∧
    (wire here o n true d = .ok e ↔ (ofText content).imports ≠ []) ∧
    ((∀ k, wireAll here o (cycles n (k + 1)) content = .ok e) ↔
      (ofText content).imports.any (isOther here o n) = true) := by
  have run : ∀ k, wireAll here o (cycles n (k + 1)) content
      = .ok (breakLines (surplus here o n (ofText content).imports k) ++ e) := fun k =>
    wireAll_cycles_of_step (h.exists_wire plain he hd) (k + 1)
  have same : ∀ k, (.ok (breakLines k ++ e) : Except EditError (List Char)) = .ok e ↔
    k = 0 := by
    intro k
    simp [breakLines]
  refine ⟨run, ?_, ?_⟩
  · obtain ⟨d', hd', once⟩ := h.exists_wire plain he hd 0
    obtain rfl := Except.ok.inj (hd.symm.trans hd')
    rw [once, afterCycles, same, surplus_eq_zero_iff]
  · simp only [run, same, forall_surplus_eq_zero_iff]

/-- The small module imports a package, so it comes back unchanged however often a verifier is
wired and taken out. -/
theorem wireAll_cycles_smallModule : ∃ e d,
    wire ⟨"/"⟩ .template (Names.make .template "Payment" "BTC") true smallModule = .ok e ∧
    wire ⟨"/"⟩ .template (Names.make .template "Payment" "BTC") false smallModule = .ok d ∧
    wire ⟨"/"⟩ .template (Names.make .template "Payment" "BTC") true d = .ok e ∧
    ∀ k, wireAll ⟨"/"⟩ .template (cycles (Names.make .template "Payment" "BTC") (k + 1))
      smallModule = .ok e := by
  have plain := plain_template ⟨"/"⟩
  generalize Names.make .template "Payment" "BTC" = n at plain ⊢
  have imported : (ofText smallModule).imports ≠ [] := by simp [imports_smallModule]
  have other : (ofText smallModule).imports.any (isOther ⟨"/"⟩ .template n) = true := by
    rw [imports_smallModule, List.any_cons, Bool.or_eq_true]
    refine .inl (List.all_eq_true.mpr fun j hj => decide_eq_true fun same => ?_)
    exact absurd (same ▸ own_relative hj) (by decide)
  obtain ⟨merged, d, hm, hd⟩ := exists_wire_of_merges regular_smallModule plain imported
    (by rw [imports_smallModule]; exact ⟨_, rfl⟩)
  obtain ⟨l, parsed, -⟩ := regular_smallModule.exists_parsed imported
  have he := parsed.wire true plain hm ((keep_true_ne_nil_iff hm).mpr other)
  have clearable : Clearable ⟨"/"⟩ .template n smallModule := by
    refine ⟨regular_smallModule.calm, regular_smallModule.behind, ?_, ?_, ?_, ?_⟩
    · rw [imports_smallModule]
      decide
    · rw [imports_smallModule]
      decide
    · rw [imports_smallModule]
      simp [Import.ofNames]
    · intro none_
      rw [other] at none_
      cases none_
  obtain ⟨-, once, always⟩ := wireAll_cycles clearable plain he hd
  exact ⟨_, _, he, hd, once.mpr imported, always.mpr other⟩

/-- A module that imports nothing. -/
def bareModule : List Char := "controllers: [], providers: []".toList

theorem imports_bareModule : (ofText bareModule).imports = [] := by decide +kernel

/-- The arrays of a text without imports can be edited. -/
theorem Regular.exists_editArrays {controllers providers : ArrayLiteral}
    (regular : Regular content controllers providers) (plain : Plain here o n)
    (himports : (ofText content).imports = []) (clear : Bool) :
    ∃ b, editArrays n clear content = .ok b := by
  obtain ⟨-, l, sound, -, -, hback, holds, -, -⟩ := regular.exists_layout_of_nil himports
  have both := Layout.wireArrays (u := []) sound (fun name _ => neutral_nil name) holds
    plain.controllerClass
    n.serviceClass clear
  rw [List.nil_append, ← hback] at both
  exact ⟨_, both⟩

/-- **A line break that stays**: the block of a module without imports is written in front of
it and taken away again. -/
theorem exists_wire_true_ne : ∃ e d,
    wire ⟨"/"⟩ .template (Names.make .template "Payment" "BTC") true bareModule = .ok e ∧
    wire ⟨"/"⟩ .template (Names.make .template "Payment" "BTC") false bareModule = .ok d ∧
    wire ⟨"/"⟩ .template (Names.make .template "Payment" "BTC") true d ≠ .ok e := by
  have plain := plain_template ⟨"/"⟩
  generalize Names.make .template "Payment" "BTC" = n at plain ⊢
  obtain ⟨controllers, providers, regular⟩ :
    ∃ controllers providers, Regular bareModule controllers providers :=
    exists_regular_of_not_mem (by decide +kernel) (by decide +kernel) (by decide +kernel)
      (by decide +kernel)
  have hnone := ofText_of_imports_nil imports_bareModule
  have peaceful : Peaceful bareModule := by
    have calm := regular.calm.2
    rw [hnone] at calm
    exact calm.peaceful
  obtain ⟨e, he⟩ := regular.exists_editArrays plain imports_bareModule true
  obtain ⟨b, hb⟩ := regular.exists_editArrays plain imports_bareModule false
  obtain ⟨merged, hm⟩ := (fair_nil plain).merges
  rw [List.append_nil] at hm
  obtain ⟨d, hd, again⟩ := exists_wire_of_none plain 0 peaceful hb
    (editArrays_again plain.controllerClass plain.serviceClass he hb)
  refine ⟨e, d, (wire_true_of_none hnone hm).trans he, hd, ?_⟩
  rw [again]
  simp [breakLines]

end Attestation.Verifier
