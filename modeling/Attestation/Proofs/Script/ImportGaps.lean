import Attestation.Proofs.Script.ImportScan
import Attestation.Proofs.Script.ImportSeam

/-!
# The text between statements

* `ImportBlock.between`: the texts between consecutive statements of a text.
* `ImportBlock.SameAround`: the same statements with the same text in front and behind.
* `ImportBlock.refill`: the text with another gap between its statements.

The statements of a text are found again when its gaps are replaced (`ofText_refill`).

## Design notes

The block of a text is replaced as a whole, with everything in its gaps.  To show that a text
between two statements is lost, the gaps are exchanged for others and the same statements are
found again, so that both texts must have the same result.  A gap may be anything that starts no
statement and ends the one before it.
-/

namespace Attestation.ImportBlock

open Text

/-! ## Between statements -/

/-- The text without a semicolon in front. -/
def behindSemicolon : List Char → List Char
  | ';' :: rest => rest
  | rest => rest

/-- The texts between consecutive statements, each behind the semicolon of the first. -/
def between (b : ImportBlock) : List (List Char) :=
  b.found.tail.map fun p => behindSemicolon p.before

/-- The text with the same gap between any two statements. -/
def refill (b : ImportBlock) (gap : List Char) : List Char :=
  match b.found with
  | [] => b.rest
  | p :: more => p.before ++ (p.source ++ (more.flatMap (fun p => gap ++ p.source) ++ b.rest))

/-- The same statements, and the same text in front of them and behind.  What stands between
them may differ. -/
structure SameAround (b b' : ImportBlock) : Prop where
  front : b.front = b'.front
  imports : b.imports = b'.imports
  rest : b.rest = b'.rest

theorem SameAround.splice_eq {b b' : ImportBlock} (h : SameAround b b') (lines : List Char) :
    b.splice lines = b'.splice lines := by
  rw [splice, splice, back, back, h.front, h.rest]

theorem SameAround.length_between {b b' : ImportBlock} (h : SameAround b b') :
    b.between.length = b'.between.length := by
  have same := congrArg List.length h.imports
  simp only [ImportBlock.imports, List.length_map] at same
  simp only [between, List.length_map, List.length_tail, same]

section Refill

variable {gap : List Char} (breaks : ∀ v, Breaks (gap ++ 'i' :: v)) (quiet : 'i' ∉ gap)
include breaks quiet

/-- The block of a text is found again when its gaps are replaced. -/
theorem ofText_sources (cs : List Char) : ∀ p more, (ofText cs).found = p :: more →
    ofText (p.source ++ (more.flatMap (fun p => gap ++ p.source) ++ (ofText cs).rest))
        = ⟨{ p with before := [] } :: more.map ({ · with before := gap }), (ofText cs).rest⟩ ∧
      Silent p.before (p.source ++ (more.flatMap (fun p => gap ++ p.source)
        ++ (ofText cs).rest)) ∧
      ∃ v, p.source = 'i' :: v := by
  refine @ofText_induction (fun _ b => ∀ p more, b.found = p :: more →
    ofText (p.source ++ (more.flatMap (fun p => gap ++ p.source) ++ b.rest))
        = ⟨{ p with before := [] } :: more.map ({ · with before := gap }), b.rest⟩ ∧
      Silent p.before (p.source ++ (more.flatMap (fun p => gap ++ p.source) ++ b.rest)) ∧
      ∃ v, p.source = 'i' :: v) ?_ ?_ cs
  · intro cs _ p more found
    cases found
  · intro before source rest i read first ih p more found
    obtain ⟨rfl, rfl⟩ := List.cons.inj found
    obtain ⟨own, quoted⟩ := recognise_source read
    have start : ∃ v, source = 'i' :: v := by
      obtain ⟨source', -, -, text, -, -, -, -, c, r, rfl, -⟩ := eq_append_of_recognise read
      exact ⟨_, List.append_cancel_right text⟩
    have silent : Silent before (source ++ rest) := by
      rw [List.append_assoc] at first
      obtain ⟨behind, text, -, silent⟩ := eq_append_of_firstMatch first
      obtain rfl := List.append_cancel_left text
      exact silent
    -- What stands behind the first statement is either the rest of the text or the new gap.
    have behind : ∀ tail, (∀ w, Quoted w → recognise (w ++ rest) = none →
      recognise (w ++ tail) = none) →
        recognise (source ++ tail) = some (i, tail) →
        ofText (source ++ tail) = ⟨⟨[], source, i⟩ :: (ofText tail).found,
          (ofText tail).rest⟩ ∧
          Silent before (source ++ tail) := by
      intro tail none_ some_
      refine ⟨@ofText_of_some [] source tail i (firstMatch_of_recognise some_), fun s hne hs =>
        ?_⟩
      have nothing := silent s hne hs
      rw [← List.append_assoc] at nothing ⊢
      exact none_ _ quoted.append nothing
    cases hmore : (ofText rest).found with
    | nil =>
        have whole : (ofText rest).rest = rest := by
          have text := text_ofText rest
          simpa only [text, ImportBlock.text, hmore, List.flatMap_nil,
            List.nil_append] using text
        obtain ⟨block, silent⟩ := behind rest (fun _ _ h => h) read
        rw [List.flatMap_nil, List.nil_append, whole]
        refine ⟨?_, silent, start⟩
        rw [block, hmore, whole]
        rfl
    | cons p' more' =>
        obtain ⟨again, -, v, hv⟩ := ih p' more' hmore
        have seam : Breaks (gap ++ (p'.source ++ (more'.flatMap (fun p => gap ++ p.source)
            ++ (ofText rest).rest))) := by
          rw [hv]
          exact breaks _
        have next : ofText (gap ++
          (p'.source ++ (more'.flatMap (fun p => gap ++ p.source) ++ (ofText rest).rest)))
            = ⟨(p' :: more').map ({ · with before := gap }), (ofText rest).rest⟩ := by
          rw [ofText_append (silent_of_not_mem quiet _), again]
          simp [prepend]
        obtain ⟨block, silent⟩ := behind _ (fun w hw h => by
          rw [hw.recognise_append seam, recognise_eq_none_of_append h]
          rfl) (by
          rw [quoted.recognise_append seam, own]
          rfl)
        rw [List.flatMap_cons, List.append_assoc, List.append_assoc]
        refine ⟨?_, silent, start⟩
        rw [block, next]

theorem ofText_refill {cs : List Char} {p : PlacedImport} {more : List PlacedImport}
    (h : (ofText cs).found = p :: more) :
    ofText ((ofText cs).refill gap) = ⟨p :: more.map ({ · with before := gap }),
      (ofText cs).rest⟩ := by
  obtain ⟨block, silent, -⟩ := ofText_sources breaks quiet cs p more h
  rw [refill, h]
  simp only
  rw [ofText_append silent, block]
  simp [prepend]

theorem sameAround_refill (cs : List Char) (hne : (ofText cs).found ≠ []) :
    SameAround (ofText cs) (ofText ((ofText cs).refill gap)) := by
  obtain ⟨p, more, found⟩ := List.exists_cons_of_ne_nil hne
  have block := ofText_refill breaks quiet found
  constructor
  · rw [block, front, front, found]
    rfl
  · rw [block, imports, imports, found]
    simp
  · rw [block]

end Refill

end Attestation.ImportBlock
