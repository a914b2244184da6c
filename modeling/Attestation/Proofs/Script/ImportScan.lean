import Attestation.Proofs.Script.ImportLegible

/-!
# The statements of a text

`ImportBlock.ofText` looks for statements from left to right.  It never runs out of steps, so
it is described by what happens at the first match (`ofText_of_none`, `ofText_of_some`), and
statements about it go by induction along the matches (`ofText_induction`).

## Design notes

What a text says about its block is kept apart from where the text comes from: a silent text in
front only moves the block (`ofText_append`).  Silence has to be asked relative to what
follows, because a match can begin in the one and end in the other; for texts without the
letter that a statement starts with it is absolute.
-/

namespace Attestation.ImportBlock

open Text

/-! ## One match after the other -/

/-- A match takes the text of a statement. -/
theorem source_of_recognise {cs rest : List Char} {i : Import}
    (h : recognise cs = some (i, rest)) :
    ∃ source, cs = source ++ rest ∧ source ≠ [] := by
  obtain ⟨source, _, _, rfl, -, -, -, -, c, r, rfl, -⟩ := eq_append_of_recognise h
  exact ⟨_, rfl, by simp⟩

theorem firstMatch_rest_lt {cs before rest : List Char} {i : Import}
    (h : firstMatch recognise cs = some (before, i, rest)) : rest.length < cs.length := by
  obtain ⟨behind, rfl, hr, -⟩ := eq_append_of_firstMatch h
  obtain ⟨source, rfl, hne⟩ := source_of_recognise hr
  have := List.length_pos_of_ne_nil hne
  simp only [List.length_append]
  omega

/-- There are always enough steps. -/
theorem scan_of_length_le {fuel : Nat} {cs : List Char} (h : cs.length ≤ fuel) :
    scan fuel cs = ofText cs := by
  have same : ∀ n fuel cs, cs.length ≤ n → cs.length ≤ fuel → scan fuel cs = scan n cs := by
    intro n
    induction n with
    | zero =>
        intro fuel cs hn _
        rw [List.length_eq_zero_iff.mp (Nat.le_zero.mp hn)]
        cases fuel <;> rfl
    | succ n ih =>
        intro fuel cs hn hf
        cases fuel with
        | zero =>
            rw [List.length_eq_zero_iff.mp (Nat.le_zero.mp hf)]
            rfl
        | succ fuel =>
            simp only [scan]
            cases hm : firstMatch recognise cs with
            | none => rfl
            | some found =>
                obtain ⟨before, i, rest⟩ := found
                have shorter := firstMatch_rest_lt hm
                simp only [ih fuel rest (by omega) (by omega)]
  exact same cs.length fuel cs (le_refl _) h

theorem ofText_of_none {cs : List Char} (h : firstMatch recognise cs = none) :
    ofText cs = ⟨[], cs⟩ := by
  rw [← scan_of_length_le (Nat.le_succ _), scan, h]

theorem ofText_of_some {before source rest : List Char} {i : Import}
    (h : firstMatch recognise (before ++ source ++ rest) = some (before, i, rest)) :
    ofText (before ++ source ++ rest)
      = ⟨⟨before, source, i⟩ :: (ofText rest).found, (ofText rest).rest⟩ := by
  have shorter := firstMatch_rest_lt h
  have cut : ((before ++ source ++ rest).drop before.length).take
      ((before ++ source ++ rest).length - before.length - rest.length) = source := by
    rw [List.append_assoc, List.drop_left]
    refine List.take_left' ?_
    simp only [List.length_append]
    omega
  rw [← scan_of_length_le (Nat.le_succ _), scan, h]
  simp only [cut, scan_of_length_le (le_of_lt shorter)]

/-- Induction along the statements of a text. -/
theorem ofText_induction {motive : List Char → ImportBlock → Prop}
    (none : ∀ cs, firstMatch recognise cs = none → motive cs ⟨[], cs⟩)
    (some : ∀ before source rest i, recognise (source ++ rest) = some (i, rest) →
      firstMatch recognise (before ++ source ++ rest) = some (before, i, rest) →
      motive rest (ofText rest) →
      motive (before ++ source ++ rest)
        ⟨⟨before, source, i⟩ :: (ofText rest).found, (ofText rest).rest⟩)
    (cs : List Char) : motive cs (ofText cs) := by
  induction hn : cs.length using Nat.strongRecOn generalizing cs with
  | _ n ih =>
      cases hm : firstMatch recognise cs with
      | none =>
          rw [ofText_of_none hm]
          exact none cs hm
      | some found =>
          obtain ⟨before, i, rest⟩ := found
          have shorter := firstMatch_rest_lt hm
          obtain ⟨behind, rfl, hr, -⟩ := eq_append_of_firstMatch hm
          obtain ⟨source, rfl, -⟩ := source_of_recognise hr
          rw [← List.append_assoc] at hm ⊢
          rw [ofText_of_some hm]
          exact some before source rest i hr hm (ih _ (hn ▸ shorter) rest rfl)

/-- Nothing of the text is lost. -/
theorem text_ofText (cs : List Char) : (ofText cs).text = cs := by
  refine ofText_induction (motive := fun cs b => b.text = cs) ?_ ?_ cs
  · intro cs _
    simp [text]
  · intro before source rest i _ _ ih
    simp only [text, List.flatMap_cons, List.append_assoc] at ih ⊢
    rw [ih]

theorem ofText_of_imports_nil {cs : List Char} (h : (ofText cs).imports = []) :
    ofText cs = ⟨[], cs⟩ := by
  have text := text_ofText cs
  have found : (ofText cs).found = [] := List.map_eq_nil_iff.mp h
  cases hb : ofText cs with
  | mk found' rest =>
      rw [hb] at found text
      subst found
      rw [show rest = cs from text]

/-- What has been found in a text: the source of a statement stands in the text and holds its
parts. -/
theorem of_mem_found {cs : List Char} {p : PlacedImport} (h : p ∈ (ofText cs).found) :
    p.source <:+: cs ∧ p.statement.WellFormed ∧
    (∀ s ∈ p.statement.parts, s.toList <:+: p.source) ∧
      (p.statement.wildcard = none ∨
        p.statement.default = none ∧ p.statement.named = NameSet.empty) := by
  have all : ∀ p ∈ (ofText cs).found, p.source <:+: cs ∧ p.statement.WellFormed ∧
      (∀ s ∈ p.statement.parts, s.toList <:+: p.source) ∧
      (p.statement.wildcard = none ∨
        p.statement.default = none ∧ p.statement.named = NameSet.empty) := by
    refine @ofText_induction (fun cs b => ∀ p ∈ b.found, p.source <:+: cs ∧
      p.statement.WellFormed ∧
      (∀ s ∈ p.statement.parts, s.toList <:+: p.source) ∧
      (p.statement.wildcard = none ∨
        p.statement.default = none ∧ p.statement.named = NameSet.empty)) ?_ ?_ cs
    · intro cs _ p hp
      cases hp
    · intro before source rest i hr _ ih p hp
      rcases List.mem_cons.mp hp with rfl | hp
      · obtain ⟨source', clause, m, heq, rfl, valid, hm, hold, -⟩ := eq_append_of_recognise hr
        obtain rfl := List.append_cancel_right heq
        exact ⟨⟨before, rest, rfl⟩, wellFormed_statement valid hm,
          fun s hs => infix_of_mem_parts valid hold hs, alone_statement valid⟩
      · obtain ⟨part, others⟩ := ih p hp
        exact ⟨part.trans (List.suffix_append _ _).isInfix, others⟩
  exact all p h

theorem wellFormed_of_mem_imports {cs : List Char} {i : Import} (h : i ∈ (ofText cs).imports) :
    i.WellFormed := by
  obtain ⟨p, hp, rfl⟩ := List.mem_map.mp h
  exact (of_mem_found hp).2.1

/-! ## A text in front -/

/-- The block with a further text in front. -/
def prepend (u : List Char) (b : ImportBlock) : ImportBlock :=
  match b.found with
  | [] => ⟨[], u ++ b.rest⟩
  | p :: more => ⟨{ p with before := u ++ p.before } :: more, b.rest⟩

@[simp] theorem imports_prepend (u : List Char) (b : ImportBlock) :
  (b.prepend u).imports = b.imports := by
  obtain ⟨found, rest⟩ := b
  cases found <;> rfl

/-- No statement starts in the text `u` when `v` follows it.  A statement may start at the end
of one text and end in the next, so it does not suffice to look at `u` alone. -/
def Silent (u v : List Char) : Prop := ∀ s, s ≠ [] → s <:+ u → recognise (s ++ v) = none

theorem silent_nil (v : List Char) : Silent [] v := by
  intro s hne hs
  exact absurd (List.suffix_nil.mp hs) hne

theorem silent_append {u u' v : List Char} : Silent (u ++ u') v ↔
    Silent u (u' ++ v) ∧ Silent u' v := by
  constructor
  · intro h
    refine ⟨?_, fun s hne hs => h s hne (hs.trans (List.suffix_append _ _))⟩
    intro s hne hs
    rw [← List.append_assoc]
    exact h (s ++ u') (by simp [hne]) ((List.suffix_append_self_iff).mpr hs)
  · rintro ⟨front, back⟩ s hne ⟨t, ht⟩
    rcases List.append_eq_append_iff.mp ht with ⟨a, rfl, rfl⟩ | ⟨a, rfl, rfl⟩
    · cases a with
      | nil => exact back u' hne List.suffix_rfl
      | cons c a =>
          rw [List.append_assoc]
          exact front (c :: a) (by simp) (List.suffix_append _ _)
    · exact back s hne (List.suffix_append _ _)

/-- A statement starts with the letter `i`. -/
theorem silent_of_not_mem {u : List Char} (h : 'i' ∉ u) (v : List Char) : Silent u v := by
  intro s hne hs
  refine recognise_eq_none ?_
  intro c r heq
  obtain ⟨d, s, rfl⟩ := List.exists_cons_of_ne_nil hne
  have hd : d = 'i' := (List.cons.inj heq).1
  exact absurd (hs.subset (by simp [hd])) h

/-- A silent text in front moves the block and changes nothing else. -/
theorem ofText_append {u v : List Char} (silent : Silent u v) :
    ofText (u ++ v) = (ofText v).prepend u := by
  have first := firstMatch_append silent
  cases hm : firstMatch recognise v with
  | none =>
      rw [hm] at first
      rw [ofText_of_none hm, ofText_of_none first]
      rfl
  | some found =>
      obtain ⟨before, i, rest⟩ := found
      obtain ⟨behind, rfl, hr, -⟩ := eq_append_of_firstMatch hm
      obtain ⟨source, rfl, -⟩ := source_of_recognise hr
      rw [hm, Option.map_some, ← List.append_assoc, ← List.append_assoc] at first
      rw [← List.append_assoc] at hm
      have moved : ofText (before ++ (source ++ rest)) = _ :=
        List.append_assoc .. ▸ ofText_of_some hm
      rw [moved, ← List.append_assoc, ← List.append_assoc, ofText_of_some first]
      rfl

theorem ofText_of_silent {u : List Char} (silent : Silent u []) : ofText u = ⟨[], u⟩ := by
  have text := ofText_append silent
  rw [List.append_nil] at text
  have nothing : ofText [] = ⟨[], []⟩ := ofText_of_none rfl
  rw [text, nothing]
  simp [prepend]

theorem ofText_cons {c : Char} (hc : c ≠ 'i') (v : List Char) :
    ofText (c :: v) = (ofText v).prepend [c] :=
  ofText_append (u := [c]) (silent_of_not_mem (by simpa using Ne.symm hc) v)

/-- In a calm text the word `import` stands in front of no clause, unless the text ends behind
it.  This can be checked on the text alone, whatever follows. -/
def Calm (cs : List Char) : Prop := ∀ c, startsClause c = true →
    ¬ "import".toList ++ [c] <:+: cs

theorem Calm.mono {u v : List Char} (h : Calm v) (sub : u <:+: v) : Calm u :=
  fun c hc part => h c hc (part.trans sub)

/-- No statement starts in a calm text, unless what follows completes the word `import` or is a
clause. -/
theorem Calm.silent {u v : List Char} (h : Calm u)
    (seam : ∀ c ∈ v.head?, startsClause c = false ∧ c ∉ ['m', 'p', 'o', 'r', 't']) :
    Silent u v := by
  intro s hne hs
  refine recognise_eq_none ?_
  intro c r heq
  rcases List.append_eq_append_iff.mp heq with ⟨t, ht, hv⟩ | ⟨t, ht, hv⟩
  · -- The text ends inside the word or right behind it.
    cases t with
    | nil =>
        rw [List.nil_append] at hv
        exact (seam c (by simp [hv])).1
    | cons d t =>
        have hd : d ∈ ['m', 'p', 'o', 'r', 't'] := by
          obtain ⟨e, s, rfl⟩ := List.exists_cons_of_ne_nil hne
          have tail : ['m', 'p', 'o', 'r', 't'] = s ++ d :: t := (List.cons.inj ht).2
          rw [tail]
          simp
        exact absurd hd (seam d (by simp [hv])).2
  · cases t with
    | nil =>
        rw [List.nil_append] at hv
        exact (seam c (by simp [← hv])).1
    | cons d t =>
        rw [List.cons_append, List.cons.injEq] at hv
        cases hc : startsClause c with
        | false => rfl
        | true =>
            refine absurd (List.IsInfix.trans ?_ hs.isInfix) (h c hc)
            exact ⟨[], t, by simp [ht, hv.1]⟩

/-- The line of a legible statement is found as it is, and the text goes on behind its
quote. -/
theorem ofText_line {i : Import} (wf : i.WellFormed) (legible : i.Legible) (v : List Char) :
    ∃ source, ofText (i.line ++ v)
      = ⟨⟨[], source, i⟩ :: (ofText (';' :: v)).found, (ofText (';' :: v)).rest⟩ := by
  have read := recognise_line wf legible v
  obtain ⟨source, heq, -⟩ := source_of_recognise read
  refine ⟨source, ?_⟩
  rw [heq] at read ⊢
  have first : firstMatch recognise ([] ++ source ++ (';' :: v)) = some ([], i, ';' :: v) :=
    firstMatch_of_recognise read
  exact ofText_of_some first

end Attestation.ImportBlock
