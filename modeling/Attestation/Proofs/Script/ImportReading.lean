import Attestation.Proofs.Text.Pieces
import Attestation.Script.ImportBlock

/-!
# Reading one import statement

`ImportBlock.recognise` reads the statement at the front of a text.  Each of its parts gets two
statements here: what a text looks like on which it succeeds, and that it succeeds on such a
text.

## Design notes

The reader tries its readings one after the other and has no grammar of its own.  These lemmas
are what stands in for one: a text that is read is cut into the parts that have been read, with
the characters that each of them may hold, and what follows is left over unchanged.  Later
modules only look at these cuts and never at the reader.
-/

namespace Attestation.ImportBlock

open Text

/-! ## Gaps -/

theorem skipGap_append {g cs : List Char} (hg : ∀ c ∈ g, isGap c = true) :
    skipGap (g ++ cs) = skipGap cs :=
  List.dropWhile_append_of_pos hg

theorem skipGap_cons_of_not {c : Char} (hc : isGap c = false) (cs : List Char) :
    skipGap (c :: cs) = c :: cs := by
  simp [skipGap, hc]

theorem skipGap_cons_of_gap {c : Char} (hc : isGap c = true) (cs : List Char) :
    skipGap (c :: cs) = skipGap cs := by
  simp [skipGap, hc]

@[simp] theorem skipGap_nil : skipGap [] = [] := rfl

theorem exists_gap (cs : List Char) :
    ∃ g v, cs = g ++ v ∧ (∀ c ∈ g, isGap c = true) ∧ skipGap cs = v := by
  obtain ⟨g, v, h, hg, -, -, hv⟩ := exists_front isGap cs
  exact ⟨g, v, h, hg, hv⟩

theorem isBlank_of_isGap {c : Char} (h : isGap c = true) : isBlank c = true := by
  simp only [isGap, Bool.or_eq_true, decide_eq_true_eq] at h
  rcases h with (rfl | rfl) | rfl <;> decide

theorem isGap_eq_false_of_not_blank {c : Char} (h : isBlank c = false) : isGap c = false := by
  cases hc : isGap c with
  | false => rfl
  | true => rw [isBlank_of_isGap hc] at h; cases h

/-! ## The module -/

/-- The statement with the given clause and module. -/
def statement (clause : Clause) (module : List Char) : Import where
  default := nonBlank clause.default
  named := namesOf clause.named
  wildcard := nonBlank clause.wildcard
  module := String.ofList (trim module)

theorem readModule_append {clause : Clause} {g h m rest : List Char} {q q' : Char}
    (hg : ∀ c ∈ g, isGap c = true) (hh : ∀ c ∈ h, isGap c = true) (hq : isQuote q = true)
    (hm : ∀ c ∈ m, isModule c = true) (hne : m ≠ []) (hq' : isQuote q' = true) :
    readModule clause (g ++ "from".toList ++ h ++ q :: m ++ q' :: rest)
      = some (statement clause m, rest) := by
  have word : skipGap (g ++ "from".toList ++ h ++ q :: m ++ q' :: rest)
      = "from".toList ++ (h ++ q :: m ++ q' :: rest) := by
    simp only [List.append_assoc]
    rw [skipGap_append hg]
    rfl
  have quote : skipGap (h ++ q :: m ++ q' :: rest) = q :: (m ++ q' :: rest) := by
    rw [List.append_assoc, skipGap_append hh, List.cons_append]
    refine skipGap_cons_of_not ?_ _
    simp only [isQuote, Bool.or_eq_true, decide_eq_true_eq] at hq
    rcases hq with rfl | rfl <;> decide
  have stop : ∀ c ∈ (q' :: rest).head?, isModule c = false := by
    simp [isModule, hq']
  have nonempty : m.isEmpty = false := by simpa using hne
  rw [readModule, word, isPrefixOf?_append]
  simp only [Option.bind_eq_bind, Option.bind_some, quote, takeWhile_front hm stop,
    dropWhile_front hm stop, hq, hq', nonempty, Bool.not_false, Bool.and_true, if_true]
  rfl

theorem eq_append_of_readModule {clause : Clause} {cs rest : List Char} {i : Import}
    (h : readModule clause cs = some (i, rest)) :
    ∃ g k q m q', cs = g ++ "from".toList ++ k ++ q :: m ++ q' :: rest ∧
      (∀ c ∈ g, isGap c = true) ∧ (∀ c ∈ k, isGap c = true) ∧ isQuote q = true ∧
      (∀ c ∈ m, isModule c = true) ∧ m ≠ [] ∧ isQuote q' = true ∧ i = statement clause m := by
  obtain ⟨g, v, rfl, hg, hv⟩ := exists_gap cs
  rw [readModule, hv] at h
  simp only [Option.bind_eq_bind, Option.bind_eq_some_iff] at h
  obtain ⟨behind, hword, h⟩ := h
  rw [List.isPrefixOf?_eq_some_iff_append_eq] at hword
  obtain ⟨k, w, rfl, hk, hw⟩ := exists_gap behind
  rw [hw] at h
  cases w with
  | nil => cases h
  | cons q w =>
      obtain ⟨m, u, rfl, hm, -, htake, hdrop⟩ := exists_front isModule w
      simp only [htake, hdrop] at h
      cases u with
      | nil => cases h
      | cons q' u =>
          simp only at h
          split at h
          · next hcond =>
              simp only [Bool.and_eq_true, Bool.not_eq_true',
                List.isEmpty_eq_false_iff] at hcond
              obtain ⟨⟨hq, hne⟩, hq'⟩ := hcond
              cases h
              exact ⟨g, k, q, m, q', by simp [← hword], hg, hk, hq, hm, hne, hq', rfl⟩
          · cases h

/-- Only the word `from` can follow a clause. -/
theorem readModule_eq_none_of_head {clause : Clause} {g v : List Char} {c : Char}
    (hg : ∀ c ∈ g, isGap c = true) (hgap : isGap c = false) (hc : c ≠ 'f') :
    readModule clause (g ++ c :: v) = none := by
  rw [readModule, skipGap_append hg, skipGap_cons_of_not hgap]
  rw [show "from".toList = 'f' :: "rom".toList from rfl, isPrefixOf?_cons_of_ne (Ne.symm hc)]
  rfl

/-! ## Names in braces -/

theorem readNamed_append {g names rest : List Char} (hg : ∀ c ∈ g, isGap c = true)
    (hnames : ∀ c ∈ names, isListed c = true) (hne : ∃ c ∈ names, isGap c = false) :
    readNamed (g ++ '\x7b' :: names ++ '\x7d' :: rest) = some (names, rest) := by
  have stop : ∀ c ∈ ('\x7d' :: rest).head?, isListed c = false := by simp [isListed]
  have open_ : skipGap (g ++ '\x7b' :: names ++ '\x7d' :: rest)
      = '\x7b' :: (names ++ '\x7d' :: rest) := by
    rw [List.append_assoc, skipGap_append hg, List.cons_append]
    exact skipGap_cons_of_not (by decide) _
  have some_ : ¬ names.all isGap = true := by
    rw [List.all_eq_true]
    obtain ⟨c, hc, hgap⟩ := hne
    exact fun all => Bool.false_ne_true (hgap.symm.trans (all c hc))
  simp only [readNamed, open_, Option.bind_eq_bind, isPrefixOf?_singleton, Option.bind_some,
    takeWhile_front hnames stop, dropWhile_front hnames stop]
  rw [if_neg some_]

theorem eq_append_of_readNamed {cs names rest : List Char}
    (h : readNamed cs = some (names, rest)) :
    ∃ g, cs = g ++ '\x7b' :: names ++ '\x7d' :: rest ∧ (∀ c ∈ g, isGap c = true) ∧
      (∀ c ∈ names, isListed c = true) ∧ ∃ c ∈ names, isGap c = false := by
  obtain ⟨g, v, rfl, hg, hv⟩ := exists_gap cs
  rw [readNamed, hv] at h
  simp only [Option.bind_eq_bind, Option.bind_eq_some_iff] at h
  obtain ⟨w, hw, u, hu, h⟩ := h
  rw [List.isPrefixOf?_eq_some_iff_append_eq] at hw hu
  obtain ⟨l, t, rfl, hl, -, htake, hdrop⟩ := exists_front isListed w
  rw [hdrop] at hu
  rw [htake] at h
  split at h
  · cases h
  · next hall =>
      cases h
      rw [Bool.not_eq_true, List.all_eq_false] at hall
      obtain ⟨c, hc, hgap⟩ := hall
      exact ⟨g, by simp [← hw, ← hu], hg, hl, c, hc, by simpa using hgap⟩

/-- Only an opening brace can start a list of names. -/
theorem readNamed_eq_none_of_head {g v : List Char} {c : Char} (hg : ∀ c ∈ g, isGap c = true)
    (hgap : isGap c = false) (hc : c ≠ '\x7b') : readNamed (g ++ c :: v) = none := by
  rw [readNamed, skipGap_append hg, skipGap_cons_of_not hgap,
    isPrefixOf?_cons_of_ne (Ne.symm hc)]
  rfl

/-! ## What a statement is read from -/

/-- What may stand behind the word `import` in a statement. -/
def startsClause (c : Char) : Bool := isGap c || c = '\x7b' || c = '*' || c = 'f'

/-- The parts of a clause are made of the characters that belong there, and a namespace stands
alone. -/
structure Clause.Valid (clause : Clause) : Prop where
  default : ∀ c ∈ clause.default, isDefaultName c = true
  named : ∀ c ∈ clause.named, isListed c = true
  wildcard : ∀ c ∈ clause.wildcard, isWildcardName c = true
  alone : clause.wildcard = [] ∨ clause.default = [] ∧ clause.named = []

/-- The text `source` holds all parts of a statement with the given clause and module. -/
structure Holds (source : List Char) (clause : Clause) (m : List Char) : Prop where
  default : clause.default <:+: source
  named : clause.named <:+: source
  wildcard : clause.wildcard <:+: source
  module : m <:+: source

theorem Holds.mono {source source' : List Char} {clause : Clause} {m : List Char}
    (h : Holds source clause m) (sub : source <:+: source') : Holds source' clause m :=
  ⟨h.default.trans sub, h.named.trans sub, h.wildcard.trans sub, h.module.trans sub⟩

/-- The text of a tail: its first character, and where its parts stand. -/
theorem eq_append_of_readTail {default cs rest : List Char} {i : Import}
    (h : readTail default cs = some (i, rest)) :
    ∃ source named m, cs = source ++ rest ∧ i = statement ⟨default, named, []⟩ m ∧
      named <:+: source ∧ m <:+: source ∧ (∀ c ∈ named, isListed c = true) ∧
      (∀ c ∈ m, isModule c = true) ∧ ∃ c r, source = c :: r ∧ startsClause c = true := by
  rw [readTail] at h
  cases hn : readNamed cs with
  | some found =>
      obtain ⟨named, behind⟩ := found
      rw [hn] at h
      obtain ⟨g, rfl, hg, hnamed, -⟩ := eq_append_of_readNamed hn
      obtain ⟨g', k, q, m, q', rfl, -, -, -, hm, -, -, rfl⟩ := eq_append_of_readModule h
      refine ⟨g ++ '\x7b' :: named ++ '\x7d' :: g' ++ "from".toList ++ k ++ q :: m
          ++ [q'], named, m,
        by simp, rfl, ⟨g ++ ['\x7b'], '\x7d' :: g' ++ "from".toList ++ k ++ q :: m
          ++ [q'], by simp⟩,
        ⟨g ++ '\x7b' :: named ++ '\x7d' :: g' ++ "from".toList ++ k ++ [q], [q'], by simp⟩,
        hnamed, hm, ?_⟩
      cases g with
      | nil => exact ⟨_, _, rfl, rfl⟩
      | cons c g => exact ⟨c, _, rfl, by simp [startsClause, hg c (by simp)]⟩
  | none =>
      rw [hn] at h
      obtain ⟨g, k, q, m, q', rfl, hg, -, -, hm, -, -, rfl⟩ := eq_append_of_readModule h
      refine ⟨g ++ "from".toList ++ k ++ q :: m ++ [q'], [], m, by simp, rfl, List.nil_infix,
        ⟨g ++ "from".toList ++ k ++ [q], [q'], by simp⟩, by simp, hm, ?_⟩
      cases g with
      | nil => exact ⟨_, _, rfl, rfl⟩
      | cons c g => exact ⟨c, _, rfl, by simp [startsClause, hg c (by simp)]⟩

theorem startsClause_of_head? {cs : List Char} (h : cs.head?.any isGap = true) :
    ∃ c r, cs = c :: r ∧ startsClause c = true := by
  cases cs with
  | nil => cases h
  | cons c r => exact ⟨c, r, rfl, by simp_all [startsClause]⟩

theorem eq_append_of_readDefault {cs rest : List Char} {i : Import}
    (h : readDefault cs = some (i, rest)) :
    ∃ source clause m, cs = source ++ rest ∧ i = statement clause m ∧ clause.Valid ∧
      (∀ c ∈ m, isModule c = true) ∧ Holds source clause m ∧
      ∃ c r, source = c :: r ∧ startsClause c = true := by
  obtain ⟨g, v, rfl, hg, hv⟩ := exists_gap cs
  obtain ⟨name, w, rfl, hname, -, htake, hdrop⟩ := exists_front isDefaultName v
  obtain ⟨g', u, rfl, hg', hu⟩ := exists_gap w
  simp only [readDefault, hv, htake, hdrop, hu] at h
  -- The tail stands behind the name, with a gap and perhaps a comma between.
  have tail : ∀ seam t, u = seam ++ t → readTail name t = some (i, rest) →
      ∃ source clause m, g ++ (name ++ (g' ++ u)) = source ++ rest ∧ i = statement clause m ∧
        clause.Valid ∧ (∀ c ∈ m, isModule c = true) ∧ Holds source clause m ∧ source ≠ [] := by
    intro seam t hut ht
    obtain ⟨source, named, m, rfl, rfl, hin, him, hnamed, hm, c, r, rfl, -⟩ :=
      eq_append_of_readTail ht
    have inside : c :: r <:+: g ++ name ++ g' ++ seam ++ c :: r :=
      ⟨g ++ name ++ g' ++ seam, [], by simp⟩
    exact ⟨g ++ name ++ g' ++ seam ++ c :: r, ⟨name, named, []⟩, m, by simp [hut], rfl,
      ⟨hname, hnamed, by simp, .inl rfl⟩, hm,
      ⟨⟨g, g' ++ seam ++ c :: r, by simp⟩, hin.trans inside, List.nil_infix, him.trans inside⟩,
      by simp⟩
  split at h
  · next hcond =>
      simp only [Bool.and_eq_true] at hcond
      obtain ⟨c, r, hcs, hc⟩ := startsClause_of_head? hcond.1
      have found : ∃ source clause m, g ++ (name ++ (g' ++ u)) = source ++ rest ∧
          i = statement clause m ∧ clause.Valid ∧ (∀ c ∈ m, isModule c = true) ∧
          Holds source clause m ∧ source ≠ [] := by
        split at h
        · exact tail [','] _ rfl h
        · split at h
          · exact tail [] u rfl h
          · cases h
      obtain ⟨source, clause, m, heq, hi, hclause, hm, hold, hne⟩ := found
      refine ⟨source, clause, m, heq, hi, hclause, hm, hold, ?_⟩
      obtain ⟨d, s, rfl⟩ := List.exists_cons_of_ne_nil hne
      rw [heq, List.cons_append, List.cons.injEq] at hcs
      exact ⟨d, s, rfl, hcs.1 ▸ hc⟩
  · cases h

theorem eq_append_of_readWildcard {cs rest : List Char} {i : Import}
    (h : readWildcard cs = some (i, rest)) :
    ∃ source clause m, cs = source ++ rest ∧ i = statement clause m ∧ clause.Valid ∧
      (∀ c ∈ m, isModule c = true) ∧ Holds source clause m ∧
      ∃ c r, source = c :: r ∧ startsClause c = true := by
  obtain ⟨g, v, rfl, hg, hv⟩ := exists_gap cs
  rw [readWildcard, hv] at h
  simp only [Option.bind_eq_bind, Option.bind_eq_some_iff] at h
  obtain ⟨v', hstar, w, has, h⟩ := h
  rw [List.isPrefixOf?_eq_some_iff_append_eq] at hstar has
  obtain ⟨g', w', rfl, hg', hw'⟩ := exists_gap v'
  rw [hw'] at has
  obtain ⟨k, u, rfl, hk, hu⟩ := exists_gap w
  obtain ⟨name, t, rfl, hname, -, htake, hdrop⟩ := exists_front isWildcardName u
  simp only [hu, htake, hdrop] at h
  split at h
  · obtain ⟨g'', l, q, m, q', rfl, -, -, -, hm, -, -, rfl⟩ := eq_append_of_readModule h
    subst hstar has
    refine ⟨g ++ '*' :: g' ++ "as".toList ++ k ++ name ++ g'' ++ "from".toList ++ l ++ q :: m
        ++ [q'],
      ⟨[], [], name⟩, m, by simp, rfl, ⟨by simp, by simp, hname, .inr ⟨rfl, rfl⟩⟩, hm, ?_, ?_⟩
    · exact ⟨List.nil_infix, List.nil_infix,
        ⟨g ++ '*' :: g' ++ "as".toList ++ k,
          g'' ++ "from".toList ++ l ++ q :: m ++ [q'], by simp⟩,
        ⟨g ++ '*' :: g' ++ "as".toList ++ k ++ name ++ g'' ++ "from".toList ++ l ++ [q],
          [q'], by simp⟩⟩
    · cases g with
      | nil => exact ⟨_, _, rfl, rfl⟩
      | cons c g => exact ⟨c, _, rfl, by simp [startsClause, hg c (by simp)]⟩
  · cases h

/-- **What a statement is read from**: the word `import`, a character that starts a clause, and
somewhere behind it all the parts of the statement. -/
theorem eq_append_of_recognise {cs rest : List Char} {i : Import}
    (h : recognise cs = some (i, rest)) :
    ∃ source clause m, cs = source ++ rest ∧ i = statement clause m ∧ clause.Valid ∧
      (∀ c ∈ m, isModule c = true) ∧ Holds source clause m ∧
      ∃ c r, source = "import".toList ++ c :: r ∧ startsClause c = true := by
  rw [recognise] at h
  simp only [Option.bind_eq_bind, Option.bind_eq_some_iff] at h
  obtain ⟨v, hv, h⟩ := h
  rw [List.isPrefixOf?_eq_some_iff_append_eq] at hv
  subst hv
  have found : ∃ source clause m, v = source ++ rest ∧ i = statement clause m ∧ clause.Valid ∧
      (∀ c ∈ m, isModule c = true) ∧ Holds source clause m ∧
      ∃ c r, source = c :: r ∧ startsClause c = true := by
    split at h
    · next hd =>
        cases h
        exact eq_append_of_readDefault hd
    · split at h
      · next ht =>
          cases h
          obtain ⟨source, named, m, rfl, rfl, hin, him, hnamed, hm, start⟩ :=
            eq_append_of_readTail ht
          exact ⟨source, _, m, rfl, rfl, ⟨by simp, hnamed, by simp, .inl rfl⟩, hm,
            ⟨List.nil_infix, hin, List.nil_infix, him⟩, start⟩
      · exact eq_append_of_readWildcard h
  obtain ⟨source, clause, m, rfl, hi, hclause, hm, hold, c, r, rfl, hc⟩ := found
  exact ⟨"import".toList ++ c :: r, clause, m, by simp, hi, hclause, hm,
    hold.mono (List.suffix_append _ _).isInfix, c, r, rfl, hc⟩

/-- Where `import` does not stand in front of a clause, no statement is read. -/
theorem recognise_eq_none {cs : List Char}
    (h : ∀ c r, cs = "import".toList ++ c :: r → startsClause c = false) :
    recognise cs = none := by
  cases hr : recognise cs with
  | none => rfl
  | some found =>
      obtain ⟨i, rest⟩ := found
      obtain ⟨source, _, _, rfl, -, -, -, -, c, r, rfl, hc⟩ := eq_append_of_recognise hr
      have := h c (r ++ rest) (by simp)
      rw [hc] at this
      cases this

end Attestation.ImportBlock
