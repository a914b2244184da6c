import Attestation.Proofs.Script.Entries
import Attestation.Proofs.Script.ImportReading

/-!
# Statements that can be read back

`Import.render` writes a statement on one line, and `ImportBlock.recognise` reads one.  Reading
undoes writing for the statements that are `Import.Legible`: the module has a name, and a
namespace stands alone.  On the line of any other statement nothing is read at its front.

* `Import.WellFormed`: what is true of each part of a statement that has been read.
* `Import.Legible`: when the line of a statement can be read back.
* `recognise_line`, `recognise_line_eq_none`: both cases.

## Design notes

A line is written by one function and read by another one that knows nothing of it, so the
characters of the line are cut in the way in which the reader goes through them: default
import, names, namespace, module.  The reader tries several readings, and a line is only
unreadable when each of them fails; this is where the condition on quotes comes from, since a
default import could be taken for the word `from`.
-/

namespace Attestation

open Text

namespace Import

/-- The characters of a name in braces. -/
def isListedName (c : Char) : Bool := ImportBlock.isListed c && c ≠ ','

/-- Each part of the statement is made as a reader finds it.  All statements that are read are,
and merging keeps it. -/
structure WellFormed (i : Import) : Prop where
  default : ∀ s ∈ i.default, IsWord ImportBlock.isDefaultName s
  named : ∀ s ∈ i.named, IsWord isListedName s
  wildcard : ∀ s ∈ i.wildcard, IsWord ImportBlock.isWildcardName s
  trimmed : Trimmed i.module.toList
  module : ∀ c ∈ i.module.toList, ImportBlock.isModule c = true

/-- The line of the statement can be read back: the module has a name, and a namespace stands
alone.  The pattern knows no statement with a namespace and anything else. -/
def Legible (i : Import) : Prop :=
  i.module ≠ "" ∧ (i.wildcard = none ∨ i.default = none ∧ i.named = NameSet.empty)

instance (i : Import) : Decidable i.Legible := inferInstanceAs (Decidable (_ ∧ _))

/-- The names and the module of the statement. -/
def parts (i : Import) : List String :=
  i.default.toList ++ i.named.toList ++ i.wildcard.toList ++ [i.module]

/-- The line of the statement, as characters. -/
def line (i : Import) : List Char := i.render.toList

end Import

namespace ImportBlock

open Import

/-! ## What has been read -/

theorem isWord_of_nonBlank {p : Char → Bool} {cs : List Char} {s : String}
    (all : ∀ c ∈ cs, p c = true) (h : s ∈ nonBlank cs) : IsWord p s ∧ s.toList <:+: cs := by
  obtain ⟨htrim, hne⟩ := nonBlank_eq_some_iff.mp h
  have part : s.toList <:+: cs := htrim ▸ infix_trim cs
  exact ⟨⟨hne, htrim ▸ trimmed_trim cs, fun c hc => all c (part.subset hc)⟩, part⟩

theorem isWord_of_mem_namesOf {cs : List Char} {s : String} (all : ∀ c ∈ cs, isListed c = true)
    (h : s ∈ namesOf cs) : IsWord isListedName s ∧ s.toList <:+: cs := by
  obtain ⟨part, word⟩ := ArrayLiteral.mem_bareEntries (mem_namesOf.mp h)
  refine ⟨⟨word.nonempty, word.trimmed, ?_⟩, part⟩
  intro c hc
  rw [isListedName, all c (part.subset hc), Bool.true_and]
  exact word.all c hc

/-- The parts of a statement that has been read are made as a reader finds them. -/
theorem wellFormed_statement {clause : Clause} {m : List Char} (valid : clause.Valid)
    (hm : ∀ c ∈ m, isModule c = true) : (statement clause m).WellFormed where
  default s hs := (isWord_of_nonBlank valid.default hs).1
  named s hs := (isWord_of_mem_namesOf valid.named hs).1
  wildcard s hs := (isWord_of_nonBlank valid.wildcard hs).1
  trimmed := by simpa [statement] using trimmed_trim m
  module c hc := hm c ((infix_trim m).subset (by simpa [statement] using hc))

/-- A namespace that has been read stands alone. -/
theorem alone_statement {clause : Clause} {m : List Char} (valid : clause.Valid) :
    (statement clause m).wildcard = none ∨
      (statement clause m).default = none ∧ (statement clause m).named = NameSet.empty := by
  rcases valid.alone with h | ⟨hd, hn⟩
  · exact .inl (by simp [statement, h, nonBlank])
  · exact .inr ⟨by simp [statement, hd, nonBlank], by rw [statement, hn]; rfl⟩

/-- The parts of a statement stand in the text that it is read from. -/
theorem infix_of_mem_parts {source : List Char} {clause : Clause} {m : List Char} {s : String}
    (valid : clause.Valid) (hold : Holds source clause m)
    (h : s ∈ (statement clause m).parts) :
    s.toList <:+: source := by
  simp only [parts, List.mem_append, Option.mem_toList, List.mem_singleton] at h
  rcases h with ((h | h) | h) | rfl
  · exact (isWord_of_nonBlank valid.default h).2.trans hold.default
  · exact (isWord_of_mem_namesOf valid.named (NameSet.mem_def.mpr h)).2.trans hold.named
  · exact (isWord_of_nonBlank valid.wildcard h).2.trans hold.wildcard
  · simpa [statement] using (infix_trim m).trans hold.module

end ImportBlock

namespace Import

/-- What holds of the module and of the names holds of all parts. -/
theorem forall_parts_ofNames {P : String → Prop} {module : String} {names : List String}
    (hm : P (ofNames module names).module) (hn : ∀ s ∈ names, P s) :
    ∀ s ∈ (ofNames module names).parts, P s := by
  intro s hs
  have listed : s ∈ (NameSet.ofList names).toList ↔ s ∈ names := NameSet.mem_ofList
  simp only [parts, ofNames, Option.toList_none, List.nil_append, List.append_nil,
    List.mem_append, List.mem_singleton, listed] at hs
  rcases hs with hs | rfl
  · exact hn s hs
  · exact hm

theorem mem_parts_ofNames {module name : String} {names : List String} (h : name ∈ names) :
    name ∈ (ofNames module names).parts := by
  have listed : name ∈ (NameSet.ofList names).toList := NameSet.mem_ofList.mpr h
  simp [parts, ofNames, listed]

/-! ## The line of a statement -/

/-- The default import on the line, behind the word `import` and its blank. -/
def defaultText (i : Import) : List Char :=
  match i.default with
  | some name => name.toList ++ [' ']
  | none => []

/-- The namespace on the line. -/
def wildcardText (i : Import) : List Char :=
  match i.wildcard with
  | some name => ['*', ' ', 'a', 's', ' '] ++ name.toList ++ [' ']
  | none => []

theorem line_eq (i : Import) :
    i.line = "import ".toList ++ i.defaultText ++ i.renderNamed.toList ++ i.wildcardText
      ++ "from '".toList ++ i.module.toList ++ "';".toList := by
  obtain ⟨d, n, w, m⟩ := i
  cases d <;> cases w <;> simp [line, render, defaultText, wildcardText]

theorem renderNamed_of_empty {i : Import} (h : i.named = NameSet.empty) :
    i.renderNamed = "" := by
  simp [renderNamed, h, NameSet.isEmpty, NameSet.empty]

/-- The names in braces, on the line. -/
theorem toList_renderNamed {i : Import} (h : i.named ≠ NameSet.empty) :
    i.renderNamed.toList = (if i.default.isSome then ", ".toList else [])
      ++ '\x7b' :: ([' '] ++ (join ", " i.named.toList).toList ++ [' '])
        ++ '\x7d' :: [' '] := by
  have nonempty : i.named.isEmpty = false := by
    rw [NameSet.isEmpty, List.isEmpty_eq_false_iff]
    intro hnil
    exact h (NameSet.eq_of_mem_iff fun x => by simp [NameSet.mem_def, hnil, NameSet.empty])
  rw [renderNamed, nonempty]
  cases i.default <;> simp

/-- The line behind its clause. -/
def fromText (i : Import) (rest : List Char) : List Char :=
  ['f', 'r', 'o', 'm', ' ', '\''] ++ i.module.toList ++ '\'' :: ';' :: rest

/-- The line behind its default import and names. -/
def endText (i : Import) (rest : List Char) : List Char := i.wildcardText ++ i.fromText rest

theorem endText_of_none {i : Import} (h : i.wildcard = none) (rest : List Char) :
    i.endText rest = i.fromText rest := by
  simp [endText, wildcardText, h]

theorem endText_of_some {i : Import} {w : String} (h : i.wildcard = some w)
    (rest : List Char) :
    i.endText rest = ['*', ' ', 'a', 's', ' '] ++ w.toList ++ ' ' :: i.fromText rest := by
  simp [endText, wildcardText, h]

/-- What stands behind the clause starts with a word or a star. -/
theorem endText_head (i : Import) (rest : List Char) :
    ∃ c r, i.endText rest = c :: r ∧ (c = '*' ∨ c = 'f') := by
  cases h : i.wildcard with
  | none => exact ⟨'f', _, by rw [endText_of_none h]; rfl, .inr rfl⟩
  | some w => exact ⟨'*', _, by rw [endText_of_some h]; rfl, .inl rfl⟩

/-- The names as they stand between the braces. -/
def namedText (i : Import) : List Char :=
  if i.named = NameSet.empty then [] else [' '] ++ (join ", " i.named.toList).toList ++ [' ']

/-- The names in braces, without what separates them from a default import. -/
def braces (i : Import) : List Char :=
  '\x7b' :: ([' '] ++ (join ", " i.named.toList).toList ++ [' ']) ++ ['\x7d']

end Import

namespace ImportBlock

/-! ## Reading the parts of a line -/

section Line

variable {i : Import} (wf : i.WellFormed)
include wf

theorem readModule_fromText {clause : Clause} {g rest : List Char} (hne : i.module ≠ "")
    (hg : ∀ c ∈ g, isGap c = true) :
    readModule clause (g ++ i.fromText rest)
      = some (statement clause i.module.toList, ';' :: rest) := by
  have text : g ++ i.fromText rest
      = g ++ "from".toList ++ [' '] ++ '\'' :: i.module.toList ++ '\'' :: ';' :: rest := by
    simp [Import.fromText]
  rw [text]
  exact readModule_append hg (by simp; decide) (by decide) wf.module (by simpa using hne)
    (by decide)

omit wf in
/-- A module without a name cannot be read. -/
theorem readModule_fromText_eq_none {clause : Clause} {g rest : List Char} (h : i.module = "")
    (hg : ∀ c ∈ g, isGap c = true) : readModule clause (g ++ i.fromText rest) = none := by
  have text : skipGap (g ++ i.fromText rest)
      = "from".toList ++ (' ' :: '\'' :: '\'' :: ';' :: rest) := by
    rw [skipGap_append hg]
    simp [Import.fromText, h, skipGap, isGap]
  rw [readModule, text, isPrefixOf?_append]
  simp [skipGap, isGap, isModule, isQuote]

/-- The names of a statement, as a reader finds them in its braces. -/
theorem readNamed_braces {g rest : List Char} (h : i.named ≠ NameSet.empty)
    (hg : ∀ c ∈ g, isGap c = true) :
    readNamed (g ++ i.braces ++ rest)
      = some ([' '] ++ (join ", " i.named.toList).toList ++ [' '], rest) := by
  obtain ⟨x, hx⟩ : ∃ x, x ∈ i.named.toList := by
    apply List.exists_mem_of_ne_nil
    intro hnil
    exact h (NameSet.eq_of_mem_iff fun x => by simp [NameSet.mem_def, hnil, NameSet.empty])
  have word : ∀ s ∈ i.named.toList, IsWord Import.isListedName s := fun s hs => wf.named s hs
  have text : g ++ i.braces ++ rest
      = g ++ '\x7b' :: ([' '] ++ (join ", " i.named.toList).toList ++ [' '])
        ++ '\x7d' :: rest := by
    simp [Import.braces]
  have inside : ∀ c ∈ [' '] ++ (join ", " i.named.toList).toList ++ [' '],
    isListed c = true := by
    intro c hc
    simp only [List.mem_append, List.mem_singleton] at hc
    rcases hc with (rfl | hc) | rfl
    · decide
    · rcases mem_join hc with hc | ⟨s, hs, hc⟩
      · exact (forall_mem_of_all (by decide) : ∀ c ∈ ", ".toList, isListed c = true) c hc
      · have := (word s hs).all c hc
        rw [Import.isListedName, Bool.and_eq_true] at this
        exact this.1
    · decide
  have some_ : ∃ c ∈ [' '] ++ (join ", " i.named.toList).toList ++ [' '], isGap c = false := by
    obtain ⟨c, hc, hblank⟩ := (word x hx).exists_not_blank
    refine ⟨c, ?_, isGap_eq_false_of_not_blank hblank⟩
    simp only [List.mem_append]
    exact .inl (.inr ((infix_join hx).subset hc))
  rw [text]
  exact readNamed_append hg inside some_

/-- Behind its default import, a statement reads as its names and what stands behind them. -/
theorem readTail_braces {d g rest : List Char} (h : i.named ≠ NameSet.empty)
    (hg : ∀ c ∈ g, isGap c = true) :
    readTail d (g ++ i.braces ++ ' ' :: i.endText rest)
      = readModule ⟨d, [' '] ++ (join ", " i.named.toList).toList ++ [' '], []⟩
          (' ' :: i.endText rest) := by
  rw [readTail, readNamed_braces wf h hg]

omit wf in
theorem readTail_endText {d g rest : List Char} (hg : ∀ c ∈ g, isGap c = true) :
    readTail d (g ++ i.endText rest) = readModule ⟨d, [], []⟩ (g ++ i.endText rest) := by
  obtain ⟨c, r, hend, hc⟩ := i.endText_head rest
  have none_ : readNamed (g ++ i.endText rest) = none := by
    rw [hend]
    refine readNamed_eq_none_of_head hg ?_ ?_
    · rcases hc with rfl | rfl <;> decide
    · rcases hc with rfl | rfl <;> decide
  rw [readTail, none_]

end Line

/-! ## A default import at the front -/

theorem isGap_of_isDefaultName {c : Char} (hc : isDefaultName c = true) : isGap c = false := by
  simp only [isDefaultName, Bool.and_eq_true, Bool.not_eq_true'] at hc
  exact hc.1.1.1.1

theorem skipGap_word {d v : List Char} (hd : ∀ c ∈ d, isGap c = false) (hne : d ≠ []) :
    skipGap (d ++ v) = d ++ v := by
  obtain ⟨c, r, rfl⟩ := List.exists_cons_of_ne_nil hne
  exact skipGap_cons_of_not (hd c (by simp)) _

section Default

variable {d t : List Char} (hd : ∀ c ∈ d, isDefaultName c = true) (hne : d ≠ [])
include hd hne

/-- A word behind a blank is read as a default import, and what follows its gap decides how. -/
theorem readDefault_word :
    readDefault (' ' :: d ++ ' ' :: t) = match skipGap t with
      | ',' :: v => readTail d v
      | v => readTail d v := by
  have gapless : ∀ c ∈ d, isGap c = false := fun c hc => isGap_of_isDefaultName (hd c hc)
  have word : skipGap (' ' :: d ++ ' ' :: t) = d ++ ' ' :: t := by
    rw [List.cons_append, skipGap_cons_of_gap (by decide), skipGap_word gapless hne]
  have stop : ∀ c ∈ (' ' :: t).head?, isDefaultName c = false := by
    simp only [List.head?_cons, Option.mem_some_iff]
    rintro c rfl
    decide
  have nonempty : d.isEmpty = false := by simpa using hne
  have behind : skipGap (' ' :: t) = skipGap t := skipGap_cons_of_gap (by decide) t
  simp only [readDefault, word, takeWhile_front hd stop, dropWhile_front hd stop,
    behind, nonempty]
  rfl

theorem readDefault_word_of_head {c : Char} {v : List Char} (ht : skipGap t = c :: v)
    (hc : c ≠ ',') :
    readDefault (' ' :: d ++ ' ' :: t) = readTail d (c :: v) := by
  rw [readDefault_word hd hne, ht]
  split
  · next heq => exact absurd (List.cons.inj heq).1 hc
  · rfl

/-- A default import can be mistaken for the word `from` only when a quote follows. -/
theorem readModule_word_eq_none {clause : Clause} (hquote : ∀ c ∈ d, isQuote c = false)
    (ht : ∀ c ∈ (skipGap t).head?, isQuote c = false) :
    readModule clause (' ' :: d ++ ' ' :: t) = none := by
  have gapless : ∀ c ∈ d, isGap c = false := fun c hc => isGap_of_isDefaultName (hd c hc)
  have word : skipGap (' ' :: d ++ ' ' :: t) = d ++ ' ' :: t := by
    rw [List.cons_append, skipGap_cons_of_gap (by decide), skipGap_word gapless hne]
  rw [readModule, word]
  cases hw : List.isPrefixOf? "from".toList (d ++ ' ' :: t) with
  | none => rfl
  | some behind =>
      replace hw := (List.append_eq_of_isPrefixOf?_eq_some hw).symm
      -- Either the word goes on behind `from`, or it ends there.
      have head : ∀ c ∈ (skipGap behind).head?, isQuote c = false := by
        rcases List.append_eq_append_iff.mp hw with ⟨a, ha, hb⟩ | ⟨a, ha, hb⟩
        · cases a with
          | nil =>
              rw [List.nil_append] at hb
              rw [← hb, skipGap_cons_of_gap (by decide)]
              exact ht
          | cons c a =>
              rw [List.cons_append, List.cons.injEq] at hb
              have member : ' ' ∈ "from".toList := by simp [ha, ← hb.1]
              exact absurd member (by decide)
        · cases a with
          | nil =>
              rw [List.nil_append] at hb
              rw [hb, skipGap_cons_of_gap (by decide)]
              exact ht
          | cons c a =>
              have hc : c ∈ d := by simp [ha]
              rw [hb, List.cons_append, skipGap_cons_of_not (gapless c hc)]
              simpa using hquote c hc
      simp only [Option.bind_eq_bind, Option.bind_some]
      split
      · next quote cs hcs =>
          have : isQuote quote = false := head quote (by simp [hcs])
          split <;> simp [this]
      · rfl

end Default

/-- Without a word behind the blank there is no default import. -/
theorem readDefault_eq_none_of_head {c : Char} {v : List Char} (hgap : isGap c = false)
    (hc : isDefaultName c = false) : readDefault (' ' :: c :: v) = none := by
  simp [readDefault, skipGap_cons_of_gap (show isGap ' ' = true by decide),
    skipGap_cons_of_not hgap, hc]

theorem readWildcard_eq_none_of_head {c : Char} {v : List Char} (hgap : isGap c = false)
    (hc : c ≠ '*') : readWildcard (' ' :: c :: v) = none := by
  simp [readWildcard, skipGap_cons_of_gap (show isGap ' ' = true by decide),
    skipGap_cons_of_not hgap, isPrefixOf?_cons_of_ne hc.symm]

/-! ## The whole line -/

/-- The line from its default import on. -/
theorem line_append (i : Import) (rest : List Char) :
    i.line ++ rest = "import".toList ++ (' ' :: (i.defaultText
      ++ (i.renderNamed.toList ++ i.endText rest))) := by
  rw [Import.line_eq]
  simp [Import.endText, Import.fromText]

/-- A statement is made of the parts that are read on its line. -/
theorem statement_eq {i : Import} (wf : i.WellFormed) :
    statement ⟨(i.default.map String.toList).getD [], i.namedText,
      (i.wildcard.map String.toList).getD []⟩ i.module.toList = i := by
  have default : nonBlank ((i.default.map String.toList).getD []) = i.default := by
    cases hd : i.default with
    | none => rfl
    | some d => exact nonBlank_word (wf.default d hd)
  have wildcard : nonBlank ((i.wildcard.map String.toList).getD []) = i.wildcard := by
    cases hw : i.wildcard with
    | none => rfl
    | some w => exact nonBlank_word (wf.wildcard w hw)
  have named : namesOf i.namedText = i.named := by
    rw [Import.namedText]
    split
    · next h => rw [h]; rfl
    · refine NameSet.eq_of_mem_iff fun x => ?_
      rw [mem_namesOf, ArrayLiteral.bareEntries_join (fun s hs => wf.named s hs) (by decide)
        (by simp; decide) (by simp; decide), NameSet.mem_def]
  have module : String.ofList (trim i.module.toList) = i.module := by
    rw [wf.trimmed, String.ofList_toList]
  rw [statement, default, wildcard, named, module]

section Whole

variable {i : Import} (wf : i.WellFormed)
include wf

/-- Behind a default import, its names and its namespace decide what is read. -/
theorem readDefault_line {d : String} (hd : i.default = some d) (rest : List Char) :
    ∃ g, (∀ c ∈ g, isGap c = true) ∧
      readDefault (' ' :: (i.defaultText ++ (i.renderNamed.toList ++ i.endText rest)))
        = readModule ⟨d.toList, i.namedText, []⟩ (g ++ i.endText rest) := by
  have hall := (wf.default d hd).all
  have hne := (wf.default d hd).nonempty
  by_cases hn : i.named = NameSet.empty
  · refine ⟨[], by simp, ?_⟩
    have text : ' ' :: (i.defaultText ++ (i.renderNamed.toList ++ i.endText rest))
        = ' ' :: d.toList ++ ' ' :: i.endText rest := by
      simp [Import.defaultText, hd, Import.renderNamed_of_empty hn]
    obtain ⟨c, r, hend, hc⟩ := i.endText_head rest
    have head : skipGap (i.endText rest) = c :: r := by
      rw [hend]
      exact skipGap_cons_of_not (by rcases hc with rfl | rfl <;> decide) r
    have comma : c ≠ ',' := by rcases hc with rfl | rfl <;> decide
    rw [text, readDefault_word_of_head hall hne head comma, ← hend,
      Import.namedText, if_pos hn]
    exact readTail_endText (g := []) (by simp)
  · refine ⟨[' '], forall_mem_of_all (by decide), ?_⟩
    have text : ' ' :: (i.defaultText ++ (i.renderNamed.toList ++ i.endText rest))
        = ' ' :: d.toList ++ ' ' :: ',' :: ([' '] ++ i.braces ++ ' ' :: i.endText rest) := by
      simp [Import.defaultText, hd, Import.toList_renderNamed hn, Import.braces]
    have comma : skipGap (',' :: ([' '] ++ i.braces ++ ' ' :: i.endText rest))
        = ',' :: ([' '] ++ i.braces ++ ' ' :: i.endText rest) :=
      skipGap_cons_of_not (by decide) _
    rw [text, readDefault_word hall hne, comma, Import.namedText, if_neg hn]
    exact readTail_braces wf hn (forall_mem_of_all (by decide))

/-- Without a default import, too. -/
theorem readTail_line (hd : i.default = none) (rest : List Char) :
    ∃ g, (∀ c ∈ g, isGap c = true) ∧
      readTail [] (' ' :: (i.defaultText ++ (i.renderNamed.toList ++ i.endText rest)))
        = readModule ⟨[], i.namedText, []⟩ (g ++ i.endText rest) := by
  refine ⟨[' '], forall_mem_of_all (by decide), ?_⟩
  by_cases hn : i.named = NameSet.empty
  · have text : ' ' :: (i.defaultText ++ (i.renderNamed.toList ++ i.endText rest))
        = [' '] ++ i.endText rest := by
      simp [Import.defaultText, hd, Import.renderNamed_of_empty hn]
    rw [text, readTail_endText (forall_mem_of_all (by decide)), Import.namedText, if_pos hn]
  · have text : ' ' :: (i.defaultText ++ (i.renderNamed.toList ++ i.endText rest))
        = [' '] ++ i.braces ++ ' ' :: i.endText rest := by
      simp [Import.defaultText, hd, Import.toList_renderNamed hn, Import.braces]
    rw [text, readTail_braces wf hn (forall_mem_of_all (by decide)),
      Import.namedText, if_neg hn]
    rfl

omit wf in
/-- A line without a default import starts with a brace, a star or the word `from`. -/
theorem readDefault_line_eq_none (hd : i.default = none) (rest : List Char) :
    readDefault (' ' :: (i.defaultText ++ (i.renderNamed.toList ++ i.endText rest)))
      = none := by
  by_cases hn : i.named = NameSet.empty
  · have text : i.defaultText ++ (i.renderNamed.toList ++ i.endText rest)
        = i.endText rest := by
      simp [Import.defaultText, hd, Import.renderNamed_of_empty hn]
    rw [text]
    cases hw : i.wildcard with
    | some w =>
        rw [Import.endText_of_some hw]
        exact readDefault_eq_none_of_head (by decide) (by decide)
    | none =>
        -- The word `from` is read as a name, but the module follows it.
        have word : ' ' :: i.endText rest = ' ' :: ['f', 'r', 'o', 'm'] ++ ' ' ::
            ('\'' :: (i.module.toList ++ '\'' :: ';' :: rest)) := by
          rw [Import.endText_of_none hw]
          rfl
        rw [word, readDefault_word_of_head (forall_mem_of_all (by decide)) (by decide)
          (skipGap_cons_of_not (by decide) _)
          (by decide), readTail]
        have noNames : readNamed ('\'' :: (i.module.toList ++ '\'' :: ';' :: rest)) = none :=
          readNamed_eq_none_of_head (g := []) (by simp) (by decide) (by decide)
        rw [noNames]
        exact readModule_eq_none_of_head (g := []) (by simp) (by decide) (by decide)
  · have text : i.defaultText ++ (i.renderNamed.toList ++ i.endText rest)
        = '\x7b' :: ([' '] ++ (join ", " i.named.toList).toList ++ [' ', '\x7d', ' ']
          ++ i.endText rest) := by
      simp [Import.defaultText, hd, Import.toList_renderNamed hn]
    rw [text]
    exact readDefault_eq_none_of_head (by decide) (by decide)

theorem readWildcard_line {w : String} (hd : i.default = none) (hn : i.named = NameSet.empty)
    (hw : i.wildcard = some w) (rest : List Char) :
    readWildcard (' ' :: (i.defaultText ++ (i.renderNamed.toList ++ i.endText rest)))
      = readModule ⟨[], [], w.toList⟩ (' ' :: i.fromText rest) := by
  have hword := wf.wildcard w hw
  have gapless : ∀ c ∈ w.toList, isGap c = false := by
    intro c hc
    have := hword.all c hc
    simp only [isWildcardName, Bool.and_eq_true, Bool.not_eq_true'] at this
    exact this.1.1
  have text : ' ' :: (i.defaultText ++ (i.renderNamed.toList ++ i.endText rest))
      = ' ' :: '*' :: ' ' :: ("as".toList
        ++ (' ' :: (w.toList ++ ' ' :: i.fromText rest))) := by
    simp [Import.defaultText, hd, Import.renderNamed_of_empty hn, Import.endText_of_some hw]
  have stop : ∀ c ∈ (' ' :: i.fromText rest).head?, isWildcardName c = false := by
    simp only [List.head?_cons, Option.mem_some_iff]
    rintro c rfl
    decide
  have nonempty : w.toList.isEmpty = false := by simpa using hword.nonempty
  have star : skipGap (' ' :: '*' :: ' ' ::
    ("as".toList ++ (' ' :: (w.toList ++ ' ' :: i.fromText rest))))
      = '*' :: ' ' :: ("as".toList ++ (' ' :: (w.toList ++ ' ' :: i.fromText rest))) := rfl
  have as_ : skipGap (' ' :: ("as".toList ++ (' ' :: (w.toList ++ ' ' :: i.fromText rest))))
      = "as".toList ++ (' ' :: (w.toList ++ ' ' :: i.fromText rest)) := rfl
  have name : skipGap (' ' :: (w.toList ++ ' ' :: i.fromText rest))
      = w.toList ++ ' ' :: i.fromText rest := by
    rw [skipGap_cons_of_gap (by decide), skipGap_word gapless hword.nonempty]
  rw [text, readWildcard, star, isPrefixOf?_singleton]
  simp only [Option.bind_eq_bind, Option.bind_some, as_, isPrefixOf?_append, name,
    takeWhile_front hword.all stop, dropWhile_front hword.all stop, nonempty]
  rfl

/-- **Reading undoes writing.**  What stands on the line of a legible statement is that
statement, whatever follows the line. -/
theorem recognise_line (legible : i.Legible) (rest : List Char) :
    recognise (i.line ++ rest) = some (i, ';' :: rest) := by
  obtain ⟨hmodule, halone⟩ := legible
  have read := statement_eq wf
  have gap : ∀ c ∈ [' '], isGap c = true := forall_mem_of_all (by decide)
  rw [line_append, recognise, isPrefixOf?_append]
  simp only [Option.bind_eq_bind, Option.bind_some]
  cases hd : i.default with
  | some d =>
      -- A default import rules a namespace out.
      have hw : i.wildcard = none := by
        rcases halone with h | ⟨h, -⟩
        · exact h
        · rw [hd] at h; cases h
      obtain ⟨g, hg, hline⟩ := readDefault_line wf hd rest
      rw [hline, Import.endText_of_none hw, readModule_fromText wf hmodule hg]
      simp only [hd, hw, Option.map_some, Option.getD_some, Option.map_none,
        Option.getD_none] at read
      rw [read]
  | none =>
      obtain ⟨g, hg, hline⟩ := readTail_line wf hd rest
      rw [readDefault_line_eq_none hd, hline]
      cases hw : i.wildcard with
      | none =>
          rw [Import.endText_of_none hw, readModule_fromText wf hmodule hg]
          simp only [hd, hw, Option.map_none, Option.getD_none] at read
          rw [read]
      | some w =>
          have hn : i.named = NameSet.empty := by
            rcases halone with h | ⟨-, h⟩
            · rw [hw] at h; cases h
            · exact h
          have stuck : readModule ⟨[], i.namedText, []⟩ (g ++ i.endText rest) = none := by
            rw [Import.endText_of_some hw]
            exact readModule_eq_none_of_head hg (by decide) (by decide)
          rw [stuck, readWildcard_line wf hd hn hw,
            ← List.singleton_append, readModule_fromText wf hmodule gap]
          simp only [hd, hw, Option.map_none, Option.getD_none, Option.map_some,
            Option.getD_some,
            Import.namedText, if_pos hn] at read
          rw [read]

omit wf in
/-- The end of a statement is not read when a namespace stands in front of the word `from`, or
no module behind it. -/
theorem readModule_endText_eq_none (broken : i.wildcard ≠ none ∨ i.module = "")
    (clause : Clause) {g : List Char} (hg : ∀ c ∈ g, isGap c = true) (rest : List Char) :
    readModule clause (g ++ i.endText rest) = none := by
  cases hw : i.wildcard with
  | some w =>
      rw [Import.endText_of_some hw]
      exact readModule_eq_none_of_head hg (by decide) (by decide)
  | none =>
      rw [Import.endText_of_none hw]
      exact readModule_fromText_eq_none (broken.resolve_left (by simp [hw])) hg

omit wf in
/-- What stands behind a default import does not start with a quote. -/
theorem exists_behind_default {d : String} (hd : i.default = some d) (rest : List Char) :
    ∃ t, ' ' :: (i.defaultText ++ (i.renderNamed.toList ++ i.endText rest))
        = ' ' :: d.toList ++ ' ' :: t ∧ ∀ c ∈ (skipGap t).head?, isQuote c = false := by
  by_cases hn : i.named = NameSet.empty
  · obtain ⟨c, r, hend, hc⟩ := i.endText_head rest
    refine ⟨i.endText rest, by simp [Import.defaultText, hd,
      Import.renderNamed_of_empty hn], ?_⟩
    rw [hend, skipGap_cons_of_not (by rcases hc with rfl | rfl <;> decide)]
    simp only [List.head?_cons, Option.mem_some_iff, forall_eq']
    rcases hc with rfl | rfl <;> decide
  · refine ⟨',' :: ([' '] ++ i.braces ++ ' ' :: i.endText rest),
      by simp [Import.defaultText, hd, Import.toList_renderNamed hn, Import.braces], ?_⟩
    rw [skipGap_cons_of_not (by decide)]
    simp only [List.head?_cons, Option.mem_some_iff, forall_eq']
    decide

/-- A line with a default import can be read in no other way than with it.  It could only be
the word `from`, and the module would have to follow. -/
theorem readTail_line_eq_none {d : String} (hd : i.default = some d)
    (plain : ∀ c ∈ d.toList, isQuote c = false) (rest : List Char) :
    readTail [] (' ' :: (i.defaultText ++ (i.renderNamed.toList ++ i.endText rest))) = none ∧
      readWildcard (' ' :: (i.defaultText ++ (i.renderNamed.toList ++ i.endText rest)))
        = none := by
  have hall := (wf.default d hd).all
  have hne := (wf.default d hd).nonempty
  obtain ⟨t, text, ht⟩ := exists_behind_default hd rest
  obtain ⟨e, d', hcons⟩ := List.exists_cons_of_ne_nil hne
  have he : isDefaultName e = true := hall e (by simp [hcons])
  have egap : isGap e = false := isGap_of_isDefaultName he
  simp only [isDefaultName, Bool.and_eq_true, decide_eq_true_eq] at he
  have noNames : readNamed (' ' :: d.toList ++ ' ' :: t) = none := by
    rw [hcons]
    exact readNamed_eq_none_of_head (g := [' ']) (forall_mem_of_all (by decide)) egap he.1.1.2
  have noWildcard : readWildcard (' ' :: d.toList ++ ' ' :: t) = none := by
    rw [hcons]
    exact readWildcard_eq_none_of_head egap he.1.1.1.2
  rw [text, readTail, noNames]
  exact ⟨readModule_word_eq_none hall hne plain ht, noWildcard⟩

/-- A line without a default import is not read as a namespace either. -/
theorem readWildcard_line_eq_none (hd : i.default = none) (illegible : ¬ i.Legible)
    (rest : List Char) :
    readWildcard (' ' :: (i.defaultText ++ (i.renderNamed.toList ++ i.endText rest)))
      = none := by
  by_cases hn : i.named = NameSet.empty
  · cases hw : i.wildcard with
    | some w =>
        have hmodule : i.module = "" := by
          by_contra h
          exact illegible ⟨h, .inr ⟨hd, hn⟩⟩
        rw [readWildcard_line wf hd hn hw, ← List.singleton_append,
          readModule_fromText_eq_none hmodule (forall_mem_of_all (by decide))]
    | none =>
        have text : i.defaultText ++ (i.renderNamed.toList ++ i.endText rest)
            = 'f' :: (['r', 'o', 'm', ' ', '\'']
              ++ i.module.toList ++ '\'' :: ';' :: rest) := by
          simp [Import.defaultText, hd, Import.renderNamed_of_empty hn,
            Import.endText_of_none hw, Import.fromText]
        rw [text]
        exact readWildcard_eq_none_of_head (by decide) (by decide)
  · have text : i.defaultText ++ (i.renderNamed.toList ++ i.endText rest)
        = '\x7b' :: ([' '] ++ (join ", " i.named.toList).toList ++ [' ', '\x7d', ' ']
          ++ i.endText rest) := by
      simp [Import.defaultText, hd, Import.toList_renderNamed hn]
    rw [text]
    exact readWildcard_eq_none_of_head (by decide) (by decide)

/-- On the line of any other statement nothing is read, unless its default import holds a
quote. -/
theorem recognise_line_eq_none (illegible : ¬ i.Legible)
    (plain : ∀ d ∈ i.default, ∀ c ∈ d.toList, isQuote c = false) (rest : List Char) :
    recognise (i.line ++ rest) = none := by
  have broken : i.wildcard ≠ none ∨ i.module = "" := by
    by_contra h
    rw [not_or, not_not] at h
    exact illegible ⟨h.2, .inl h.1⟩
  rw [line_append, recognise, isPrefixOf?_append]
  simp only [Option.bind_eq_bind, Option.bind_some]
  cases hd : i.default with
  | some d =>
      obtain ⟨g, hg, hline⟩ := readDefault_line wf hd rest
      obtain ⟨noTail, noWildcard⟩ := readTail_line_eq_none wf hd (plain d hd) rest
      rw [hline, readModule_endText_eq_none broken _ hg, noTail, noWildcard]
  | none =>
      obtain ⟨g, hg, hline⟩ := readTail_line wf hd rest
      rw [readDefault_line_eq_none hd, hline, readModule_endText_eq_none broken _ hg,
        readWildcard_line_eq_none wf hd illegible]

end Whole

end ImportBlock

end Attestation
