import Attestation.Proofs.Script.ImportScan
import Mathlib.Data.List.Flatten

/-!
# Lines of import statements

`renderImports` writes one line for each statement.  This module says what is found in such
lines.

* `Foreign`: a word that shares no place with the fixed text of a line.  It occurs in the lines
  only inside the names and modules (`infix_lines`).
* `Import.Mute`: an illegible statement on whose line nothing at all is found.
* `imports_lines`: exactly the legible statements are found, in order.
* `Cut`: the statements of the block that is found.  Illegible lines at either end do not
  belong to it (`Cut.ofText_eq`).

## Design notes

A statement that cannot be read back is still written on a line of its own, and the scan that
reads the lines must not be thrown off by it.  `Mute` asks for this and nothing more.  The
block that is found then goes from the first legible line to the last one, whatever stands
between them, and `Cut` names its parts, since a later merge replaces just this block.
-/

namespace Attestation

open Text

/-! ## Words in a line -/

/-- A word that holds none of the separators of a line, and does not start or end like the text
around them. -/
structure Foreign (w : List Char) : Prop where
  nonempty : w ≠ []
  separators : ∀ b ∈ [',', '*', '\'', '\x7b', '\x7d', ';'], b ∉ w
  head : ∀ c ∈ w.head?, c ∉ [' ', '\n', '*', 'a', 's', 'f', 'r', 'o', 'm', '\'', '\x7b', ';']
  last : ∀ c ∈ w.getLast?, c ∉ [' ', 'f', 'r', 'o', 'm']

namespace Foreign

variable {w : List Char} (h : Foreign w)
include h

theorem not_infix_nil : ¬ w <:+: [] := fun part => h.nonempty (List.infix_nil.mp part)

theorem infix_of_append_left {u v : List Char}
    (hu : ∀ c ∈ u, c ∈ [' ', '\n', '*', 'a', 's', 'f', 'r', 'o', 'm', '\'', '\x7b', ';'])
    (part : w <:+: u ++ v) : w <:+: v := by
  obtain ⟨c, r, rfl⟩ := List.exists_cons_of_ne_nil h.nonempty
  have outside := h.head c rfl
  exact (infix_append_left_iff fun hc => outside (hu c hc)).mp part

theorem infix_of_append_right {u v : List Char} (hv : ∀ c ∈ v, c ∈ [' ', 'f', 'r', 'o', 'm'])
    (part : w <:+: u ++ v) : w <:+: u := by
  obtain ⟨r, c, rfl⟩ := (List.eq_nil_or_concat' w).resolve_left h.nonempty
  have outside := h.last c (by simp)
  exact (infix_append_right_iff fun hc => outside (hv c hc)).mp part

/-- The fixed text around a separator keeps what stands before it apart from what stands behind
it. -/
theorem apart {u v : List Char} (a : List Char) (b : Char) (c : List Char)
    (hb : b ∈ [',', '*', '\'', '\x7b', '\x7d', ';'])
    (ha : ∀ x ∈ a, x ∈ [' ', 'f', 'r', 'o', 'm'])
    (hc : ∀ x ∈ c, x ∈ [' ', '\n', '*', 'a', 's', 'f', 'r', 'o', 'm', '\'', '\x7b', ';'])
    (part : w <:+: u ++ a ++ b :: (c ++ v)) : w <:+: u ∨ w <:+: v := by
  rcases (infix_append_cons_iff (h.separators b hb)).mp part with part | part
  · exact .inl (h.infix_of_append_right ha part)
  · exact .inr (h.infix_of_append_left hc part)

theorem exists_of_infix_join {names : List String} (part : w <:+: (join ", " names).toList) :
    ∃ s ∈ names, w <:+: s.toList := by
  rw [toList_join] at part
  induction names with
  | nil => exact absurd part h.not_infix_nil
  | cons name more ih =>
      cases more with
      | nil => exact ⟨name, by simp, by simpa using part⟩
      | cons next more =>
          have text : List.intercalate ", ".toList ((name :: next :: more).map String.toList)
              = name.toList ++ [] ++ ',' ::
                ([' '] ++ List.intercalate ", ".toList
                  ((next :: more).map String.toList)) := by
            simp [List.intercalate_cons_cons]
          rw [text] at part
          rcases h.apart [] ',' [' '] (by decide) (forall_mem_of_all (by decide))
            (forall_mem_of_all (by decide)) part with part | part
          · exact ⟨name, by simp, part⟩
          · obtain ⟨s, hs, part⟩ := ih part
            exact ⟨s, List.mem_cons_of_mem _ hs, part⟩

/-- Behind a blank, the end of a line holds the word in its namespace or module. -/
theorem exists_of_infix_endText {i : Import} {u : List Char}
    (part : w <:+: u ++ ' ' :: i.endText []) :
    w <:+: u ∨ ∃ s ∈ i.parts, w <:+: s.toList := by
  have module_ : ∀ {u : List Char}, w <:+: u ++ ' ' :: i.fromText [] →
      w <:+: u ∨ ∃ s ∈ i.parts, w <:+: s.toList := by
    intro u part
    have text : u ++ ' ' :: i.fromText []
        = u ++ [' ', 'f', 'r', 'o', 'm', ' ']
          ++ '\'' :: ([] ++ (i.module.toList ++ [] ++ '\'' :: ([';'] ++ []))) := by
      simp [Import.fromText]
    rw [text] at part
    rcases h.apart _ _ _ (by decide) (forall_mem_of_all (by decide))
      (forall_mem_of_all (by decide)) part with part | part
    · exact .inl part
    · rcases h.apart _ _ _ (by decide) (forall_mem_of_all (by decide))
        (forall_mem_of_all (by decide)) part with part | part
      · exact .inr ⟨i.module, by simp [Import.parts], part⟩
      · exact absurd part h.not_infix_nil
  cases hw : i.wildcard with
  | none =>
      rw [Import.endText_of_none hw] at part
      exact module_ part
  | some name =>
      have text : u ++ ' ' :: i.endText []
          = u ++ [' '] ++ '*' :: ([' ', 'a', 's', ' ']
            ++ (name.toList ++ ' ' :: i.fromText [])) := by
        simp [Import.endText_of_some hw]
      rw [text] at part
      rcases h.apart _ _ _ (by decide) (forall_mem_of_all (by decide))
        (forall_mem_of_all (by decide)) part with part | part
      · exact .inl part
      · rcases module_ part with part | found
        · exact .inr ⟨name, by simp [Import.parts, hw], part⟩
        · exact .inr found

/-- Behind a blank, the line holds the word in its names, its namespace or its module. -/
theorem exists_of_infix_names {i : Import} {u : List Char}
    (part : w <:+: u ++ ' ' :: (i.renderNamed.toList ++ i.endText [])) :
    w <:+: u ∨ ∃ s ∈ i.parts, w <:+: s.toList := by
  by_cases hn : i.named = NameSet.empty
  · rw [Import.renderNamed_of_empty hn] at part
    exact h.exists_of_infix_endText part
  · -- The names, with the brace behind them.
    have names : w <:+: (join ", " i.named.toList).toList ++ [' ', '\x7d']
        ++ ' ' :: i.endText [] →
        ∃ s ∈ i.parts, w <:+: s.toList := by
      intro part
      rcases h.exists_of_infix_endText part with part | found
      · have text : (join ", " i.named.toList).toList ++ [' ', '\x7d']
            = (join ", " i.named.toList).toList ++ [' '] ++ '\x7d' :: ([] ++ []) := by simp
        rw [text] at part
        rcases h.apart _ _ _ (by decide) (forall_mem_of_all (by decide))
          (forall_mem_of_all (by decide)) part with part | part
        · obtain ⟨s, hs, part⟩ := h.exists_of_infix_join part
          exact ⟨s, by simp [Import.parts, hs], part⟩
        · exact absurd part h.not_infix_nil
      · exact found
    rw [Import.toList_renderNamed hn] at part
    cases hd : i.default with
    | none =>
        have text : u ++ ' ' :: ((if i.default.isSome then ", ".toList else [])
              ++ '\x7b' :: ([' '] ++ (join ", " i.named.toList).toList ++ [' '])
                ++ '\x7d' :: [' ']
              ++ i.endText [])
            = u ++ [' '] ++ '\x7b' :: ([' '] ++
              ((join ", " i.named.toList).toList ++ [' ', '\x7d']
                ++ ' ' :: i.endText [])) := by
          simp [hd]
        rw [text] at part
        exact (h.apart _ _ _ (by decide) (forall_mem_of_all (by decide))
          (forall_mem_of_all (by decide)) part).imp_right names
    | some d =>
        have text : u ++ ' ' :: ((if i.default.isSome then ", ".toList else [])
              ++ '\x7b' :: ([' '] ++ (join ", " i.named.toList).toList ++ [' '])
                ++ '\x7d' :: [' ']
              ++ i.endText [])
            = u ++ [' '] ++ ',' :: ([' ', '\x7b', ' '] ++
              ((join ", " i.named.toList).toList ++ [' ', '\x7d']
                ++ ' ' :: i.endText [])) := by
          simp [hd]
        rw [text] at part
        exact (h.apart _ _ _ (by decide) (forall_mem_of_all (by decide))
          (forall_mem_of_all (by decide)) part).imp_right names

/-- Behind the word `import`, the line holds the word only in one of its parts. -/
theorem exists_of_infix_body {i : Import}
    (part : w <:+: ' ' :: (i.defaultText ++ (i.renderNamed.toList ++ i.endText []))) :
    ∃ s ∈ i.parts, w <:+: s.toList := by
  cases hd : i.default with
  | none =>
      have text : ' ' :: (i.defaultText ++ (i.renderNamed.toList ++ i.endText []))
          = [] ++ ' ' :: (i.renderNamed.toList ++ i.endText []) := by
        simp [Import.defaultText, hd]
      rw [text] at part
      exact (h.exists_of_infix_names part).resolve_left h.not_infix_nil
  | some d =>
      have text : ' ' :: (i.defaultText ++ (i.renderNamed.toList ++ i.endText []))
          = ([' '] ++ d.toList) ++ ' ' :: (i.renderNamed.toList ++ i.endText []) := by
        simp [Import.defaultText, hd]
      rw [text] at part
      rcases h.exists_of_infix_names part with part | found
      · exact ⟨d, by simp [Import.parts, hd], h.infix_of_append_left (forall_mem_of_all
          (by decide)) part⟩
      · exact found

end Foreign

/-- The lines of some statements, as characters. -/
def importLines (imports : List Import) : List Char := (renderImports imports).toList

@[simp] theorem importLines_nil : importLines [] = [] := rfl

theorem importLines_singleton (i : Import) : importLines [i] = i.line := by
  rw [importLines, renderImports, unlines, toList_join, List.map_singleton, List.map_singleton,
    List.intercalate_singleton]
  rfl

theorem importLines_cons_cons (i j : Import) (more : List Import) :
    importLines (i :: j :: more) = i.line ++ '\n' :: importLines (j :: more) := by
  simp only [importLines, renderImports, unlines, toList_join, List.map_cons,
    List.intercalate_cons_cons]
  rw [List.append_assoc]
  rfl

/-- Every line ends with a semicolon. -/
theorem Import.exists_line_eq (i : Import) : ∃ l, i.line = l ++ [';'] := by
  rw [Import.line_eq]
  exact ⟨"import ".toList ++ i.defaultText ++ i.renderNamed.toList ++ i.wildcardText
      ++ "from '".toList ++ i.module.toList ++ ['\''], by simp⟩

/-- A foreign word occurs in the lines only inside the names and modules. -/
theorem infix_lines {w : List Char} (h : Foreign w)
    (start : ∀ v, w <:+: "import".toList ++ v → w <:+: v) {imports : List Import}
    (part : w <:+: importLines imports) : ∃ i ∈ imports, ∃ s ∈ i.parts, w <:+: s.toList := by
  have one : ∀ i : Import, w <:+: i.line → ∃ s ∈ i.parts, w <:+: s.toList := by
    intro i part
    have text := ImportBlock.line_append i []
    rw [List.append_nil] at text
    rw [text] at part
    exact h.exists_of_infix_body (start _ part)
  induction imports with
  | nil => exact absurd part h.not_infix_nil
  | cons i more ih =>
      cases more with
      | nil =>
          rw [importLines_singleton] at part
          exact ⟨i, by simp, one i part⟩
      | cons j more =>
          obtain ⟨l, hl⟩ := i.exists_line_eq
          have text : importLines (i :: j :: more)
              = l ++ [] ++ ';' :: (['\n'] ++ importLines (j :: more)) := by
            rw [importLines_cons_cons, hl]
            simp
          rw [text] at part
          rcases h.apart _ _ _ (by decide) (forall_mem_of_all (by decide))
            (forall_mem_of_all (by decide)) part with part | part
          · exact ⟨i, by simp, one i (part.trans ⟨[], [';'], by simp [hl]⟩)⟩
          · obtain ⟨k, hk, found⟩ := ih part
            exact ⟨k, List.mem_cons_of_mem _ hk, found⟩

/-! ## Lines on which nothing is found -/

/-- An illegible statement on whose line nothing else can be taken for a statement.  A quote in
its default import could make the rest of its line one. -/
structure Import.Mute (i : Import) : Prop where
  illegible : ¬ i.Legible
  default : ∀ d ∈ i.default, ∀ c ∈ d.toList, ImportBlock.isQuote c = false
  parts : ∀ s ∈ i.parts, ¬ "import".toList <:+: s.toList

namespace ImportBlock

theorem foreign_import : Foreign "import".toList where
  nonempty := by decide
  separators := forall_mem_of_all (by decide)
  head := by simp
  last := by simp

theorem silent_line {i : Import} (wf : i.WellFormed) (mute : i.Mute) (v : List Char) :
    Silent i.line v := by
  intro s hne hs
  by_cases whole : s = i.line
  · rw [whole]
    exact recognise_line_eq_none wf mute.illegible mute.default v
  · -- Behind its first letter, the line does not hold the word `import`.
    have later : s <:+: "mport".toList
        ++ ' ' :: (i.defaultText ++ (i.renderNamed.toList ++ i.endText [])) := by
      have text := line_append i []
      rw [List.append_nil] at text
      rw [text, show "import".toList = 'i' :: "mport".toList from rfl, List.cons_append,
        List.suffix_cons_iff] at hs
      rw [text] at whole
      exact (hs.resolve_left whole).isInfix
    have absent : ¬ "import".toList <:+: s := by
      intro part
      have body := (infix_append_left_iff (c := 'i') (by decide)).mp (part.trans later)
      obtain ⟨t, ht, part⟩ := foreign_import.exists_of_infix_body body
      exact mute.parts t ht part
    obtain ⟨l, hl⟩ := i.exists_line_eq
    rw [hl, List.suffix_concat_iff] at hs
    obtain ⟨s, rfl, -⟩ := hs.resolve_left hne
    refine recognise_eq_none ?_
    intro c r heq
    rcases List.append_eq_append_iff.mp heq with ⟨t, ht, -⟩ | ⟨t, ht, -⟩
    · have member : ';' ∈ "import".toList := by
        rw [ht]
        simp
      exact absurd member (by decide)
    · exact absurd ⟨[], t, by simp [ht]⟩ absent

/-! ## What is found in lines -/

/-- Each statement can be read back, or nothing is found on its line.  Then what is read of the
lines are the legible statements. -/
structure Readable (imports : List Import) : Prop where
  wellFormed : ∀ i ∈ imports, i.WellFormed
  settled : ∀ i ∈ imports, i.Legible ∨ i.Mute

theorem Readable.of_cons {i : Import} {more : List Import} (h : Readable (i :: more)) :
    Readable more :=
  ⟨fun j hj => h.wellFormed j (List.mem_cons_of_mem _ hj),
    fun j hj => h.settled j (List.mem_cons_of_mem _ hj)⟩

theorem Readable.mono {first second : List Import} (h : Readable second)
    (sub : ∀ i ∈ first, i ∈ second) : Readable first :=
  ⟨fun i hi => h.wellFormed i (sub i hi), fun i hi => h.settled i (sub i hi)⟩

/-- The line of a statement in front of a text adds the statement when it is legible. -/
theorem imports_line {i : Import} (wf : i.WellFormed) (settled : i.Legible ∨ i.Mute)
    (v : List Char) :
    (ofText (i.line ++ v)).imports
      = (if i.Legible then [i] else []) ++ (ofText v).imports := by
  rcases settled with legible | mute
  · obtain ⟨source, h⟩ := ofText_line wf legible v
    have behind : (ofText (';' :: v)).imports = (ofText v).imports := by
      rw [ofText_cons (by decide), imports_prepend]
    rw [h, if_pos legible, ← behind]
    rfl
  · rw [ofText_append (silent_line wf mute v), imports_prepend, if_neg mute.illegible,
      List.nil_append]

/-- **Exactly the legible statements are found in their lines**, and then those of the text
behind. -/
theorem imports_lines {imports : List Import} (h : Readable imports) (v : List Char) :
    (ofText (importLines imports ++ v)).imports
      = imports.filter (fun i => i.Legible) ++ (ofText v).imports := by
  induction imports with
  | nil => rfl
  | cons i more ih =>
      have first := imports_line (h.wellFormed i (by simp)) (h.settled i (by simp))
      have filtered : (i :: more).filter (fun i => i.Legible)
          = (if i.Legible then [i] else []) ++ more.filter (fun i => i.Legible) := by
        rw [List.filter_cons]
        split <;> simp_all
      cases more with
      | nil => rw [importLines_singleton, first, filtered, List.filter_nil, List.append_nil]
      | cons j more =>
          rw [importLines_cons_cons, List.append_assoc, first, List.cons_append,
            ofText_cons (by decide), imports_prepend, ih h.of_cons, filtered,
            List.append_assoc]

/-- Where the statements of some lines are found: from the first line, if that one is legible,
up to the semicolon of the last one. -/
theorem exists_found {imports : List Import} (h : Readable imports) (hne : imports ≠ [])
    (last : ∀ i ∈ imports.getLast?, i.Legible) (v : List Char) :
    ∃ p found, ofText (importLines imports ++ v)
        = ⟨p :: found ++ (ofText (';' :: v)).found, (ofText (';' :: v)).rest⟩ ∧
      (p :: found).map (·.statement) = imports.filter (fun i => i.Legible) ∧
      (∀ i ∈ imports.head?, i.Legible → p.before = []) := by
  induction imports with
  | nil => exact absurd rfl hne
  | cons i more ih =>
      have wf := h.wellFormed i (by simp)
      cases more with
      | nil =>
          have legible : i.Legible := last i rfl
          obtain ⟨source, hi⟩ := ofText_line wf legible v
          rw [importLines_singleton, hi]
          exact ⟨⟨[], source, i⟩, [], rfl, by simp [legible], fun _ _ _ => rfl⟩
      | cons j more =>
          obtain ⟨p, found, htext, hmap, -⟩ := ih h.of_cons (by simp) (by simpa using last)
          rw [importLines_cons_cons, List.append_assoc, List.cons_append]
          rcases h.settled i (by simp) with legible | mute
          · obtain ⟨source, hi⟩ := ofText_line wf legible
              ('\n' :: (importLines (j :: more) ++ v))
            rw [hi, ofText_cons (by decide), ofText_cons (by decide), htext]
            exact ⟨⟨[], source, i⟩, ⟨[';'] ++ (['\n'] ++ p.before), p.source, p.statement⟩ ::
              found, rfl,
              by simpa [legible] using hmap, fun _ _ _ => rfl⟩
          · rw [ofText_append (silent_line wf mute _), ofText_cons (by decide), htext]
            refine ⟨⟨i.line ++ (['\n'] ++ p.before), p.source, p.statement⟩, found, rfl,
              by simpa [mute.illegible] using hmap, ?_⟩
            rintro i' hi' legible
            obtain rfl : i = i' := by simpa using hi'
            exact absurd legible mute.illegible

/-! ## Other lines in their place -/

/-- Lines in front of a block, each with its newline. -/
def leadingLines (imports : List Import) : List Char :=
  imports.flatMap fun i => i.line ++ ['\n']

/-- Lines behind a block, each with the newline before it. -/
def trailingLines (imports : List Import) : List Char :=
  imports.flatMap fun i => '\n' :: i.line

theorem head?_importLines {imports : List Import} (hne : imports ≠ []) (v : List Char) :
    (importLines imports ++ v).head? = some 'i' := by
  have line : ∀ (i : Import) w, (i.line ++ w).head? = some 'i' := fun i w => by
    rw [line_append]; rfl
  obtain ⟨i, more, rfl⟩ := List.exists_cons_of_ne_nil hne
  cases more with
  | nil => rw [importLines_singleton, line]
  | cons j more => rw [importLines_cons_cons, List.append_assoc, line]

theorem importLines_ne_nil {imports : List Import} (hne : imports ≠ []) :
    importLines imports ≠ [] := by
  intro nothing
  have head := head?_importLines hne []
  rw [nothing] at head
  cases head

theorem line_infix_importLines {i : Import} {imports : List Import} (hi : i ∈ imports) :
    i.line <:+: importLines imports :=
  infix_join (List.mem_map_of_mem hi)

/-- New lines are put behind what stands in front of the old block, or in front of all. -/
theorem exists_splice (b : ImportBlock) {lines : List Char} (full : lines ≠ []) :
    ∃ back, b.splice lines = b.front.getD [] ++ lines ++ back := by
  unfold splice
  cases b.front with
  | some front => exact ⟨b.back, rfl⟩
  | none =>
      dsimp only
      rw [if_neg (by simpa using full)]
      exact ⟨'\n' :: b.rest, by simp⟩

theorem importLines_append_left {front imports : List Import} (hne : imports ≠ []) :
    importLines (front ++ imports) = leadingLines front ++ importLines imports := by
  induction front with
  | nil => rfl
  | cons i front ih =>
      obtain ⟨j, more, hj⟩ := List.exists_cons_of_ne_nil (l := front ++ imports)
        (by simp [hne])
      rw [List.cons_append, hj, importLines_cons_cons, ← hj, ih]
      simp [leadingLines]

theorem importLines_append_right {imports back : List Import} (hne : imports ≠ []) :
    importLines (imports ++ back) = importLines imports ++ trailingLines back := by
  induction imports with
  | nil => exact absurd rfl hne
  | cons i more ih =>
      cases more with
      | nil =>
          rw [importLines_singleton]
          clear hne ih
          induction back generalizing i with
          | nil => simp [importLines_singleton, trailingLines]
          | cons j back ih =>
              have next := ih j
              rw [List.singleton_append] at next ⊢
              rw [importLines_cons_cons, next]
              simp [trailingLines]
      | cons j more =>
          rw [List.cons_append, List.cons_append, importLines_cons_cons, ← List.cons_append,
            ih (by simp), importLines_cons_cons]
          simp

theorem leadingLines_eq {imports : List Import} (hne : imports ≠ []) :
    leadingLines imports = importLines imports ++ ['\n'] := by
  induction imports with
  | nil => exact absurd rfl hne
  | cons i more ih =>
      cases more with
      | nil => simp [leadingLines, importLines_singleton]
      | cons j more =>
          have next := ih (by simp)
          rw [importLines_cons_cons, List.append_assoc, List.cons_append, ← next]
          simp [leadingLines]

theorem trailingLines_eq {imports : List Import} (hne : imports ≠ []) :
    trailingLines imports = '\n' :: importLines imports := by
  induction imports with
  | nil => exact absurd rfl hne
  | cons i more ih =>
      cases more with
      | nil => simp [trailingLines, importLines_singleton]
      | cons j more =>
          have next := ih (by simp)
          rw [importLines_cons_cons, ← next]
          simp [trailingLines]

theorem silent_leadingLines {imports : List Import} (wf : ∀ i ∈ imports, i.WellFormed)
    (mute : ∀ i ∈ imports, i.Mute) (v : List Char) : Silent (leadingLines imports) v := by
  induction imports with
  | nil => exact silent_nil v
  | cons i more ih =>
      rw [leadingLines, List.flatMap_cons, silent_append, silent_append]
      exact ⟨⟨silent_line (wf i (by simp)) (mute i (by simp)) _,
        silent_of_not_mem (by decide) _⟩,
        ih (fun j hj => wf j (List.mem_cons_of_mem _ hj)) fun j hj =>
        mute j (List.mem_cons_of_mem _ hj)⟩

theorem silent_trailingLines {imports : List Import} (wf : ∀ i ∈ imports, i.WellFormed)
    (mute : ∀ i ∈ imports, i.Mute) (v : List Char) : Silent (trailingLines imports) v := by
  induction imports with
  | nil => exact silent_nil v
  | cons i more ih =>
      rw [trailingLines, List.flatMap_cons, ← List.singleton_append, silent_append,
        silent_append]
      exact ⟨⟨silent_of_not_mem (by decide) _,
        silent_line (wf i (by simp)) (mute i (by simp)) _⟩,
        ih (fun j hj => wf j (List.mem_cons_of_mem _ hj)) fun j hj =>
        mute j (List.mem_cons_of_mem _ hj)⟩

/-! ## Which lines belong to the block -/

/-- Statements cut around the block that is read back from their lines: it goes from the first
legible statement to the last one.  The illegible ones between these are within the block, and
are lost. -/
structure Cut (imports front middle back : List Import) : Prop where
  eq : imports = front ++ middle ++ back
  nonempty : middle ≠ []
  front : ∀ i ∈ front, ¬ i.Legible
  back : ∀ i ∈ back, ¬ i.Legible
  first : ∀ i ∈ middle.head?, i.Legible
  last : ∀ i ∈ middle.getLast?, i.Legible

theorem exists_cut {imports : List Import} (h : ∃ i ∈ imports, i.Legible) :
    ∃ front middle back, Cut imports front middle back := by
  induction imports with
  | nil =>
      obtain ⟨i, hi, -⟩ := h
      cases hi
  | cons i more ih =>
      by_cases later : ∃ j ∈ more, j.Legible
      · obtain ⟨front, middle, back, rfl, hne, hf, hb, first, last⟩ := ih later
        by_cases legible : i.Legible
        · refine ⟨[], i :: front ++ middle,
            back, by simp, by simp, by simp, hb, by simpa using legible, ?_⟩
          intro j hj
          rw [List.getLast?_append_of_ne_nil _ hne] at hj
          exact last j hj
        · refine ⟨i :: front, middle, back, by simp, hne, ?_, hb, first, last⟩
          intro j hj
          rcases List.mem_cons.mp hj with rfl | hj
          · exact legible
          · exact hf j hj
      · have legible : i.Legible := by
          obtain ⟨j, hj, legible⟩ := h
          rcases List.mem_cons.mp hj with rfl | hj
          · exact legible
          · exact absurd ⟨j, hj, legible⟩ later
        exact ⟨[], [i], more, by simp, by simp, by simp, fun j hj hl => later ⟨j, hj, hl⟩,
          by simpa using legible, by simpa using legible⟩

namespace Cut

variable {imports front middle back : List Import} (h : Cut imports front middle back)
include h

theorem mem_of_mem_middle {i : Import} (hi : i ∈ middle) : i ∈ imports := by
  rw [h.eq]
  simp [hi]

theorem filter_eq : imports.filter (fun i => i.Legible) = middle.filter fun i =>
    i.Legible := by
  have none_ : ∀ {l : List Import}, (∀ i ∈ l, ¬ i.Legible) → l.filter (fun i => i.Legible)
      = [] := by
    intro l hl
    rw [List.filter_eq_nil_iff]
    intro i hi
    simpa using hl i hi
  rw [h.eq, List.filter_append, List.filter_append, none_ h.front, none_ h.back,
    List.nil_append,
    List.append_nil]

theorem importLines_eq : importLines imports = leadingLines front ++ importLines middle
      ++ trailingLines back := by
  rw [h.eq, importLines_append_right (by simp [h.nonempty]),
    importLines_append_left h.nonempty]

/-- **Reading a block that has been written**: nothing is found on the lines around the block,
so they stay outside of it. -/
theorem ofText_eq (readable : Readable imports) {u v : List Char} (hu : Calm u)
    (hv : Silent v []) :
    (ofText (u ++ importLines imports ++ v)).imports = imports.filter (fun i => i.Legible) ∧
      (ofText (u ++ importLines imports ++ v)).front = some (u ++ leadingLines front) ∧
      (ofText (u ++ importLines imports ++ v)).back = trailingLines back ++ v := by
  have wf : ∀ {i}, i ∈ front ∨ i ∈ middle ∨ i ∈ back → i.WellFormed := by
    intro i hi
    refine readable.wellFormed i ?_
    rw [h.eq]
    simpa [or_assoc] using hi
  have mute : ∀ {i}, i ∈ front ∨ i ∈ back → ¬ i.Legible → i.Mute := by
    intro i hi
    refine (readable.settled i ?_).resolve_left
    rw [h.eq]
    rcases hi with hi | hi <;> simp [hi]
  have readableMiddle : Readable middle := readable.mono fun i => h.mem_of_mem_middle
  obtain ⟨p, found, htext, hmap, hbefore⟩ :=
    exists_found readableMiddle h.nonempty h.last (trailingLines back ++ v)
  have silentBack : Silent (';' :: (trailingLines back ++ v)) [] := by
    rw [← List.singleton_append, silent_append, silent_append]
    exact ⟨silent_of_not_mem (by decide) _,
      silent_trailingLines (fun i hi => wf (.inr (.inr hi)))
      (fun i hi => mute (.inr hi) (h.back i hi)) _, hv⟩
  have before : p.before = [] := by
    obtain ⟨i, more, rfl⟩ := List.exists_cons_of_ne_nil h.nonempty
    exact hbefore i rfl (h.first i rfl)
  -- The three parts of the statements are separated by what can be read: nothing in front,
  -- nothing behind, and all of the middle.
  have silentFront : Silent (u ++ leadingLines front)
      (importLines middle ++ (trailingLines back ++ v)) := by
    rw [silent_append]
    refine ⟨hu.silent ?_, silent_leadingLines (fun i hi => wf (.inl hi))
      (fun i hi => mute (.inl hi) (h.front i hi)) _⟩
    intro c hc
    rw [← List.append_assoc, ← importLines_append_left h.nonempty,
      head?_importLines (by simp [h.nonempty]),
      Option.mem_some_iff] at hc
    rw [← hc]
    decide
  have text : u ++ importLines imports ++ v
      = u ++ leadingLines front ++ (importLines middle ++ (trailingLines back ++ v)) := by
    rw [h.importLines_eq]
    simp
  rw [text, ofText_append silentFront, htext, ofText_of_silent silentBack, imports_prepend]
  refine ⟨?_, ?_, ?_⟩
  · rw [h.filter_eq]
    simpa [ImportBlock.imports] using hmap
  · simp [prepend, ImportBlock.front, before]
  · rfl

end Cut

/-- **Reading undoes writing**, when all statements are legible. -/
theorem ofText_lines {imports : List Import} (wf : ∀ i ∈ imports, i.WellFormed)
    (legible : ∀ i ∈ imports, i.Legible)
    (hne : imports ≠ []) {u v : List Char} (hu : Calm u) (hv : Silent v []) :
    (ofText (u ++ importLines imports ++ v)).imports = imports ∧
      (ofText (u ++ importLines imports ++ v)).front = some u ∧
      (ofText (u ++ importLines imports ++ v)).back = v := by
  have readable : Readable imports := ⟨wf, fun i hi => .inl (legible i hi)⟩
  have cut : Cut imports [] imports [] := ⟨by simp, hne, by simp, by simp,
    fun i hi => legible i (List.mem_of_mem_head? hi), fun i hi =>
      legible i (List.mem_of_getLast? hi)⟩
  have all : imports.filter (fun i => i.Legible) = imports := by
    rw [List.filter_eq_self]
    intro i hi
    simpa using legible i hi
  have block := cut.ofText_eq readable hu hv
  rw [all] at block
  simpa [leadingLines, trailingLines] using block

/-- No line can be left out without changing the text. -/
theorem filter_eq_self_of_importLines {imports : List Import} (p : Import → Bool)
    (hne : imports.filter p ≠ []) (h : importLines (imports.filter p) = importLines imports) :
    imports.filter p = imports := by
  have shorter : ∀ l : List Import, (leadingLines (l.filter p)).length
      ≤ (leadingLines l).length := by
    intro l
    exact (List.filter_sublist.flatMap _).length_le
  have same : leadingLines (imports.filter p) = leadingLines imports := by
    have all : imports ≠ [] := by
      rintro rfl
      exact hne rfl
    rw [leadingLines_eq hne, leadingLines_eq all, h]
  replace same := congrArg List.length same
  clear hne h
  rw [List.filter_eq_self]
  induction imports with
  | nil => simp
  | cons i more ih =>
      cases hi : p i with
      | true =>
          rw [List.filter_cons_of_pos hi] at same
          have rest := ih (by simpa [leadingLines] using same)
          intro j hj
          rcases List.mem_cons.mp hj with rfl | hj
          · exact hi
          · exact rest j hj
      | false =>
          rw [List.filter_cons_of_neg (by simp [hi])] at same
          have := shorter more
          simp only [leadingLines, List.flatMap_cons, List.length_append,
            List.length_singleton] at same this
          omega

end ImportBlock

end Attestation
