import Attestation.Proofs.Script.SectionReading
import Attestation.Proofs.Text.Filling
import Attestation.Verifier.ServiceSource

/-!
# The text of a service

A service script is searched for tags and for import statements.  Neither stands in the text
that every service has, unless one of the names that are filled in brings it.

## Design notes

The text is gone through line by line, where each line is a fixed text with names in it.  A
word can only come in with a name, or where a name meets the text around it, and the fixed
texts are such that this does not happen (`lacks_fill`).
-/

namespace Attestation.Verifier

open Text CustomSection

/-- What every import statement starts with. -/
def importWord : List Char := ['i', 'm', 'p', 'o', 'r', 't']

/-- What every tag and every import statement starts with. -/
def searchWords : List (List Char) := [mark, importWord]

/-- The text does not hold the word.  Tags and the word `import` are looked for anywhere in a
script, so a script is safe only if each of its texts lacks them. -/
def Lacks (w : List Char) (s : String) : Prop := ¬ w <:+: s.toList

section Fixed

variable {w : List Char} (hne : w ≠ [])

theorem lacks_of_chars {s : String} (cs : List Char) (h : String.ofList cs = s)
    (absent : decide (w <:+: cs) = false) : Lacks w s :=
  of_chars (P := fun cs => ¬ w <:+: cs) cs h (of_decide_eq_false absent)

include hne

theorem lacks_of_closed {s : String} (h : Closed w s.toList) : Lacks w s := h.absent hne

theorem closed_of_chars {s : String} (cs : List Char) (h : String.ofList cs = s)
    (fixed : fixes w cs = true) : Closed w s.toList :=
  of_chars (P := Closed w) cs h (closed_of_fixes hne fixed)

theorem closed_fill {before name behind : String} (h : Closed w before.toList)
    (hn : Lacks w name)
    (cs : List Char) (heq : String.ofList cs = behind) (fixed : fixes w cs = true) :
    Closed w (before ++ name ++ behind).toList :=
  h.fill hne hn (of_chars (P := fun cs => fixes w cs = true) cs heq fixed)

/-- Fixed text behind a name. -/
theorem lacks_fill {name behind : String} (hn : Lacks w name) (cs : List Char)
    (heq : String.ofList cs = behind) (fixed : fixes w cs = true) :
    Lacks w (name ++ behind) := by
  have nothing : Closed w "".toList := fun v part => part
  have filled := closed_fill hne nothing hn cs heq fixed
  rw [String.empty_append] at filled
  exact lacks_of_closed hne filled

end Fixed

section Lines

variable {w : List Char} (hw : w ∈ searchWords) {p t : String} (ht : Lacks w t)
include hw

theorem ne_nil_of_mem_searchWords : w ≠ [] := by
  simp only [searchWords, List.mem_cons, List.not_mem_nil, or_false] at hw
  rcases hw with rfl | rfl <;> decide

theorem newline_not_mem_of_mem_searchWords : '\n' ∉ w := by
  simp only [searchWords, List.mem_cons, List.not_mem_nil, or_false] at hw
  rcases hw with rfl | rfl <;> decide

include ht

set_option maxRecDepth 2000 in
/-- The lines that every service has hold no word that a script is searched for. -/
theorem lacks_serviceLines (hp : Lacks w p) {sourceId : String} (hs : Lacks w sourceId) :
    ∀ line ∈ serviceHead p t ++ serviceMiddle t sourceId ++ serviceTail t, Lacks w line := by
  have hne := ne_nil_of_mem_searchWords hw
  simp only [searchWords, List.mem_cons, List.not_mem_nil, or_false] at hw
  simp only [serviceHead, serviceMiddle, serviceTail, List.cons_append, List.nil_append,
    List.forall_mem_cons, toString]
  -- A line is fixed text, or fixed text around names.
  rcases hw with rfl | rfl
  all_goals
    repeat' apply And.intro
    all_goals
      first
        | with_reducible exact lacks_of_chars _ rfl (by decide +kernel)
        | (with_reducible refine lacks_of_closed hne ?_
           repeat
             with_reducible
               refine closed_fill hne ?_ (by assumption) _ rfl (by decide +kernel)
           with_reducible exact closed_of_chars hne _ rfl (by decide +kernel))
        | simp

theorem lacks_defaultVerify : Lacks w (defaultVerify t) := by
  have hne := ne_nil_of_mem_searchWords hw
  refine not_infix_unlines hne (newline_not_mem_of_mem_searchWords hw) ?_
  show ∀ line ∈ _, Lacks w line
  simp only [searchWords, List.mem_cons, List.not_mem_nil, or_false] at hw
  simp only [List.forall_mem_cons, toString]
  rcases hw with rfl | rfl
  all_goals
    repeat' apply And.intro
    all_goals
      first
        | with_reducible exact lacks_of_chars _ rfl (by decide +kernel)
        | (with_reducible refine lacks_of_closed hne ?_
           repeat
             with_reducible
               refine closed_fill hne ?_ (by assumption) _ rfl (by decide +kernel)
           with_reducible exact closed_of_chars hne _ rfl (by decide +kernel))
        | simp

end Lines

/-- A name in quotes, behind another text. -/
theorem lacks_quoted {w : List Char} (hne : w ≠ []) (quote : '"' ∉ w) {a b : String}
    (ha : Lacks w a)
    (hb : Lacks w b) : Lacks w (a ++ "\"" ++ b ++ "\"") := by
  have text : (a ++ "\"" ++ b ++ "\"").toList
      = a.toList ++ '"' :: (b.toList ++ '"' :: []) := by simp
  unfold Lacks
  rw [text, infix_append_cons_iff quote, infix_append_cons_iff quote]
  rintro (part | part | part)
  · exact ha part
  · exact hb part
  · exact hne (List.infix_nil.mp part)

/-! ## The sections of a service -/

theorem lacks_append {w : List Char} {a b : String} (ha : Closed w a.toList) (hb : Lacks w b) :
    Lacks w (a ++ b) := by
  unfold Lacks
  rw [String.toList_append]
  exact fun part => hb (ha _ part)

/-- A section between other lines is read back. -/
theorem extract_unlines {before after : List String} {indent name code : String}
    {s : List Char}
    (hindent : indent.toList = s ++ [' ']) (blanks : ∀ c ∈ s, c = ' ') (hb : before ≠ [])
    (ha : after ≠ []) (hname : ' ' ∉ name.toList ∧ '\n' ∉ name.toList)
    (hbefore : ∀ line ∈ before, ¬ (openingTag name).toList <:+: line.toList)
    (hcode : Lacks mark code) (trimmed : Trimmed code.toList) :
    extract (unlines (before ++ sectionLines indent name code ++ after)) name = some code := by
  have slash : ∀ {u : List Char}, (∀ c ∈ u, c = ' ') → '/' ∉ u := by
    intro u hu hc
    exact absurd (hu _ hc) (by decide)
  have newline : '\n' ∉ (openingTag name).toList ∧ '\n' ∉ (closingTag name).toList := by
    rw [toList_openingTag, toList_closingTag]
    simp [mark, hname.2]
  have nonempty : (openingTag name).toList ≠ [] := by
    rw [toList_openingTag]
    simp [mark]
  -- The text is split at its two tags, and the reader must find the first of them: no opening
  -- tag stands in front, and neither the blanks nor the code hold a mark.
  have lines : (unlines (sectionLines indent name code)).toList
      = s ++ ' ' :: ((openingTag name).toList
        ++ (" Start of custom code section. Do not change this comment.".toList
        ++ '\n' :: ('\n' :: (s ++ ' ' :: (code.toList ++ '\n' :: '\n' :: s))
          ++ ' ' :: ((closingTag name).toList
          ++ " End of custom code section. Do not change this comment.".toList)))) := by
    simp [sectionLines, unlines, toList_join, List.intercalate_cons_cons, hindent,
      opening, closing]
  have text : (unlines (before ++ sectionLines indent name code ++ after)).toList
      = ((unlines before).toList ++ '\n' :: s) ++ ' ' :: ((openingTag name).toList
        ++ (" Start of custom code section. Do not change this comment.".toList
        ++ '\n' :: (('\n' :: (s ++ ' ' :: (code.toList ++ '\n' :: '\n' :: s)))
          ++ ' ' :: ((closingTag name).toList
          ++ (" End of custom code section. Do not change this comment.".toList
            ++ '\n' :: (unlines after).toList))))) := by
    rw [unlines_append (by simp [sectionLines]) ha,
      unlines_append hb (by simp [sectionLines]), lines]
    simp
  rw [extract_eq_some hname.1 ?_ (by decide +kernel) ?_ text]
  · have pad := trim_pad (p := '\n' :: (s ++ [' '])) (q := '\n' :: '\n' :: s) code.toList ?_ ?_
    · have padded : '\n' :: (s ++ ' ' :: (code.toList ++ '\n' :: '\n' :: s))
          = '\n' :: (s ++ [' ']) ++ code.toList ++ '\n' :: '\n' :: s := by simp
      rw [padded, pad, trimmed, String.ofList_toList]
    · intro c hc
      simp only [List.mem_cons, List.mem_append, List.not_mem_nil, or_false] at hc
      rcases hc with rfl | hc | rfl
      · decide
      · rw [blanks c hc]; decide
      · decide
    · intro c hc
      simp only [List.mem_cons] at hc
      rcases hc with rfl | rfl | hc
      · decide
      · decide
      · rw [blanks c hc]; decide
  · rw [infix_append_cons_iff newline.1, not_or]
    refine ⟨not_infix_unlines nonempty newline.1 hbefore, fun part => ?_⟩
    exact slash blanks ((mark_prefix_openingTag name).isInfix.trans part |>.subset (by decide))
  · intro part
    have part := (mark_prefix_closingTag name).isInfix.trans part
    have front : '\n' :: (s ++ ' ' :: (code.toList ++ '\n' :: '\n' :: s))
        = ('\n' :: (s ++ [' '])) ++ (code.toList ++ '\n' :: ('\n' :: s)) := by simp
    rw [front] at part
    have outside : '/' ∉ '\n' :: (s ++ [' ']) := by
      simp [slash blanks]
    have part : mark <:+: code.toList ++ '\n' :: ('\n' :: s) :=
      (infix_append_left_iff outside).mp part
    rw [infix_append_cons_iff (by decide)] at part
    refine part.elim hcode fun part => ?_
    have member : '/' ∈ '\n' :: s := part.subset (by decide)
    simp [slash blanks] at member

/-- Both sections of a service script are read back. -/
theorem extract_renderService {o : Options} {n : Names} {imports : List Import}
    {constructorCode verifyCode : String} (hi : ¬ mark <:+: importLines imports)
    (hp : Lacks mark n.classPrefix) (ht : Lacks mark n.attestationType)
    (hs : Lacks mark (o.testnetPrefix ++ "\"" ++ n.dataSource ++ "\""))
    (hc : Lacks mark constructorCode) (hct : Trimmed constructorCode.toList)
    (hv : Lacks mark verifyCode) (hvt : Trimmed verifyCode.toList) :
    extract (renderService o n imports constructorCode verifyCode) constructorSection
      = some constructorCode ∧
      extract (renderService o n imports constructorCode verifyCode) verifySection
        = some verifyCode := by
  have lines := lacks_serviceLines (w := mark) (by simp [searchWords]) ht hp hs
  have noTag : ∀ {name line : String}, Lacks mark line → ¬ (openingTag name).toList
      <:+: line.toList :=
    fun h part => h ((mark_prefix_openingTag _).isInfix.trans part)
  have headTag : ∀ name, ∀ line ∈ renderImports imports :: serviceHead n.classPrefix
    n.attestationType,
      ¬ (openingTag name).toList <:+: line.toList := by
    intro name line hline
    rcases List.mem_cons.mp hline with rfl | hline
    · exact noTag hi
    · exact noTag (lines line (by simp [hline]))
  constructor
  · have text : renderService o n imports constructorCode verifyCode
        = unlines ((renderImports imports :: serviceHead n.classPrefix n.attestationType)
          ++ sectionLines "    " constructorSection constructorCode
          ++ (serviceMiddle n.attestationType (o.testnetPrefix ++ "\"" ++ n.dataSource ++ "\"")
            ++ sectionLines "        " verifySection verifyCode
              ++ serviceTail n.attestationType)) := by
      simp [renderService]
    rw [text]
    exact extract_unlines (s := [' ', ' ', ' ']) (by decide) (forall_mem_of_all (by decide))
      (by simp) (by simp [sectionLines])
      (by decide) (headTag _) hc hct
  · have text : renderService o n imports constructorCode verifyCode
        = unlines ((renderImports imports :: serviceHead n.classPrefix n.attestationType
          ++ sectionLines "    " constructorSection constructorCode
          ++ serviceMiddle n.attestationType (o.testnetPrefix ++ "\"" ++ n.dataSource ++ "\""))
            ++ sectionLines "        " verifySection verifyCode
              ++ serviceTail n.attestationType) := by
      simp [renderService]
    rw [text]
    refine extract_unlines (s := [' ', ' ', ' ', ' ', ' ', ' ', ' ']) (by decide)
      (forall_mem_of_all (by decide)) (by simp)
      (by simp [serviceTail]) (by decide) ?_ hv hvt
    intro line hline
    rw [List.mem_append, List.mem_append] at hline
    rcases hline with (hline | hline) | hline
    · exact headTag _ line hline
    · -- The other section has tags of its own.
      simp only [sectionLines, List.mem_cons, List.not_mem_nil, or_false] at hline
      rcases hline with rfl | rfl | rfl | rfl | rfl
      · decide +kernel
      · decide +kernel
      · refine noTag (lacks_append (closed_of_chars (by decide) _ rfl (by decide +kernel)) hc)
      · decide +kernel
      · decide +kernel
    · exact noTag (lines line (by simp [hline]))

/-! ## The code of a new service -/

theorem trimmed_unlines {lines : List String} (first last : String)
    (hf : lines.head? = some first)
    (hl : lines.getLast? = some last) {c d : Char} {r t : List Char}
    (front : first.toList = c :: r)
    (back : last.toList = t ++ [d]) (hc : isBlank c = false) (hd : isBlank d = false) :
    Trimmed (unlines lines).toList := by
  have starts : ∃ r, (unlines lines).toList = c :: r := by
    obtain ⟨more, rfl⟩ := List.head?_eq_some_iff.mp hf
    cases more with
    | nil => exact ⟨r, by simp [unlines, toList_join, front]⟩
    | cons next more =>
        rw [← List.singleton_append, unlines_append (by simp) (by simp)]
        exact ⟨_, by simp [unlines, toList_join, front]; rfl⟩
  have ends : ∃ t, (unlines lines).toList = t ++ [d] := by
    obtain ⟨init, rfl⟩ := List.getLast?_eq_some_iff.mp hl
    by_cases hinit : init = []
    · exact ⟨t, by simp [hinit, unlines, toList_join, back]⟩
    · rw [unlines_append hinit (by simp)]
      refine ⟨(unlines init).toList ++ '\n' :: t, ?_⟩
      simp [unlines, toList_join, back]
  obtain ⟨r, hr⟩ := starts
  obtain ⟨t, ht⟩ := ends
  exact trimmed_of_ends hc hd hr ht

theorem trimmed_defaultConstructor (typeDefinitions example_ t : String) :
    Trimmed (defaultConstructor typeDefinitions example_ t).toList :=
  trimmed_unlines "// Add additional class members here." "    \x7d" rfl rfl (c := '/')
    (d := '\x7d') (r := "/ Add additional class members here.".toList)
    (t := [' ', ' ', ' ', ' ']) (by decide +kernel) (by decide +kernel) (by decide) (by decide)

theorem trimmed_defaultVerify (t : String) : Trimmed (defaultVerify t).toList :=
  trimmed_unlines "return \x7b" "        \x7d;" rfl rfl (c := 'r') (d := ';')
    (r := "eturn \x7b".toList)
    (t := "        \x7d".toList) (by decide +kernel) (by decide +kernel) (by decide)
    (by decide)

/-- The constructor of a new service holds a word that a script is searched for only inside the
names that are filled in, or where the path of the examples and the type meet. -/
theorem lacks_defaultConstructor {w : List Char} (hw : w ∈ searchWords)
    {typeDefinitions example_ t : String}
    (hd : Lacks w typeDefinitions) (he : Lacks w (example_ ++ "/" ++ t)) :
    Lacks w (defaultConstructor typeDefinitions example_ t) := by
  have hne := ne_nil_of_mem_searchWords hw
  have newline := newline_not_mem_of_mem_searchWords hw
  have file :
    (s!"        this.exampleData = JSON.parse(readFileSync(\"{example_}/{t}.json\", \"utf8\"));" : String)
      = "        this.exampleData = JSON.parse(readFileSync(\"" ++ (example_ ++ "/" ++ t)
        ++ ".json\", \"utf8\"));" := by
    simp only [toString, String.append_assoc]
  refine not_infix_unlines hne newline ?_
  show ∀ line ∈ _, Lacks w line
  rw [file]
  simp only [searchWords, List.mem_cons, List.not_mem_nil, or_false] at hw
  simp only [List.forall_mem_cons, toString]
  rcases hw with rfl | rfl
  all_goals
    repeat' apply And.intro
    all_goals
      first
        | with_reducible exact lacks_of_chars _ rfl (by decide +kernel)
        | (with_reducible refine lacks_of_closed hne ?_
           repeat
             with_reducible
               refine closed_fill hne ?_ (by assumption) _ rfl (by decide +kernel)
           with_reducible exact closed_of_chars hne _ rfl (by decide +kernel))
        | simp

end Attestation.Verifier
