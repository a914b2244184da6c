import Attestation.Proofs.Script.ImportGaps
import Attestation.Proofs.Verifier.WiringTwice

/-!
# What wiring does with the text between imports

Wiring puts the merged statements in the place of the import block, which goes from the first
statement to the last.  It never looks at what stands between two of them
(`wire_eq_of_sameAround`), so nothing of it is kept for its own sake (`keeps_between_iff`).

## Design notes

That a text is kept cannot be said by its occurrence in the result, for the same characters may
stand there for another reason.  It is said by a function of the result instead: if what stands
between the statements could be recovered from the text that is wired, then two modules that
differ in it would be wired to different texts.  They are not, as soon as there are two
statements.
-/

namespace Attestation.Verifier

open Text ImportBlock

variable {here : Path} {o : Options} {n : Names} {clear : Bool}
  {content content' d : List Char}

/-- Texts that differ only between their statements are wired in the same way. -/
theorem wire_eq_of_sameAround (same : SameAround (ofText content) (ofText content')) :
    wire here o n clear content = wire here o n clear content' := by
  simp only [wire, wireImports, same.imports, same.splice_eq]

/-- A comment of some length on a line of its own. -/
def commentLine (size : Nat) : List Char := '\n' :: '/' :: (List.replicate size '/' ++ ['\n'])

theorem breaks_commentLine (size : Nat) (v : List Char) : Breaks (commentLine size ++ v) :=
  ⟨'/', _, rfl, by decide, by decide⟩

theorem i_not_mem_commentLine (size : Nat) : 'i' ∉ commentLine size := by
  simp [commentLine, List.mem_replicate]

theorem length_trim_commentLine (size : Nat) :
    (trim (behindSemicolon (commentLine size))).length = size + 1 := by
  have slashes : Trimmed ('/' :: List.replicate size '/') :=
    trimmed_of_no_blank (by
      intro c hc
      rw [← List.replicate_succ, List.mem_replicate] at hc
      rw [hc.2]
      decide)
  have text : behindSemicolon (commentLine size) = ['\n'] ++ ('/' :: List.replicate size '/')
      ++ ['\n'] := by
    simp [commentLine, behindSemicolon]
  rw [text, trim_pad _ (forall_mem_of_all (by decide))
    (forall_mem_of_all (by decide)), slashes]
  simp

/-- **The text between imports is lost.**  Wiring gives the same result whatever stands there.
So what stands there is sure to be found in the result only if there are no two statements.
The block reaches from the first statement to the last one, and it is replaced as a whole. -/
theorem keeps_between_iff (h : wire here o n clear content = .ok d) :
    (∀ content', SameAround (ofText content) (ofText content') →
      wire here o n clear content' = .ok d) ∧
      ((∀ content', SameAround (ofText content) (ofText content') →
          ∀ piece ∈ (ofText content').between, trim piece ≠ [] → trim piece <:+: d) ↔
        (ofText content).imports.length ≤ 1) := by
  refine ⟨fun content' same => (wire_eq_of_sameAround same).symm.trans h, fun kept => ?_,
    fun few content' same => ?_⟩
  · by_contra many
    rw [ImportBlock.imports, List.length_map, not_le] at many
    obtain ⟨p, q, more, found⟩ : ∃ p q more, (ofText content).found = p :: q :: more := by
      rcases hf : (ofText content).found with _ | ⟨p, _ | ⟨q, more⟩⟩
      · simp [hf] at many
      · simp [hf] at many
      · exact ⟨p, q, more, rfl⟩
    -- A comment that is longer than the result does not stand in it.
    have block := ofText_refill (fun v => breaks_commentLine d.length ('i' :: v))
      (i_not_mem_commentLine d.length) found
    have same := sameAround_refill (fun v => breaks_commentLine d.length ('i' :: v))
      (i_not_mem_commentLine d.length) content (by simp [found])
    have size := length_trim_commentLine d.length
    have inside := kept _ same (behindSemicolon (commentLine d.length))
      (by simp [block, between]) (by
      intro nothing
      rw [nothing] at size
      cases size)
    have short := inside.length_le
    omega
  · intro piece hp
    have none_ : (ofText content').between = [] := by
      rw [← List.length_eq_zero_iff, ← same.length_between, between, List.length_map,
        List.length_tail]
      rw [ImportBlock.imports, List.length_map] at few
      omega
    rw [none_] at hp
    cases hp

/-! ## Characters that come from nowhere -/

section NotMem

variable {c : Char}

theorem not_mem_wireArray {name className : String} (hname : name ∈ arrayNames)
    (hc : c ≠ ',' ∧ c ≠ ' ')
    (h : wireArray name className clear content = .ok d) (outside : c ∉ content)
    (fresh : c ∉ className.toList) :
    c ∉ d := by
  obtain ⟨a, found, same⟩ : ∃ a, ArrayLiteral.extract (.array name) content = .ok a ∧
      d = (if clear then a.erase className else a.push className).text := by
    rw [wireArray] at h
    cases found : ArrayLiteral.extract (.array name) content with
    | error e => rw [found] at h; cases h
    | ok a =>
        rw [found] at h
        cases h
        exact ⟨a, rfl, rfl⟩
  obtain ⟨text, -, reads⟩ :=
    (ArrayLiteral.extract_eq_ok_iff (isArrayName hname).unbracketed).mp found
  rw [text] at outside
  simp only [List.mem_append, List.mem_cons, not_or] at outside
  -- Entries stand between the brackets, but for the class.
  have joined : ∀ entries : List String, (∀ e ∈ entries, e ∈ a.entries ∨ e = className) →
      c ∉ (join ", " entries).toList := by
    intro entries listed inside
    rcases mem_join inside with inside | ⟨e, he, inside⟩
    · simp [hc.1, hc.2] at inside
    · rcases listed e he with he | rfl
      · exact outside.1.2.2 ((reads.isEntry e he).2.subset inside)
      · exact fresh inside
  have framed : ∀ entries : List String, (∀ e ∈ entries, e ∈ a.entries ∨ e = className) →
      c ∉ ArrayLiteral.text { a with entries := entries } := by
    intro entries listed
    simp only [ArrayLiteral.text, List.mem_append, List.mem_cons, not_or]
    exact ⟨⟨outside.1.1, outside.1.2.1, joined entries listed⟩, outside.2⟩
  rw [same]
  cases clear with
  | true => exact framed _ fun e he => .inl (List.mem_of_mem_filter he)
  | false =>
      refine framed _ fun e he => ?_
      rcases List.mem_append.mp he with he | he
      · exact .inl (List.mem_of_mem_filter he)
      · exact .inr (List.mem_singleton.mp he)

/-- What wiring writes is made of the text around the block, the parts of the statements, and
the fixed text between. -/
theorem not_mem_wire (foreign : Foreign [c]) (word : c ∉ "import".toList)
    (h : wire here o n clear content = .ok d)
    (hfront : ∀ front ∈ (ofText content).front, c ∉ front)
    (hrest : c ∉ (ofText content).rest)
    (parts : ∀ i ∈ own here o n ++ (ofText content).imports, ∀ s ∈ i.parts, c ∉ s.toList) :
    c ∉ d := by
  have apart := foreign.separators
  have start := foreign.head c rfl
  simp only [List.mem_cons, List.not_mem_nil, or_false, not_or] at apart start
  have comma : c ≠ ',' ∧ c ≠ ' ' := ⟨fun same => apart ',' (.inl rfl) same.symm, start.1⟩
  obtain ⟨merged, middle, hm, first, second⟩ := wire_eq_ok_iff.mp h
  have lines : c ∉ importLines (keep here o n clear merged) := by
    intro inside
    obtain ⟨i, hi, s, hs, part⟩ := infix_lines foreign (fun v part => by
      rw [List.singleton_infix_iff] at part ⊢
      exact (List.mem_append.mp part).resolve_left word)
        ((List.singleton_infix_iff _ _).mpr inside)
    obtain ⟨j, hj, -, hs⟩ := exists_of_mem_parts (mergeImports_eq_ok_iff.mp hm).2
      (mem_of_mem_keep hi) hs
    exact parts j hj s hs ((List.singleton_infix_iff _ _).mp part)
  -- The letter is in no part that is put together: neither in the lines, nor in what stands
  -- around them, nor in the classes.
  have spliced : c ∉ (ofText content).splice (importLines (keep here o n clear merged)) := by
    have hback : c ∉ (ofText content).back := by
      rw [back]
      split
      · next rest =>
          exact fun inside => hrest (by rw [rest]; exact List.mem_cons_of_mem _ inside)
      · exact hrest
    rw [splice]
    cases hf : (ofText content).front with
    | some front => simp [hfront front hf, lines, hback]
    | none =>
        simp only
        split
        · exact hrest
        · simp [lines, hrest, start.2.1]
  have classes : c ∉ n.controllerClass.toList ∧ c ∉ n.serviceClass.toList :=
    ⟨parts (controllerImport here o n) (by simp [own]) _ (Import.mem_parts_ofNames (by simp)),
      parts (serviceImport here o n) (by simp [own]) _ (Import.mem_parts_ofNames (by simp))⟩
  exact not_mem_wireArray (by decide) comma second
    (not_mem_wireArray (by decide) comma first spliced classes.1) classes.2

end NotMem

/-- A module that has a directive for the compiler between two imports. -/
def scattered : List Char :=
  "import A from 'a';\n".toList ++ "// @ts-ignore\n".toList ++ "import B from 'b';\n".toList
    ++ "controllers: [], ".toList ++ "providers: []".toList

theorem ofText_scattered : ofText scattered
    = ⟨[⟨[], "import A from 'a'".toList, ⟨some "A", .empty, none, "a"⟩⟩,
        ⟨";\n// @ts-ignore\n".toList, "import B from 'b'".toList,
          ⟨some "B", .empty, none, "b"⟩⟩],
      ";\ncontrollers: [], providers: []".toList⟩ := by
  decide +kernel

theorem exists_regular_scattered :
    ∃ controllers providers, Regular scattered controllers providers :=
  exists_regular_of_not_mem (by decide +kernel) (by decide +kernel) (by decide +kernel)
    (by decide +kernel)

theorem exists_wire_scattered : ∃ d,
    wire ⟨"/"⟩ .template (Names.make .template "Payment" "BTC") false scattered = .ok d := by
  have plain := plain_template ⟨"/"⟩
  generalize Names.make .template "Payment" "BTC" = n at plain ⊢
  have listed := congrArg ImportBlock.imports ofText_scattered
  obtain ⟨controllers, providers, regular⟩ := exists_regular_scattered
  obtain ⟨-, d, -, run⟩ := exists_wire_of_merges regular plain
    (by rw [listed]; simp [ImportBlock.imports])
    (by rw [listed]; exact ⟨_, rfl⟩)
  exact ⟨d, run⟩

/-- There are two imports in the scattered module, so what stands between them is not sure to
be kept. -/
theorem keeps_between_scattered : ∃ d,
    wire ⟨"/"⟩ .template (Names.make .template "Payment" "BTC") false scattered = .ok d ∧
      ¬ ∀ content', SameAround (ofText scattered) (ofText content') →
        ∀ piece ∈ (ofText content').between, trim piece ≠ [] → trim piece <:+: d := by
  obtain ⟨d, run⟩ := exists_wire_scattered
  refine ⟨d, run, fun kept => ?_⟩
  have few := (keeps_between_iff run).2.mp kept
  rw [ofText_scattered] at few
  exact absurd few (by decide)

/-- **A directive that no longer holds**: it stood in front of the second import, and is not
there any more. -/
theorem exists_wire_loses : ∃ d,
    wire ⟨"/"⟩ .template (Names.make .template "Payment" "BTC") false scattered = .ok d ∧
      ∃ piece ∈ (ofText scattered).between, trim piece = "// @ts-ignore".toList ∧
        ¬ trim piece <:+: d := by
  obtain ⟨d, run⟩ := exists_wire_scattered
  have trimmed : trim "\n// @ts-ignore\n".toList = "// @ts-ignore".toList := by decide
  refine ⟨d, run, "\n// @ts-ignore\n".toList, ?_, trimmed, fun kept => ?_⟩
  · rw [ofText_scattered]
    decide
  · have inside : '@' ∈ d := kept.subset (by rw [trimmed]; decide)
    have plain := plain_template ⟨"/"⟩
    refine not_mem_wire (c := '@') ?_ (by decide) run ?_ ?_ ?_ inside
    · exact ⟨by simp, by simp, by simp, by simp⟩
    · rw [ofText_scattered]
      rintro _ ⟨⟩
      simp
    · rw [ofText_scattered]
      decide
    · intro i hi s hs
      rw [ofText_scattered] at hi
      rcases List.mem_append.mp hi with hi | hi
      · exact own_not_mem plain (by decide) (by decide) i hi s hs
      · revert i s
        decide

end Attestation.Verifier
