import Attestation.Text.Blank
import Attestation.Text.Unicode.Word
import Mathlib.Data.List.Infix
import Mathlib.Data.List.TakeWhile

/-!
# Texts without outer blanks

`Text.trim` cuts the blanks off both ends.  `trim_pad` says that blanks added at the ends do
not count, and `Trimmed` names the texts that trimming leaves alone.

## Design notes

Only the two ends of a text are ever looked at, so each end has lemmas of its own, and a text is
called trimmed by the property that readers need: cutting both ends leaves it as it is.  With
`trimmed_of_ends` a text is trimmed as soon as its first and its last character are known, which
spares the callers an induction over what stands between.
-/

namespace Attestation.Text

/-- A kind of characters to which no blank belongs. -/
theorem isBlank_eq_false {p : Char → Bool} (none_ : blanks.all (fun b => !p b) = true)
    {c : Char}
    (hc : p c = true) : isBlank c = false := by
  by_contra blank
  rw [Bool.not_eq_false, isBlank, List.contains_iff_mem] at blank
  have other := List.all_eq_true.mp none_ c blank
  simp [hc] at other

theorem isBlank_of_isDigit {c : Char} (h : c.isDigit = true) : isBlank c = false :=
  isBlank_eq_false (by decide) h

/-- Blanks are no part of a word. -/
theorem isBlank_of_isWord {c : Char} (h : isWord c = true) : isBlank c = false :=
  isBlank_eq_false (by decide +kernel) h

/-- A text with no blank at either end. -/
def Trimmed (cs : List Char) : Prop := trim cs = cs

theorem trimStart_append_of_blank {p cs : List Char} (hp : ∀ c ∈ p, isBlank c = true) :
    trimStart (p ++ cs) = trimStart cs :=
  List.dropWhile_append_of_pos hp

theorem trimEnd_append_of_blank {cs q : List Char} (hq : ∀ c ∈ q, isBlank c = true) :
    trimEnd (cs ++ q) = trimEnd cs := by
  rw [trimEnd, List.reverse_append,
    List.dropWhile_append_of_pos (by simpa using hq), ← trimEnd]

/-- A text cut by `trimStart` is empty or starts with a character that is no blank. -/
theorem trimStart_eq_nil_or_cons (cs : List Char) :
    trimStart cs = [] ∨ ∃ c r, trimStart cs = c :: r ∧ isBlank c = false := by
  induction cs with
  | nil => exact .inl rfl
  | cons c r ih =>
      rw [trimStart, List.dropWhile_cons]
      cases hc : isBlank c with
      | true => exact ih
      | false => exact .inr ⟨c, r, by simp, hc⟩

theorem trimStart_cons_of_not_blank {c : Char} (hc : isBlank c = false) (r : List Char) :
    trimStart (c :: r) = c :: r := by
  simp [trimStart, hc]

theorem trimEnd_concat_of_not_blank {c : Char} (hc : isBlank c = false) (r : List Char) :
    trimEnd (r ++ [c]) = r ++ [c] := by
  simp [trimEnd, hc]

@[simp] theorem trimEnd_nil : trimEnd [] = [] := rfl

@[simp] theorem trimStart_nil : trimStart [] = [] := rfl

theorem trimStart_trimStart (cs : List Char) : trimStart (trimStart cs) = trimStart cs := by
  rcases trimStart_eq_nil_or_cons cs with h | ⟨c, r, h, hc⟩
  · rw [h, trimStart_nil]
  · rw [h, trimStart_cons_of_not_blank hc]

/-- Cutting the end off keeps a front that is no blank. -/
theorem trimEnd_cons_of_not_blank {c : Char} (hc : isBlank c = false) (r : List Char) :
    ∃ t, trimEnd (c :: r) = c :: t := by
  rw [trimEnd, List.reverse_cons]
  rw [List.dropWhile_append]
  split
  · exact ⟨[], by simp [hc]⟩
  · exact ⟨((r.reverse).dropWhile isBlank).reverse, by simp⟩

theorem trimEnd_trimEnd (cs : List Char) : trimEnd (trimEnd cs) = trimEnd cs := by
  have h := trimStart_trimStart cs.reverse
  simp only [trimStart] at h
  simp only [trimEnd, List.reverse_reverse, h]

/-- What is cut off the end of a text is blank, and something else stands before it. -/
theorem exists_trimEnd (cs : List Char) :
    ∃ blanks, cs = trimEnd cs ++ blanks ∧ (∀ c ∈ blanks, isBlank c = true) ∧
    (trimEnd cs = [] ∨ ∃ front last, trimEnd cs = front ++ [last] ∧ isBlank last = false) := by
  refine ⟨(cs.reverse.takeWhile isBlank).reverse, ?_, ?_, ?_⟩
  · rw [trimEnd, ← List.reverse_append, List.takeWhile_append_dropWhile, List.reverse_reverse]
  · intro c hc
    exact List.mem_takeWhile_imp (List.mem_reverse.mp hc)
  · rcases trimStart_eq_nil_or_cons cs.reverse with h | ⟨c, r, h, hc⟩
    · exact .inl (by rw [trimEnd, ← trimStart, h, List.reverse_nil])
    · exact .inr ⟨r.reverse, c, by rw [trimEnd, ← trimStart, h, List.reverse_cons], hc⟩

/-- A trimmed text stays as it is when it is trimmed again. -/
theorem trimmed_trim (cs : List Char) : Trimmed (trim cs) := by
  rw [Trimmed, trim, trim]
  rcases trimStart_eq_nil_or_cons cs with h | ⟨c, r, h, hc⟩
  · rw [h]
    rfl
  · obtain ⟨t, ht⟩ := trimEnd_cons_of_not_blank hc r
    rw [h, ht, trimStart_cons_of_not_blank hc, ← ht, trimEnd_trimEnd]

/-- Blanks around a text do not count. -/
theorem trim_pad {p q : List Char} (cs : List Char) (hp : ∀ c ∈ p, isBlank c = true)
    (hq : ∀ c ∈ q, isBlank c = true) : trim (p ++ cs ++ q) = trim cs := by
  rw [trim, List.append_assoc, trimStart_append_of_blank hp]
  rcases trimStart_eq_nil_or_cons cs with h | ⟨c, r, h, hc⟩
  · have blank : ∀ c ∈ cs, isBlank c = true := List.dropWhile_eq_nil_iff.mp h
    rw [trimStart_append_of_blank blank, trim, h]
    exact trim_all_blank hq
  · have : trimStart (cs ++ q) = trimStart cs ++ q := by
      rw [trimStart, List.dropWhile_append]
      rw [trimStart] at h
      simp [trimStart, h]
    rw [this, trimEnd_append_of_blank hq, trim]

/-- What is left of a text is a part of it. -/
theorem infix_trim (cs : List Char) : trim cs <:+: cs := by
  have front : trimEnd (trimStart cs) <+: trimStart cs := by
    rw [trimEnd, ← List.reverse_suffix, List.reverse_reverse]
    exact List.dropWhile_suffix _
  exact front.isInfix.trans (List.dropWhile_suffix _).isInfix

/-- A text whose ends are no blanks is trimmed. -/
theorem trimmed_of_ends {c d : Char} (hc : isBlank c = false) (hd : isBlank d = false)
    {cs r t : List Char} (front : cs = c :: r) (back : cs = t ++ [d]) : Trimmed cs := by
  rw [Trimmed, trim, front, trimStart_cons_of_not_blank hc, ← front, back,
    trimEnd_concat_of_not_blank hd]

/-- A text without any blank is trimmed. -/
theorem trimmed_of_no_blank {cs : List Char} (h : ∀ c ∈ cs, isBlank c = false) :
    Trimmed cs := by
  cases cs with
  | nil => rfl
  | cons c r =>
      obtain ⟨t, d, hd⟩ := List.eq_nil_or_concat' (c :: r) |>.resolve_left (by simp)
      refine trimmed_of_ends (h c (by simp)) (h d ?_) rfl hd
      rw [hd]
      simp

/-- The first character of a trimmed text is no blank. -/
theorem Trimmed.head {c : Char} {r : List Char} (h : Trimmed (c :: r)) :
    isBlank c = false := by
  cases hc : isBlank c with
  | false => rfl
  | true =>
      have short := length_trim_le r
      rw [Trimmed, trim, trimStart, List.dropWhile_cons, hc] at h
      simp only [if_true] at h
      rw [← trimStart, ← trim] at h
      rw [h, List.length_cons] at short
      omega

end Attestation.Text
