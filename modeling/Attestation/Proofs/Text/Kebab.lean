import Attestation.Proofs.Text.Pieces
import Attestation.Text.Kebab
import Mathlib

/-!
# Kebab case by neighbours

Groups of capitals are found run by run, and the last capital of a run can be left over for the
next group.  Yet whether a hyphen stands in front of a character is a matter of its two
neighbours alone (`kebab_eq_letters`).

## Main definitions

* `Text.startsGroup`: the local rule, which sees only the neighbours of a character.
* `Text.letters`: what the local rule makes of a text, position by position.

## Design notes

The program takes runs of capitals greedily, and has no position to speak of.  The local rule
is what a reader of kebab names knows.  They are related by an induction over the groups in
which the character before the rest is generalised, since this is all that the rule needs to
know of the past.
-/

namespace Attestation.Text

/-! ## The local rule -/

/-- The local rule for a hyphen: the character is a capital with a character before it, and
either that one is no capital or the next one is a small letter. -/
def startsGroup (before : Option Char) (c : Char) (next : Option Char) : Bool :=
  c.isUpper && before.any fun b => !b.isUpper || next.any Char.isLower

/-- The character in front of a position. -/
def before? (cs : List Char) : Nat → Option Char
  | 0 => none
  | j + 1 => cs[j]?

/-- What is written for the character at a position: it as a small letter, behind a hyphen if
it starts a group.  The hyphen is `none`, which tells it from the hyphens of the text. -/
def lettersAt (cs : List Char) (j : Nat) : List (Option Char) :=
  match cs[j]? with
  | some c =>
      (if startsGroup (before? cs j) c cs[j + 1]? then [none] else []) ++ [some c.toLower]
  | none => []

/-- What is written for all positions of a text, in order. -/
def letters (cs : List Char) : List (Option Char) :=
  (List.range cs.length).flatMap (lettersAt cs)

/-- The local rule along a text, behind a character. -/
def lettersFrom (before : Option Char) : List Char → List (Option Char)
  | [] => []
  | c :: r =>
      (if startsGroup before c r.head? then [none] else []) ++ some c.toLower :: lettersFrom
        (some c) r

section Letters

variable {front cs r : List Char} {before : Option Char} {b c : Char}

theorem lettersAt_append (front : List Char) (c : Char) (r : List Char) :
    lettersAt (front ++ c :: r) front.length
      = (if startsGroup front.getLast? c r.head? then [none] else []) ++ [some c.toLower] := by
  have own : (front ++ c :: r)[front.length]? = some c := by simp
  have next : (front ++ c :: r)[front.length + 1]? = r.head? := by
    have one : front.length + 1 - front.length = 1 := Nat.add_sub_cancel_left _ _
    rw [List.getElem?_append_right (Nat.le_succ _), one, List.getElem?_cons_succ,
      List.head?_eq_getElem?]
  have last : before? (front ++ c :: r) front.length = front.getLast? := by
    rcases List.eq_nil_or_concat' front with rfl | ⟨init, d, rfl⟩
    · rfl
    · rw [List.length_append, List.length_singleton, before?, List.getLast?_concat]
      simp
  rw [lettersAt, own, next, last]

/-- The rule at the positions behind a front. -/
theorem flatMap_lettersAt_append (front cs : List Char) :
    (List.range cs.length).flatMap (fun j => lettersAt (front ++ cs) (front.length + j))
      = lettersFrom front.getLast? cs := by
  induction cs generalizing front with
  | nil => rfl
  | cons c r ih =>
      have onward := ih (front ++ [c])
      rw [List.getLast?_concat, List.append_assoc, List.singleton_append] at onward
      have shift : ∀ j, (front ++ [c]).length + j = front.length + (j + 1) := by
        intro j
        rw [List.length_append, List.length_singleton]
        omega
      simp only [shift] at onward
      rw [List.length_cons, List.range_succ_eq_map, List.flatMap_cons, List.flatMap_map,
        Nat.add_zero,
        lettersAt_append, onward, List.append_assoc, List.singleton_append, lettersFrom]

theorem letters_eq (cs : List Char) : letters cs = lettersFrom none cs := by
  have positions := flatMap_lettersAt_append [] cs
  simpa [letters] using positions

/-- Without the hyphens that have been put in, the text is left, in small letters. -/
theorem filterMap_lettersFrom (before : Option Char) (cs : List Char) :
    (lettersFrom before cs).filterMap id = cs.map Char.toLower := by
  induction cs generalizing before with
  | nil => rfl
  | cons c r ih =>
      have hyphen : ∀ starts : Bool,
        (if starts then [none] else []).filterMap (id : Option Char → _) = [] := by decide
      rw [lettersFrom, List.filterMap_append, hyphen, List.nil_append, List.map_cons,
        ← ih (some c)]
      rfl

/-- No capital is left. -/
theorem isUpper_of_mem_lettersFrom {d : Char}
    (h : d ∈ (lettersFrom before cs).map (·.getD '-')) :
    d.isUpper = false := by
  induction cs generalizing before with
  | nil => cases h
  | cons c r ih =>
      rw [lettersFrom, List.map_append, List.map_cons, List.mem_append, List.mem_cons] at h
      rcases h with h | rfl | h
      · split at h
        · rw [List.map_singleton, List.mem_singleton] at h
          rw [h]
          decide
        · cases h
      · exact c.isUpper_toLower_eq_false
      · exact ih h

end Letters

/-! ## Groups of capitals -/

/-- The first group of a text that starts with a capital: only capitals, no small letter behind
more than one of them, and no further capital behind them but one that begins a word. -/
theorem exists_capitalGroup {c : Char} (hc : c.isUpper = true) (r : List Char) :
    ∃ u v, r = u ++ v ∧ capitalGroup (c :: r) = u.length + 1 ∧ (∀ d ∈ u, d.isUpper = true) ∧
      (u ≠ [] → v.head?.any Char.isLower = false) ∧
      ∀ d w, v = d :: w → d.isUpper = true → w.head?.any Char.isLower = true := by
  obtain ⟨t, w, text, capitals, stop, ht, hw⟩ := exists_front Char.isUpper r
  have size : capitalGroup (c :: r)
      = if w.head?.any Char.isLower then max 1 t.length else t.length + 1 := by
    rw [capitalGroup, List.takeWhile_cons_of_pos hc, List.dropWhile_cons_of_pos hc, ht, hw]
    rfl
  have small : ∀ d w', w = d :: w' → d.isUpper = true → w'.head?.any Char.isLower = true := by
    rintro d w' rfl upper
    rw [stop d rfl] at upper
    cases upper
  cases word : w.head?.any Char.isLower with
  | false =>
      exact ⟨t, w, text, by simp [size, word], capitals, fun _ => word, small⟩
  | true =>
      rcases List.eq_nil_or_concat' t with rfl | ⟨u, d, rfl⟩
      · exact ⟨[], w, text, by simp [size, word], capitals, fun h => (h rfl).elim, small⟩
      · have last : d.isUpper = true := capitals d (by simp)
        refine ⟨u, d :: w, by simp [text], by simp [size,
          word], fun e he => capitals e (by simp [he]), fun _ => ?_, ?_⟩
        · simpa using Char.not_isLower_of_isUpper last
        · rintro _ _ ⟨⟩ -
          exact word

/-- Inside of a group no hyphen is put in. -/
theorem exists_lettersFrom_append {b : Char} (hb : b.isUpper = true) {u v : List Char}
    (capitals : ∀ d ∈ u, d.isUpper = true)
    (behind : u ≠ [] → v.head?.any Char.isLower = false) :
    ∃ last, last.isUpper = true ∧
      lettersFrom (some b) (u ++ v)
        = u.map (fun d => some d.toLower) ++ lettersFrom (some last) v := by
  induction u generalizing b with
  | nil => exact ⟨b, hb, rfl⟩
  | cons d u ih =>
      have upper : d.isUpper = true := capitals d List.mem_cons_self
      have next : (u ++ v).head?.any Char.isLower = false := by
        cases u with
        | nil => exact behind (List.cons_ne_nil _ _)
        | cons e u => simpa using Char.not_isLower_of_isUpper (capitals e (by simp))
      obtain ⟨last, hlast, onward⟩ :=
        ih upper (fun e he => capitals e (List.mem_cons_of_mem _ he))
        fun _ => behind (List.cons_ne_nil _ _)
      have inside : startsGroup (some b) d (u ++ v).head? = false := by
        rw [startsGroup, Option.any_some, hb, next]
        exact Bool.and_false _
      refine ⟨last, hlast, ?_⟩
      rw [List.cons_append, lettersFrom, inside, onward]
      rfl

/-- Where a group may start: at the front of the text, or behind a character for which the
local rule agrees. -/
inductive Seam : Bool → Option Char → List Char → Prop
  | front (cs : List Char) : Seam true none cs
  | behind {b : Char} {cs : List Char}
      (agrees : ∀ c r, cs = c :: r → c.isUpper = true →
        startsGroup (some b) c r.head? = true) : Seam false (some b) cs

/-- At a seam, a capital has a hyphen by the rule exactly if it is not the first character. -/
theorem Seam.startsGroup_eq {first : Bool} {before : Option Char} {c : Char} {r : List Char}
    (h : Seam first before (c :: r)) (upper : c.isUpper = true) :
    startsGroup before c r.head? = !first := by
  cases h with
  | front => simp [startsGroup]
  | behind agrees => exact agrees c r rfl upper

/-- **Group by group, the hyphens are those of the local rule.**  The groups are cut off from
the front, so the induction is on what is left, and the character in front of it is all that is
known of the rest. -/
theorem kebabFrom_eq {first : Bool} {before : Option Char} {cs : List Char}
    (h : Seam first before cs) :
    kebabFrom first cs = (lettersFrom before cs).map (·.getD '-') := by
  fun_induction kebabFrom first cs generalizing before with
  | case1 => rfl
  | case2 first c r upper ih =>
      obtain ⟨u, v, rfl, size, capitals, behind, further⟩ := exists_capitalGroup upper r
      obtain ⟨last, hlast, inside⟩ := exists_lettersFrom_append upper capitals behind
      have seam : Seam false (some last) v := .behind fun d w hv hd => by
        simp [startsGroup, hd, further d w hv hd]
      have group : (c :: (u ++ v)).take (capitalGroup (c :: (u ++ v))) = c :: u := by
        rw [size]; simp
      have rest : (c :: (u ++ v)).drop (capitalGroup (c :: (u ++ v))) = v := by rw [size]; simp
      rw [rest] at ih
      rw [group, rest, ih seam, lettersFrom, inside, h.startsGroup_eq upper]
      cases first <;> simp
  | case3 first c r small ih =>
      have seam : Seam false (some c) r := .behind fun d w _ hd => by
        simp [startsGroup, hd, small]
      have plain : startsGroup before c r.head? = false := by simp [startsGroup, small]
      rw [ih seam, lettersFrom, plain, Char.toLower_eq_of_not_isUpper small]
      rfl

/-- Nothing happens to a text without capitals. -/
theorem kebabFrom_of_small {cs : List Char} (small : ∀ c ∈ cs, c.isUpper = false)
    (first : Bool) :
    kebabFrom first cs = cs := by
  induction cs generalizing first with
  | nil => rw [kebabFrom]
  | cons c r ih =>
      rw [kebabFrom, dif_neg (by simp [small c]), ih fun d hd =>
        small d (List.mem_cons_of_mem _ hd)]

/-- **Kebab case is a local rule.**  Each character is written as a small letter, with a hyphen
in front of it if it is a capital behind some character and either that one is no capital or
the next one is a small letter.  Without these hyphens the text is left, in small letters, and
the rule finds nothing more to do in what it has made. -/
theorem kebab_eq_letters (s : String) :
    kebab s = String.ofList ((letters s.toList).map (·.getD '-')) ∧
      (letters s.toList).filterMap id = s.toList.map Char.toLower ∧
      kebab (kebab s) = kebab s := by
  have written : (kebab s).toList = (lettersFrom none s.toList).map (·.getD '-') := by
    rw [kebab, String.toList_ofList, kebabFrom_eq (.front _)]
  refine ⟨?_, ?_, ?_⟩
  · rw [letters_eq, ← written, String.ofList_toList]
  · rw [letters_eq, filterMap_lettersFrom]
  · have small : ∀ c ∈ (kebab s).toList, c.isUpper = false := by
      rw [written]
      exact fun c hc => isUpper_of_mem_lettersFrom hc
    rw [kebab.eq_def (kebab s), kebabFrom_of_small small, String.ofList_toList]

/-- The last capital of a run begins a word, and the hyphen of the text is not one that has
been put in. -/
example : kebab "EVM-TXData2X" = "evm--tx-data2-x" ∧
    letters "aB-C".toList = [some 'a', none, some 'b', some '-', none, some 'c'] :=
    ⟨by cbv, by decide⟩

end Attestation.Text
