import Attestation.Proofs.Except
import Attestation.Proofs.Script.ArrayGrammar
import Attestation.Proofs.Text.Slices

/-!
# Where the reading of an array ends

An array is read from a place of the text on: up to its closing bracket, or up to the first
thing that goes wrong.  Which of them comes first is a matter of the grammar (`extractAt_iff`).

## Main definitions

* `Stops`: a closing bracket at which the reading ends with an error.
* `FirstFault`: all errors, each with the text that leads up to it.
* `Placed`: an array whose positions are those of its brackets.

## Design notes

The reader is a loop with three ways to fail, and its errors quote the text around the place.
`FirstFault` says of each error which unfinished text leads up to it, in terms of the grammar
alone; that the text is unfinished is what makes the fault the first one.  Success and failure
are both stated as equivalences, so that the reader is determined by the grammar.
-/

namespace Attestation

open Text

/-- A text is cut in two where the anchor is found. -/
theorem Anchor.eq_append_of_cut (anchor : Anchor) {content front cs : List Char}
    (h : anchor.cut content = some (front, cs)) : content = front ++ cs := by
  obtain ⟨⟨before, rest⟩, hm, heq⟩ := Option.map_eq_some_iff.mp h
  obtain ⟨behind, rfl, -, -⟩ := eq_append_of_firstMatch hm
  cases heq
  rw [List.drop_left]

namespace ArrayLiteral

/-! ## Positions -/

/-- The array lies between the positions of its brackets, and the text can be cut at both of
them. -/
structure Placed (content : List Char) (a : ArrayLiteral) : Prop where
  text : content = a.before ++ '[' :: a.inner ++ ']' :: a.after
  start : IsBoundary content a.start
  stop : IsBoundary content (a.stop + 1)
  bytes : ((utf8Bytes content).drop a.start).take (a.stop + 1 - a.start)
    = utf8Bytes ('[' :: a.inner ++ [']'])

/-- The text up to the closing bracket. -/
theorem utf8Size_upTo_stop (a : ArrayLiteral) :
    utf8Size (a.before ++ '[' :: a.inner ++ [']']) = a.stop + 1 := by
  simp only [stop, start, utf8Size_append, utf8Size_cons, utf8Size_nil,
    show Char.utf8Size '[' = 1 from rfl,
    show Char.utf8Size ']' = 1 from rfl]
  omega

theorem placed_of_text {content : List Char} {a : ArrayLiteral}
    (h : content = a.before ++ '[' :: a.inner ++ ']' :: a.after) : Placed content a := by
  have front := utf8Size_upTo_stop a
  refine ⟨h, ⟨a.before, '[' :: a.inner ++ ']' :: a.after, by simp [h], rfl⟩,
    ⟨a.before ++ '[' :: a.inner ++ [']'], a.after, by simp [h], front⟩, ?_⟩
  have pieces : utf8Bytes content
      = utf8Bytes a.before ++ (utf8Bytes ('[' :: a.inner ++ [']']) ++ utf8Bytes a.after) := by
    simp only [utf8Bytes, ← List.flatMap_append, h]
    simp
  have size : (utf8Bytes ('[' :: a.inner ++ [']'])).length = a.stop + 1 - a.start := by
    rw [List.append_assoc, utf8Size_append] at front
    rw [length_utf8Bytes, ← front, start, Nat.add_sub_cancel_left]
  have lead : (utf8Bytes a.before).length = a.start := length_utf8Bytes a.before
  rw [pieces, List.drop_left' lead, List.take_left' size]

/-! ## Errors -/

/-- A closing bracket at which the reading ends with an error, when the brackets `opened` are
open inside of the array.  The bracket of the array itself is below all of these. -/
inductive Stops (content : List Char) (position : Nat) (opened : List Char) (c : Char) :
    EditError → Prop where
  /-- The innermost open bracket, that of the array if there is no other, is one of another
  kind. -/
  | mismatch {opening : Char} (innermost : (opened ++ ['[']).head? = some opening)
      (closing : isClosing c = true)
      (differ : c ≠ closingOf opening) :
      Stops content position opened c
        (.bracketMismatch opening c (contextAround content position))
  /-- What is closed stands in the array by itself and is no object. -/
  | noObject {opening : Char} (alone : opened = [opening]) (closes : c = closingOf opening)
      (brace : opening ≠ '\x7b') : Stops content position opened c (.expectedObjectClose c)

section ReadInside

variable {content : List Char} {position : Nat} {r : Reading} {c : Char} {e : EditError}

/-- At such a bracket no step is left. -/
theorem Stops.next_eq_none (h : Stops content position r.opened c e) : r.next c = none := by
  obtain ⟨opened, pending, entries⟩ := r
  cases h with
  | mismatch innermost closing differ =>
      have notOpening : isOpening c = false := by
        simp only [isClosing, Bool.or_eq_true, decide_eq_true_eq] at closing
        rcases closing with (rfl | rfl) | rfl <;> decide
      rcases opened with _ | ⟨o, _ | ⟨o', outer⟩⟩
      · simp [Reading.next, notOpening, closing]
      · obtain rfl : o = _ := by simpa using innermost
        simp [Reading.next, notOpening, closing, differ]
      · obtain rfl : o = _ := by simpa using innermost
        simp [Reading.next, notOpening, closing, differ]
  | @noObject opening alone closes brace =>
      have kind := closing_closingOf opening
      have other : closingOf opening ≠ '\x7d' := fun h => brace (eq_of_closingOf_eq h)
      simp only at alone
      subst alone closes
      simp [Reading.next, kind, other]

/-- A closing bracket of another kind than the innermost open one. -/
theorem mismatch_iff_stops {β : Type} {opened : List Char} {opening : Char}
    (innermost : (opened ++ ['[']).head? = some opening) (closing : isClosing c = true)
    (differ : c ≠ closingOf opening) :
    (.error (.bracketMismatch opening c (contextAround content position)) :
        Except EditError β) = .error e ↔ Stops content position opened c e := by
  constructor
  · rintro ⟨⟩
    exact .mismatch innermost closing differ
  · rintro (⟨innermost', -, -⟩ | ⟨rfl, closes, -⟩)
    · obtain rfl : opening = _ := Option.some.inj (innermost.symm.trans innermost')
      rfl
    · cases innermost
      exact absurd closes differ

/-- A bracket of the right kind that closes what stands in the array by itself. -/
theorem noObject_iff_stops {β : Type} {opening : Char} (closes : c = closingOf opening)
    (brace : opening ≠ '\x7b') :
    (.error (.expectedObjectClose c) : Except EditError β) = .error e ↔
      Stops content position [opening] c e := by
  constructor
  · rintro ⟨⟩
    exact .noObject rfl closes brace
  · rintro (⟨innermost, -, differ⟩ | ⟨-, -, -⟩)
    · cases innermost
      exact absurd closes differ
    · rfl

/-- The bracket that closes the array. -/
theorem not_stops_nil : ¬ Stops content position [] ']' e := by
  rintro (⟨innermost, -, differ⟩ | ⟨alone, -, -⟩)
  · cases innermost
    exact differ rfl
  · cases alone

/-- Where no step is left, the reading ends with this error, or the array is closed. -/
theorem readInside_error_iff_stops (h : r.next c = none) (rest : List Char) :
    readInside content position r (c :: rest) = .error e ↔
    Stops content position r.opened c e := by
  obtain ⟨opened, pending, entries⟩ := r
  unfold Reading.next at h
  rw [readInside]
  split at h
  · split at h <;> cases h
  next ho =>
    rw [if_neg ho]
    split at h
    · next hc =>
        rw [if_pos hc]
        rcases opened with _ | ⟨o, _ | ⟨o', outer⟩⟩
        · simp only
          split
          · next hb =>
              subst hb
              exact iff_of_false (by simp) not_stops_nil
          · next hb => exact mismatch_iff_stops rfl hc hb
        · simp only at h ⊢
          split
          · next hm => exact mismatch_iff_stops rfl hc hm
          · next hm =>
              rw [if_neg hm] at h
              rw [not_not] at hm
              split at h
              · next hb =>
                  rw [if_pos hb]
                  exact noObject_iff_stops hm fun brace => hb (by rw [hm, brace]; rfl)
              · cases h
        · simp only at h ⊢
          split at h
          · next hm =>
              rw [if_pos hm]
              exact mismatch_iff_stops rfl hc hm
          · cases h
    · cases h

/-- **How the reading fails**: the text ends first, or such a bracket comes first.  The
induction is on the text, and the state of the reading after its first part says which brackets
are open. -/
theorem readInside_eq_error_iff {cs : List Char} :
    readInside content position r cs = .error e ↔
      ((∃ r', r.run cs = some r') ∧ e = .arrayEndNotFound (preview content)) ∨
        ∃ t c rest r', cs = t ++ c :: rest ∧ r.run t = some r' ∧
          Stops content (position + utf8Size t) r'.opened c e := by
  induction cs generalizing position r with
  | nil =>
      constructor
      · rintro ⟨⟩
        exact .inl ⟨⟨r, rfl⟩, rfl⟩
      · rintro (⟨-, rfl⟩ | ⟨t, c, rest, r', heq, -⟩)
        · rfl
        · simp at heq
  | cons c cs ih =>
      cases hn : r.next c with
      | none =>
          rw [readInside_error_iff_stops hn]
          constructor
          · intro stops
            exact .inr ⟨[], c, cs, r, rfl, rfl, stops⟩
          · rintro (⟨⟨r', hr⟩, -⟩ | ⟨t, d, rest, r', heq, hr, stops⟩)
            · rw [Reading.run, hn] at hr
              cases hr
            · cases t with
              | nil =>
                  cases hr
                  cases heq
                  exact stops
              | cons d t =>
                  cases heq
                  rw [Reading.run, hn] at hr
                  cases hr
      | some next =>
          have onward : readInside content position r (c :: cs) = .error e ↔
              readInside content (position + c.utf8Size) next cs = .error e := by
            rw [readInside_next hn, map_eq_error_iff]
          have run_cons : ∀ t, r.run (c :: t) = next.run t := fun t => by
            rw [Reading.run, hn, Option.bind_some]
          rw [onward, ih, run_cons]
          refine or_congr_right ⟨?_, ?_⟩
          · rintro ⟨t, d, rest, r', rfl, hr, stops⟩
            refine ⟨c :: t, d, rest, r', rfl, by rw [run_cons, hr], ?_⟩
            rwa [utf8Size_cons, ← Nat.add_assoc]
          · rintro ⟨t, d, rest, r', heq, hr, stops⟩
            cases t with
            | nil =>
                cases hr
                cases heq
                rw [stops.next_eq_none] at hn
                cases hn
            | cons d' t =>
                cases heq
                rw [run_cons] at hr
                rw [utf8Size_cons, ← Nat.add_assoc] at stops
                exact ⟨t, d, rest, r', rfl, hr, stops⟩

end ReadInside

/-- The first thing that goes wrong on the way through `cs`, a text with `front` before it.
What comes behind it does not matter, so there is exactly one such error for a text that holds
no array. -/
inductive FirstFault (front cs : List Char) : EditError → Prop where
  /-- No bracket opens. -/
  | unopened (closed : ∀ c ∈ cs, isOpening c = false) :
      FirstFault front cs (.arrayEndNotFound (preview (front ++ cs)))
  /-- The first bracket that opens is another one than that of an array. -/
  | otherBracket {skipped rest : List Char} {opening : Char}
      (text : cs = skipped ++ opening :: rest)
      (closed : ∀ c ∈ skipped, isOpening c = false) (bracket : isOpening opening = true)
      (other : opening ≠ '[') :
      FirstFault front cs (.expectedOpenBracket opening)
  /-- The text ends inside of the array. -/
  | unclosed {skipped t opened : List Char} (text : cs = skipped ++ '[' :: t)
      (closed : ∀ c ∈ skipped, isOpening c = false) (unfinished : Unfinished t opened) :
      FirstFault front cs (.arrayEndNotFound (preview (front ++ cs)))
  /-- A closing bracket stands where it must not. -/
  | stopped {skipped t opened rest : List Char} {c : Char} {e : EditError}
      (text : cs = skipped ++ '[' :: t ++ c :: rest)
      (closed : ∀ c ∈ skipped, isOpening c = false)
      (unfinished : Unfinished t opened)
      (stops : Stops (front ++ cs) (utf8Size (front ++ skipped ++ '[' :: t)) opened c e) :
      FirstFault front cs e

section ExtractAt

variable {front skipped inside : List Char} {opening : Char}

theorem extractAt_of_closed {cs : List Char} (closed : ∀ c ∈ cs, isOpening c = false) :
    extractAt front cs = .error (.arrayEndNotFound (preview (front ++ cs))) := by
  have nothing : cs.dropWhile (!isOpening ·) = [] := by
    rw [List.dropWhile_eq_nil_iff]
    intro c hc
    simp [closed c hc]
  simp only [extractAt, nothing]

/-- The text in front of the first opening bracket is passed over. -/
theorem extractAt_append (closed : ∀ c ∈ skipped, isOpening c = false)
    (bracket : isOpening opening = true) :
    extractAt front (skipped ++ opening :: inside)
      = if opening ≠ '[' then .error (.expectedOpenBracket opening)
        else (readInside (front ++ (skipped ++ opening :: inside))
          (utf8Size (front ++ skipped) + 1) .start
          inside).map fun read =>
            ⟨front ++ skipped, inside.take read.2, inside.drop (read.2 + 1), read.1⟩ := by
  have shut : ∀ c ∈ skipped, (!isOpening c) = true := fun c hc => by simp [closed c hc]
  have stop : ∀ c ∈ (opening :: inside).head?, (!isOpening c) = false := by simp [bracket]
  simp only [extractAt, takeWhile_front shut stop, dropWhile_front shut stop]
  split
  · rfl
  · rw [Reading.start]
    cases readInside (front ++ (skipped ++ opening :: inside))
      (utf8Size (front ++ skipped) + 1) ⟨[], [], []⟩
      inside <;> rfl

/-- A text has at most one first opening bracket. -/
theorem skipped_unique {s s' r r' : List Char} {o o' : Char}
    (heq : s ++ o :: r = s' ++ o' :: r')
    (hs : ∀ c ∈ s, isOpening c = false) (hs' : ∀ c ∈ s', isOpening c = false)
    (ho : isOpening o = true)
    (ho' : isOpening o' = true) : s = s' ∧ o = o' ∧ r = r' := by
  have front : ∀ {s r : List Char} {o : Char}, (∀ c ∈ s, isOpening c = false) →
    isOpening o = true →
      (s ++ o :: r).takeWhile (!isOpening ·) = s := by
    intro s r o hs ho
    exact takeWhile_front (fun c hc => by simp [hs c hc]) (by simp [ho])
  have first := congrArg (List.takeWhile (!isOpening ·)) heq
  rw [front hs ho, front hs' ho'] at first
  subst first
  obtain ⟨rfl, rfl⟩ := List.cons.inj (List.append_cancel_left heq)
  exact ⟨rfl, rfl, rfl⟩

/-- A text has no opening bracket, or a first one. -/
theorem exists_first_opening (cs : List Char) :
    (∀ c ∈ cs, isOpening c = false) ∨ ∃ skipped opening inside,
      cs = skipped ++ opening :: inside ∧
      (∀ c ∈ skipped, isOpening c = false) ∧ isOpening opening = true := by
  obtain ⟨u, v, rfl, hu, hv, -, -⟩ := exists_front (fun c => !isOpening c) cs
  have closed : ∀ c ∈ u, isOpening c = false := fun c hc => by simpa using hu c hc
  cases v with
  | nil => exact .inl (by simpa using closed)
  | cons o rest => exact .inr ⟨u, o, rest, rfl, closed, by simpa using hv⟩

/-- What is read from the place on: the first array, as far as it belongs to the grammar. -/
theorem extractAt_eq_ok_iff {cs : List Char} {a : ArrayLiteral} :
    extractAt front cs = .ok a ↔
      ∃ skipped, (∀ c ∈ skipped, isOpening c = false) ∧ a.before = front ++ skipped ∧
        cs = skipped ++ '[' :: a.inner ++ ']' :: a.after ∧ Inside a.inner a.entries := by
  constructor
  · intro h
    rcases exists_first_opening cs with closed | ⟨skipped, opening, inside, rfl,
      closed, bracket⟩
    · rw [extractAt_of_closed closed] at h
      cases h
    · rw [extractAt_append closed bracket] at h
      split at h
      · cases h
      next hb =>
        rw [not_not] at hb
        subst hb
        -- Only the inside of an array that opens first is read.
        cases hr : readInside (front ++ (skipped ++ '[' :: inside))
          (utf8Size (front ++ skipped) + 1) .start
            inside with
        | error e => rw [hr] at h; cases h
        | ok read =>
            obtain ⟨entries, size⟩ := read
            rw [hr] at h
            cases h
            obtain ⟨inner, behind, rfl, reads, rfl⟩ := readInside_eq_ok_iff.mp hr
            exact ⟨skipped, closed, rfl, by simp, by simpa using reads_iff.mp reads⟩
  · obtain ⟨before, inner, after, entries⟩ := a
    rintro ⟨skipped, closed, rfl, rfl, reads⟩
    simp only at reads
    rw [List.append_assoc, List.cons_append, extractAt_append closed (by decide),
      if_neg (by simp)]
    have read : readInside (front ++ (skipped ++ '[' :: (inner ++ ']' :: after)))
      (utf8Size (front ++ skipped) + 1)
        .start (inner ++ ']' :: after) = .ok (entries, inner.length) :=
      readInside_eq_ok_iff.mpr ⟨inner, after, rfl, reads_iff.mpr reads, rfl⟩
    rw [read]
    simp [Except.map]

section FirstFault

variable {e : EditError} (closed : ∀ c ∈ skipped, isOpening c = false)
include closed

/-- Nothing opens, and the other errors come behind an opening bracket. -/
theorem firstFault_iff_of_closed :
    FirstFault front skipped e ↔ .arrayEndNotFound (preview (front ++ skipped)) = e := by
  have absent : ∀ {o : Char}, isOpening o = true → o ∉ skipped := fun ho hc => by
    simp [closed _ hc] at ho
  constructor
  · rintro (⟨-⟩ | ⟨text, -, bracket, -⟩ | ⟨-, -, -⟩ | ⟨text, -, -, -⟩)
    · rfl
    · exact absurd (by simp [text]) (absent bracket)
    · rfl
    · exact absurd (by simp [text]) (absent (o := '[') (by decide))
  · rintro rfl
    exact .unopened closed

/-- The first bracket that opens decides, and it is not that of an array. -/
theorem firstFault_iff_of_ne (bracket : isOpening opening = true) (other : opening ≠ '[') :
    FirstFault front (skipped ++ opening :: inside) e ↔
      .expectedOpenBracket opening = e := by
  constructor
  · rintro (⟨shut⟩ | ⟨text, closed', bracket', -⟩ | ⟨text, closed', -⟩ | ⟨text, closed', -, -⟩)
    · simp [shut opening (by simp)] at bracket
    · obtain ⟨-, rfl, -⟩ := skipped_unique text closed closed' bracket bracket'
      rfl
    · obtain ⟨-, rfl, -⟩ := skipped_unique text closed closed' bracket (by decide)
      exact absurd rfl other
    · rw [List.append_assoc, List.cons_append] at text
      obtain ⟨-, rfl, -⟩ := skipped_unique text closed closed' bracket (by decide)
      exact absurd rfl other
  · rintro rfl
    exact .otherBracket rfl closed bracket other

/-- An array opens first, and its inside is not finished or stops. -/
theorem firstFault_iff_of_array :
    FirstFault front (skipped ++ '[' :: inside) e ↔
      (∃ opened, Unfinished inside opened) ∧
          e = .arrayEndNotFound (preview (front ++ (skipped ++ '[' :: inside))) ∨
        ∃ t c rest opened, inside = t ++ c :: rest ∧ Unfinished t opened ∧
          Stops (front ++ (skipped ++ '[' :: inside))
            (utf8Size (front ++ skipped ++ '[' :: t)) opened c e := by
  constructor
  · rintro (⟨shut⟩ | ⟨text, closed', bracket', other⟩ | ⟨text, closed', unfinished⟩ |
      ⟨text, closed', unfinished, stops⟩)
    · have bracket := shut '[' (by simp)
      cases bracket
    · obtain ⟨-, rfl, -⟩ := skipped_unique text closed closed' (by decide) bracket'
      exact absurd rfl other
    · obtain ⟨-, -, rfl⟩ := skipped_unique text closed closed' (by decide) (by decide)
      exact .inl ⟨⟨_, unfinished⟩, rfl⟩
    · rw [List.append_assoc, List.cons_append] at text
      obtain ⟨rfl, -, rfl⟩ := skipped_unique text closed closed' (by decide) (by decide)
      exact .inr ⟨_, _, _, _, rfl, unfinished, stops⟩
  · rintro (⟨⟨opened, unfinished⟩, rfl⟩ | ⟨t, c, rest, opened, rfl, unfinished, stops⟩)
    · exact .unclosed rfl closed unfinished
    · have text : skipped ++ '[' :: (t ++ c :: rest)
          = skipped ++ '[' :: t ++ c :: rest := by simp
      exact .stopped text closed unfinished stops

end FirstFault

/-- Every error is the first thing that goes wrong. -/
theorem extractAt_eq_error_iff {cs : List Char} {e : EditError} :
    extractAt front cs = .error e ↔ FirstFault front cs e := by
  rcases exists_first_opening cs with closed | ⟨skipped, opening, inside, rfl, closed, bracket⟩
  · rw [extractAt_of_closed closed, firstFault_iff_of_closed closed, Except.error.injEq]
  rw [extractAt_append closed bracket]
  by_cases other : opening = '['
  · subst other
    have position : ∀ t, utf8Size (front ++ skipped) + 1 + utf8Size t
        = utf8Size (front ++ skipped ++ '[' :: t) := by
      intro t
      simp only [utf8Size_append, utf8Size_cons, show Char.utf8Size '[' = 1 from rfl]
      omega
    rw [if_neg (not_not.mpr rfl), map_eq_error_iff, readInside_eq_error_iff,
      firstFault_iff_of_array closed]
    constructor
    · rintro (⟨⟨r, hr⟩, rfl⟩ | ⟨t, c, rest, r, rfl, hr, stops⟩)
      · exact .inl ⟨⟨_, exists_run_iff.mp ⟨r, hr, rfl⟩⟩, rfl⟩
      · rw [position] at stops
        exact .inr ⟨t, c, rest, _, rfl, exists_run_iff.mp ⟨r, hr, rfl⟩, stops⟩
    · rintro (⟨⟨opened, unfinished⟩, rfl⟩ | ⟨t, c, rest, opened, rfl, unfinished, stops⟩)
      · obtain ⟨r, hr, -⟩ := exists_run_iff.mpr unfinished
        exact .inl ⟨⟨r, hr⟩, rfl⟩
      · obtain ⟨r, hr, rfl⟩ := exists_run_iff.mpr unfinished
        rw [← position] at stops
        exact .inr ⟨_, _, _, r, rfl, hr, stops⟩
  · rw [if_pos other, firstFault_iff_of_ne closed bracket other, Except.error.injEq]

end ExtractAt

/-- **Reading an array.**  From any place of a text on, it is found if the first bracket that
opens is that of an array and its inside belongs to the grammar, with the entries of the
grammar and the positions of its brackets. Otherwise the error is the first thing that goes
wrong.  The place is where the anchor is found first.  Both sides are exact, so that no text
has an array and an error, or neither of them. -/
theorem extractAt_iff (front cs : List Char) :
    (∀ a, extractAt front cs = .ok a ↔
        ∃ skipped, (∀ c ∈ skipped, isOpening c = false) ∧ a.before = front ++ skipped ∧
          cs = skipped ++ '[' :: a.inner ++ ']' :: a.after ∧ Inside a.inner a.entries) ∧
      (∀ a, extractAt front cs = .ok a → Placed (front ++ cs) a) ∧
      (∀ e, extractAt front cs = .error e ↔ FirstFault front cs e) ∧
      ∀ anchor content, Anchor.cut anchor content = some (front, cs) →
        content = front ++ cs ∧ extract anchor content = extractAt front cs := by
  refine ⟨fun a => extractAt_eq_ok_iff, fun a h => ?_, fun e => extractAt_eq_error_iff,
    fun anchor content h => ?_⟩
  · obtain ⟨skipped, -, hbefore, text, -⟩ := extractAt_eq_ok_iff.mp h
    refine placed_of_text ?_
    rw [hbefore, text]
    simp
  · exact ⟨anchor.eq_append_of_cut h, by rw [extract, h]⟩

/-- An object with brackets of its own, behind a stray bracket and a letter of two bytes. -/
theorem extractAt_iff_nested :
    (Anchor.array "a").cut "é) a: [B, \x7bc: [d, e]\x7d ,]".toList = some ("é) ".toList,
      "a: [B, \x7bc: [d, e]\x7d ,]".toList) ∧
      extract (.array "a") "é) a: [B, \x7bc: [d, e]\x7d ,]".toList
        = .ok ⟨"é) a: ".toList, "B, \x7bc: [d, e]\x7d ,".toList, [],
          ["B", "\x7bc: [d, e]\x7d"]⟩ ∧
      Placed "é) a: [B, \x7bc: [d, e]\x7d ,]".toList
        ⟨"é) a: ".toList, "B, \x7bc: [d, e]\x7d ,".toList, [], ["B", "\x7bc: [d, e]\x7d"]⟩ ∧
      Inside "B, \x7bc: [d, e]\x7d ,".toList ["B", "\x7bc: [d, e]\x7d"] := by
  have found : (Anchor.array "a").cut "é) a: [B, \x7bc: [d, e]\x7d ,]".toList
      = some ("é) ".toList, "a: [B, \x7bc: [d, e]\x7d ,]".toList) := by decide
  have read : extractAt "é) ".toList "a: [B, \x7bc: [d, e]\x7d ,]".toList
      = .ok ⟨"é) a: ".toList, "B, \x7bc: [d, e]\x7d ,".toList, [],
        ["B", "\x7bc: [d, e]\x7d"]⟩ := by decide
  obtain ⟨ok_iff, placed, -, anchored⟩ :=
    extractAt_iff "é) ".toList "a: [B, \x7bc: [d, e]\x7d ,]".toList
  obtain ⟨whole, same⟩ := anchored _ _ found
  obtain ⟨-, -, -, -, inside⟩ := (ok_iff _).mp read
  exact ⟨found, same.trans read, whole ▸ placed _ read, inside⟩

end ArrayLiteral

end Attestation
