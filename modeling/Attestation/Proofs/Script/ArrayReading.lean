import Attestation.Proofs.Script.Entries

/-!
# Reading the inside of an array

`ArrayLiteral.readInside` goes through the inside of an array with a `Reading` as its state and
knows many ways to fail.  Here its steps are taken out of it (`Reading.next`, `Reading.run`),
so that what it reads is a matter of the text between the brackets alone (`Reads`,
`readInside_eq_ok_iff`).  `Reading.Step` says once what a step can be; invariants of the
reading are proved by cases on it.

Entries (`IsEntry`) that are written with commas between them are read back (`reads_join`).

## Design notes

The reader carries a position for its messages and computes the messages on the way, and both
get in the way of an induction.  A `Reading` has neither.  It is enough for what is read, and
the messages are recovered from the place at which the run ends (`ArrayFault`).
-/

namespace Attestation.ArrayLiteral

open Text

/-! ## Steps -/

/-- The state behind one more character; none where no array goes on. -/
def Reading.next (r : Reading) (c : Char) : Option Reading :=
  if isOpening c then
    if c = '\x7b' && r.opened.isEmpty then some ⟨[c], [c], r.entries ++ r.bare⟩
    else some ⟨c :: r.opened, c :: r.pending, r.entries⟩
  else if isClosing c then
    match r.opened with
    | [] => none
    | [opening] =>
        if c ≠ closingOf opening then none
        else if c ≠ '\x7d' then none
        else some ⟨[], [], r.entries ++ [String.ofList (c :: r.pending).reverse]⟩
    | opening :: outer =>
        if c ≠ closingOf opening then none
        else some ⟨outer, c :: r.pending, r.entries⟩
  else some ⟨r.opened, c :: r.pending, r.entries⟩

/-- The steps by which an array goes on.  They are cases of `Reading.next` that later proofs go
through, so that these need not split its conditions again. -/
inductive Reading.Step (r : Reading) (c : Char) : Reading → Prop where
  /-- An object begins, and what has been read before it is bare. -/
  | object (outside : r.opened = []) (brace : c = '\x7b') :
      Step r c ⟨[c], [c], r.entries ++ r.bare⟩
  /-- Another bracket is opened. -/
  | opens (ho : isOpening c = true) (other : ¬ (c = '\x7b' ∧ r.opened = [])) :
      Step r c ⟨c :: r.opened, c :: r.pending, r.entries⟩
  /-- The object ends, and is one entry. -/
  | whole (one : r.opened = ['\x7b']) (brace : c = '\x7d') :
      Step r c ⟨[], [], r.entries ++ [String.ofList (c :: r.pending).reverse]⟩
  /-- A bracket inside of another one is closed. -/
  | closes {opening : Char} {outer : List Char} (one : r.opened = opening :: outer)
      (inside : outer ≠ [])
      (closing : c = closingOf opening) : Step r c ⟨outer, c :: r.pending, r.entries⟩
  /-- No bracket is read. -/
  | plain (ho : isOpening c = false) (hc : isClosing c = false) :
      Step r c ⟨r.opened, c :: r.pending, r.entries⟩

/-- The state behind a text. -/
def Reading.run (r : Reading) : List Char → Option Reading
  | [] => some r
  | c :: cs => (r.next c).bind fun r => r.run cs

/-- The state at the front of an array. -/
def Reading.start : Reading := ⟨[], [], []⟩

/-- The inside of an array reads as the given entries.  It is told by the run of the reading
and not by the grammar, as edits change one entry after the other. -/
def Reads (inner : List Char) (entries : List String) : Prop :=
  ∃ r, Reading.start.run inner = some r ∧ r.opened = [] ∧ entries = r.entries ++ r.bare

theorem closing_closingOf (o : Char) :
    isOpening (closingOf o) = false ∧ isClosing (closingOf o) = true := by
  unfold closingOf
  split
  · decide
  · split <;> decide

/-- Only a brace is closed by a brace. -/
theorem eq_of_closingOf_eq {o : Char} (h : closingOf o = '\x7d') : o = '\x7b' := by
  unfold closingOf at h
  split at h
  · cases h
  · split at h
    · next heq => exact heq
    · cases h

namespace Reading

theorem run_append (r : Reading) (u v : List Char) : r.run (u ++ v) = (r.run u).bind fun r =>
    r.run v := by
  induction u generalizing r with
  | nil => rfl
  | cons c u ih =>
      simp only [List.cons_append, run]
      cases r.next c with
      | none => rfl
      | some r' => exact ih r'

theorem next_of_plain {c : Char} (ho : isOpening c = false) (hc : isClosing c = false)
    (r : Reading) :
    r.next c = some ⟨r.opened, c :: r.pending, r.entries⟩ := by
  simp [next, ho, hc]

/-- A text without brackets is only put aside. -/
theorem run_of_plain {u : List Char} (h : ∀ c ∈ u, isOpening c = false ∧ isClosing c = false)
    (r : Reading) : r.run u = some ⟨r.opened, u.reverse ++ r.pending, r.entries⟩ := by
  induction u generalizing r with
  | nil => rfl
  | cons c u ih =>
      have hc := h c (by simp)
      rw [run, next_of_plain hc.1 hc.2, Option.bind_some, ih fun d hd => h d (by simp [hd])]
      simp

/-- **What a step can be.** -/
theorem next_eq_some_iff {r r' : Reading} {c : Char} : r.next c = some r' ↔ r.Step c r' := by
  obtain ⟨opened, pending, entries⟩ := r
  constructor
  · intro h
    unfold next at h
    split at h
    · next ho =>
        split at h
        · next brace =>
            obtain ⟨rfl, rfl⟩ : c = '\x7b' ∧ opened = [] := by simpa using brace
            cases h
            exact .object rfl rfl
        · next other =>
            cases h
            exact .opens ho (by simpa using other)
    · next ho =>
        split at h
        · next hc =>
            -- A closing bracket is judged by what is open: nothing, one bracket of the array
            -- itself, or a bracket inside of another one.
            match opened with
            | [] => cases h
            | [opening] =>
                simp only at h
                split at h
                · cases h
                next closes =>
                  split at h
                  · cases h
                  next brace =>
                    cases h
                    obtain rfl := not_not.mp brace
                    obtain rfl := eq_of_closingOf_eq (not_not.mp closes).symm
                    exact .whole rfl rfl
            | opening :: inner :: outer =>
                simp only at h
                split at h
                · cases h
                next closes =>
                  cases h
                  exact .closes rfl (by simp) (not_not.mp closes)
        · next hc =>
            cases h
            exact .plain (by simpa using ho) (by simpa using hc)
  · intro h
    cases h with
    | object outside brace =>
        obtain rfl : opened = [] := outside
        subst brace
        rfl
    | opens ho other =>
        have other : ¬ (c = '\x7b' ∧ opened = []) := other
        simp [next, ho, other]
    | whole one brace =>
        obtain rfl : opened = ['\x7b'] := one
        subst brace
        rfl
    | @closes opening outer one inside closing =>
        obtain rfl : opened = opening :: outer := one
        obtain ⟨inner, outer, rfl⟩ := List.exists_cons_of_ne_nil inside
        simp [next, closing, closing_closingOf opening]
    | plain ho hc => exact next_of_plain ho hc _

/-- Earlier entries do not matter. -/
theorem next_entries {r r' : Reading} {c : Char} (h : r.next c = some r') (es : List String) :
    next ⟨r.opened, r.pending, es ++ r.entries⟩ c = some ⟨r'.opened, r'.pending,
      es ++ r'.entries⟩ := by
  rw [next_eq_some_iff] at h ⊢
  cases h with
  | object outside brace =>
      rw [← List.append_assoc]
      exact .object outside brace
  | opens ho other => exact .opens ho other
  | whole one brace =>
      rw [← List.append_assoc]
      exact .whole one brace
  | closes one inside closing => exact .closes one inside closing
  | plain ho hc => exact .plain ho hc

theorem run_entries {r r' : Reading} {u : List Char} (h : r.run u = some r')
    (es : List String) :
    run ⟨r.opened, r.pending, es ++ r.entries⟩ u = some ⟨r'.opened, r'.pending,
      es ++ r'.entries⟩ := by
  induction u generalizing r with
  | nil =>
      cases h
      rfl
  | cons c u ih =>
      rw [run, Option.bind_eq_some_iff] at h
      obtain ⟨r₁, hr₁, h⟩ := h
      rw [run, next_entries hr₁, Option.bind_some, ih h]

end Reading

/-! ## What is read -/

section ReadInside

variable {content rest : List Char} {position : Nat} {r : Reading} {c : Char}

theorem readInside_close (h : r.opened = []) :
    readInside content position r (']' :: rest) = .ok (r.entries ++ r.bare, 0) := by
  obtain ⟨opened, pending, entries⟩ := r
  cases h
  simp [readInside, isOpening, isClosing]

theorem readInside_next {r' : Reading} (h : r.next c = some r') :
    readInside content position r (c :: rest)
      = (readInside content (position + c.utf8Size) r' rest).map fun (es, n) =>
      (es, n + 1) := by
  obtain ⟨opened, pending, entries⟩ := r
  rw [readInside]
  unfold Reading.next at h
  split at h
  · next ho =>
      rw [if_pos ho]
      split at h
      · next hb =>
          cases h
          rw [if_pos hb]
      · next hb =>
          cases h
          rw [if_neg hb]
  · next ho =>
      rw [if_neg ho]
      split at h
      · next hc =>
          rw [if_pos hc]
          -- The reader asks the same questions as a step does, in the same order.
          match opened with
          | [] => cases h
          | [opening] =>
              simp only at h ⊢
              split at h
              · cases h
              · next hm =>
                  rw [if_neg hm]
                  split at h
                  · cases h
                  · next hb =>
                      cases h
                      rw [if_neg hb]
          | opening :: outer :: more =>
              simp only at h ⊢
              split at h
              · cases h
              · next hm =>
                  cases h
                  rw [if_neg hm]
      · next hc =>
          cases h
          rw [if_neg hc]

/-- Where the steps end, the reading ends: at the bracket that closes the array, or with an
error. -/
theorem readInside_stop {es : List String} {n : Nat} (h : r.next c = none)
    (hok : readInside content position r (c :: rest) = .ok (es, n)) :
    r.opened = [] ∧ c = ']' ∧ es = r.entries ++ r.bare ∧ n = 0 := by
  obtain ⟨opened, pending, entries⟩ := r
  rw [readInside] at hok
  unfold Reading.next at h
  split at h
  · split at h <;> cases h
  · next ho =>
      rw [if_neg ho] at hok
      split at h
      · next hc =>
          rw [if_pos hc] at hok
          -- Only the bracket of the array itself ends the reading with a result.
          match opened with
          | [] =>
              simp only at hok
              split at hok
              · next hb =>
                  cases hok
                  exact ⟨rfl, hb, rfl, rfl⟩
              · cases hok
          | [opening] =>
              simp only at h hok
              split at h
              · next hm =>
                  rw [if_pos hm] at hok
                  cases hok
              · next hm =>
                  rw [if_neg hm] at hok
                  split at h
                  · next hb =>
                      rw [if_pos hb] at hok
                      cases hok
                  · cases h
          | opening :: outer :: more =>
              simp only at h hok
              split at h
              · next hm =>
                  rw [if_pos hm] at hok
                  cases hok
              · cases h
      · cases h

end ReadInside

theorem next_close {r : Reading} (h : r.opened = []) : r.next ']' = none := by
  simp [Reading.next, h, isOpening, isClosing]

theorem readInside_eq_ok_iff_run {content cs : List Char} {position n : Nat} {r : Reading}
    {es : List String} :
    readInside content position r cs = .ok (es, n) ↔
      ∃ inner rest r', cs = inner ++ ']' :: rest ∧ r.run inner = some r' ∧ r'.opened = [] ∧
        es = r'.entries ++ r'.bare ∧ n = inner.length := by
  induction cs generalizing position r es n with
  | nil => simp [readInside]
  | cons c cs ih =>
      -- Either the array is closed here, or the reading goes on behind this character.
      cases hn : r.next c with
      | none =>
          constructor
          · intro h
            obtain ⟨ho, rfl, rfl, rfl⟩ := readInside_stop hn h
            exact ⟨[], cs, r, rfl, rfl, ho, rfl, rfl⟩
          · rintro ⟨inner, rest, r', heq, hrun, ho, rfl, rfl⟩
            cases inner with
            | nil =>
                cases heq
                cases hrun
                exact readInside_close ho
            | cons d inner =>
                cases heq
                rw [Reading.run, hn] at hrun
                cases hrun
      | some r₁ =>
          rw [readInside_next hn]
          constructor
          · intro h
            cases hr : readInside content (position + c.utf8Size) r₁ cs with
            | error e => rw [hr] at h; cases h
            | ok found =>
                obtain ⟨es', n'⟩ := found
                rw [hr] at h
                cases h
                obtain ⟨inner, rest, r', rfl, hrun, ho, rfl, rfl⟩ := ih.mp hr
                exact ⟨c :: inner, rest, r', rfl, by rw [Reading.run, hn,
                  Option.bind_some, hrun], ho,
                  rfl, rfl⟩
          · rintro ⟨inner, rest, r', heq, hrun, ho, rfl, rfl⟩
            cases inner with
            | nil =>
                cases heq
                cases hrun
                rw [next_close ho] at hn
                cases hn
            | cons d inner =>
                cases heq
                rw [Reading.run, hn, Option.bind_some] at hrun
                rw [ih.mpr ⟨inner, rest, r', rfl, hrun, ho, rfl, rfl⟩]
                rfl

/-- **What is read** depends on the text up to the closing bracket alone. -/
theorem readInside_eq_ok_iff {content cs : List Char} {position n : Nat} {es : List String} :
    readInside content position ⟨[], [], []⟩ cs = .ok (es, n) ↔
      ∃ inner rest, cs = inner ++ ']' :: rest ∧ Reads inner es ∧ n = inner.length := by
  rw [readInside_eq_ok_iff_run]
  constructor
  · rintro ⟨inner, rest, r, rfl, hrun, ho, rfl, rfl⟩
    exact ⟨inner, rest, rfl, ⟨r, hrun, ho, rfl⟩, rfl⟩
  · rintro ⟨inner, rest, rfl, ⟨r, hrun, ho, rfl⟩, rfl⟩
    exact ⟨inner, rest, r, rfl, hrun, ho, rfl, rfl⟩

/-! ## Entries -/

/-- The characters of an entry outside of objects. -/
def isBare (c : Char) : Bool := c ≠ ',' && !isOpening c && !isClosing c

/-- An object is read as one entry. -/
def IsObject (s : String) : Prop :=
  ∃ t, s.toList = '\x7b' :: t ∧ Reading.run ⟨['\x7b'], ['\x7b'], []⟩ t = some ⟨[], [], [s]⟩

/-- What stands between the commas of an array: a word without brackets, or an object. -/
def IsEntry (s : String) : Prop := IsWord isBare s ∨ IsObject s

theorem isBare_brackets {c : Char} (h : isBare c = true) :
    isOpening c = false ∧ isClosing c = false := by
  simp only [isBare, Bool.and_eq_true, Bool.not_eq_true'] at h
  exact ⟨h.1.2, h.2⟩

/-! ## Reading entries that have been written -/

theorem bareEntries_blank_cons {c : Char} (hc : isBlank c = true) (u : List Char) :
    bareEntries (c :: u) = bareEntries u := by
  have comma : c ≠ ',' := by
    rintro rfl
    revert hc
    decide
  rw [bareEntries_eq, bareEntries_eq]
  cases hs : List.splitOn ',' u with
  | nil => exact absurd hs (List.splitOn_ne_nil _ _)
  | cons piece more =>
      rw [splitOn_cons_of_ne comma hs]
      have same : ImportBlock.nonBlank (c :: piece) = ImportBlock.nonBlank piece := by
        have trimmed : trim (c :: piece) = trim piece := by
          simp [trim, trimStart, hc]
        simp only [ImportBlock.nonBlank, trimmed]
      simp only [List.filterMap_cons, same]

/-- What comes next is no part of what is pending. -/
def Closed (pending : List Char) : Prop :=
  ∀ u, bareEntries (pending.reverse ++ u) = bareEntries pending.reverse ++ bareEntries u

theorem closed_nil : Closed [] := fun _ => rfl

theorem closed_comma (pending : List Char) : Closed (' ' :: ',' :: pending) := by
  intro u
  have blank : isBlank ' ' = true := by decide
  have text : ∀ u, (' ' :: ',' :: pending).reverse ++ u
      = pending.reverse ++ ',' :: ' ' :: u := by
    intro u
    simp
  rw [text, bareEntries_append_comma, bareEntries_blank_cons blank]
  have alone := text []
  rw [List.append_nil] at alone
  rw [alone, bareEntries_append_comma, bareEntries_blank_cons blank, bareEntries_nil,
    List.append_nil]

/-- An entry is read, whatever stands before it. -/
theorem run_entry {e : String} (h : IsEntry e) {pending : List Char} (closed : Closed pending)
    (entries : List String) : ∃ pending' entries',
      Reading.run ⟨[], pending, entries⟩ e.toList = some ⟨[], pending', entries'⟩ ∧
      entries' ++ bareEntries pending'.reverse
        = entries ++ bareEntries pending.reverse ++ [e] := by
  rcases h with word | ⟨t, ht, hrun⟩
  · have comma : ',' ∉ e.toList := by
      intro hc
      have := word.all _ hc
      revert this
      decide
    have own : bareEntries e.toList = [e] := by
      simpa using bareEntries_pad word comma (u := []) (v := []) (by simp) (by simp)
    refine ⟨_, _, Reading.run_of_plain (fun c hc => isBare_brackets (word.all c hc)) _, ?_⟩
    simp only [List.reverse_append, List.reverse_reverse]
    rw [closed, own, List.append_assoc]
  · refine ⟨[], entries ++ bareEntries pending.reverse ++ [e], ?_, by simp⟩
    have opens : Reading.next ⟨[], pending, entries⟩ '\x7b'
        = some ⟨['\x7b'], ['\x7b'], entries ++ bareEntries pending.reverse⟩ := by
      simp [Reading.next, isOpening, Reading.bare]
    rw [ht, Reading.run, opens, Option.bind_some]
    have := Reading.run_entries hrun (entries ++ bareEntries pending.reverse)
    simpa using this

theorem run_join {es : List String} (h : ∀ e ∈ es, IsEntry e) {pending : List Char}
    (closed : Closed pending) (entries : List String) : ∃ pending' entries',
      Reading.run ⟨[], pending, entries⟩ (join ", " es).toList
        = some ⟨[], pending', entries'⟩ ∧
      entries' ++ bareEntries pending'.reverse
        = entries ++ bareEntries pending.reverse ++ es := by
  rw [toList_join]
  induction es generalizing pending entries with
  | nil => exact ⟨pending, entries, rfl, by simp⟩
  | cons e more ih =>
      obtain ⟨p, es', hrun, heq⟩ := run_entry (h e (by simp)) closed entries
      cases more with
      | nil =>
          rw [List.map_singleton, List.intercalate_singleton]
          exact ⟨p, es', hrun, heq⟩
      | cons e' more =>
          have seam : Reading.run ⟨[], p, es'⟩ ", ".toList = some ⟨[], ' ' :: ',' :: p, es'⟩ :=
            Reading.run_of_plain (forall_mem_of_all (by decide)) _
          obtain ⟨p', es'', hrun', heq'⟩ :=
            ih (fun x hx => h x (List.mem_cons_of_mem _ hx)) (closed_comma p) es'
          have pendingSeam : bareEntries (' ' :: ',' :: p).reverse
              = bareEntries p.reverse := by
            simp only [List.reverse_cons, List.append_assoc, List.cons_append, List.nil_append,
              bareEntries_append_comma,
              bareEntries_blank_cons (show isBlank ' ' = true by decide),
              bareEntries_nil, List.append_nil]
          refine ⟨p', es'', ?_, ?_⟩
          · rw [List.map_cons, List.map_cons, List.intercalate_cons_cons, Reading.run_append,
              Reading.run_append, hrun, Option.bind_some, seam, Option.bind_some]
            exact hrun'
          · rw [heq', pendingSeam, heq]
            simp

/-- **Entries that are written with commas between them are read back.** -/
theorem reads_join {es : List String} (h : ∀ e ∈ es, IsEntry e) :
    Reads (join ", " es).toList es := by
  obtain ⟨p, entries, hrun, heq⟩ := run_join h closed_nil []
  refine ⟨⟨[], p, entries⟩, hrun, rfl, ?_⟩
  simpa [Reading.bare] using heq.symm

end Attestation.ArrayLiteral
