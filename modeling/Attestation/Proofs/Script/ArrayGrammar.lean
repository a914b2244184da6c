import Attestation.Proofs.Script.ArrayReading
import Mathlib.Data.List.Chain

/-!
# What an array may hold

The grammar of the inside of an array.  It is a sequence of chunks, each either a text without
brackets or an object in braces, and inside of an object brackets of all kinds may be nested as
long as they are closed in order.

## Main definitions

* `Balanced`: a text in which every bracket is closed.
* `Inside`: the inside of an array and its entries.
* `Unfinished`: a text that the inside of an array may start with, and the brackets that it
  leaves open.

## Main results

* `exists_run_iff`: reading goes along a text exactly as far as it is unfinished.
* `reads_iff`: what is read are the entries of the grammar.

## Design notes

Chunks are cut where objects start and end, and two texts without brackets are never
neighbours, so that a text has only one division into chunks.  `Reading.Reached` relates the
state of the reader to that division, and is preserved by each kind of step (`Reading.Step`);
all that is known of the reader follows from it by induction along the text.
-/

namespace Attestation.ArrayLiteral

open Text

/-! ## The grammar -/

/-- A character that is no bracket. -/
def isPlain (c : Char) : Bool := !isOpening c && !isClosing c

/-- A text in which every bracket is closed by one of its kind.  Strings and comments have no
part in this: a bracket in a string counts as one. -/
inductive Balanced : List Char → Prop where
  | nil : Balanced []
  | plain {c : Char} {rest : List Char} (hc : isPlain c = true) (hrest : Balanced rest) :
      Balanced (c :: rest)
  | group {opening : Char} {inside rest : List Char} (ho : isOpening opening = true)
      (hinside : Balanced inside)
      (hrest : Balanced rest) : Balanced (opening :: inside ++ closingOf opening :: rest)

/-- A part of the inside of an array. -/
inductive Chunk where
  /-- A text without brackets. -/
  | bare (text : List Char)
  /-- An object, given by what stands in its braces. -/
  | object (inside : List Char)

namespace Chunk

def isObject : Chunk → Bool
  | bare _ => false
  | object _ => true

def text : Chunk → List Char
  | bare u => u
  | object inside => '\x7b' :: inside ++ ['\x7d']

/-- A text without brackets is cut at its commas; an object is one entry. -/
def entries : Chunk → List String
  | bare u => bareEntries u
  | object inside => [String.ofList (object inside).text]

def Valid : Chunk → Prop
  | bare u => ∀ c ∈ u, isPlain c = true
  | object inside => Balanced inside

end Chunk

/-- Chunks that are cut where objects start and end: no two texts without brackets are
neighbours. -/
structure Chunked (chunks : List Chunk) : Prop where
  valid : ∀ k ∈ chunks, k.Valid
  apart : chunks.IsChain fun a b => a.isObject = true ∨ b.isObject = true

/-- The inside of an array, and its entries in order.  It is cut into objects and texts between
them; an object is one entry, and a text has those between its commas. -/
def Inside (inner : List Char) (entries : List String) : Prop :=
  ∃ chunks, Chunked chunks ∧ inner = chunks.flatMap Chunk.text ∧
    entries = chunks.flatMap Chunk.entries

/-- A text whose brackets are closed in order, up to some that are still open, innermost
first. -/
inductive Leaves : List Char → List Char → Prop where
  | none {u : List Char} (hu : Balanced u) : Leaves u []
  | more {t u opened : List Char} {opening : Char} (ht : Leaves t opened)
      (ho : isOpening opening = true)
      (hu : Balanced u) : Leaves (t ++ opening :: u) (opening :: opened)

/-- A text that the inside of an array starts with, if nothing goes wrong: whole chunks, and
then perhaps a bracket that is still open, with others inside of it.  Errors are told from such
a text and what comes behind it. -/
inductive Unfinished : List Char → List Char → Prop where
  | between {t : List Char} {entries : List String} (ht : Inside t entries) : Unfinished t []
  | within {t u opened : List Char} {opening : Char} {entries : List String}
      (ht : Inside t entries)
      (ho : isOpening opening = true) (hu : Leaves u opened) :
      Unfinished (t ++ opening :: u) (opened ++ [opening])

section Laws

variable {u v w opened : List Char} {c o : Char} {k : Chunk} {chunks : List Chunk}

theorem isPlain_iff : isPlain c = true ↔ isOpening c = false ∧ isClosing c = false := by
  simp [isPlain]

namespace Balanced

theorem append (hu : Balanced u) (hv : Balanced v) : Balanced (u ++ v) := by
  induction hu with
  | nil => exact hv
  | plain hc _ ih => exact .plain hc ih
  | group ho hinside _ _ ih =>
      rw [List.append_assoc, List.cons_append]
      exact .group ho hinside ih

end Balanced

namespace Leaves

theorem append (hu : Leaves u opened) (hv : Balanced v) : Leaves (u ++ v) opened := by
  cases hu with
  | none hu => exact .none (hu.append hv)
  | more ht ho hu =>
      rw [List.append_assoc, List.cons_append]
      exact .more ht ho (hu.append hv)

theorem concat_opening (hu : Leaves u opened) (ho : isOpening o = true) :
    Leaves (u ++ [o]) (o :: opened) :=
  .more hu ho .nil

/-- The innermost bracket is closed. -/
theorem concat_closing (hu : Leaves u (o :: opened)) : Leaves (u ++ [closingOf o]) opened := by
  cases hu with
  | more ht ho hu =>
      rw [List.append_assoc]
      exact ht.append (.group ho hu .nil)

end Leaves

namespace Chunked

theorem nil : Chunked [] := ⟨by simp, .nil⟩

theorem concat (h : Chunked chunks) (hk : k.Valid)
    (apart : k.isObject = true ∨ ∀ l ∈ chunks.getLast?, l.isObject = true) :
    Chunked (chunks ++ [k]) := by
  constructor
  · intro l hl
    rcases List.mem_append.mp hl with hl | hl
    · exact h.valid l hl
    · rw [List.mem_singleton.mp hl]
      exact hk
  · refine List.isChain_append.mpr ⟨h.apart, .singleton _, ?_⟩
    intro l hl m hm
    obtain rfl : k = m := by simpa using hm
    exact apart.elim .inr fun last => .inl (last l hl)

end Chunked

end Laws

/-! ## What has been read belongs to the grammar -/

/-- How the state stands to the text `t` that has been read: between two chunks the text is
pending that has no brackets, and within brackets the text from the outermost of them on.  This
is the invariant of the reading. -/
inductive Reading.Reached (t : List Char) (r : Reading) : Prop where
  | between {chunks : List Chunk} (opened : r.opened = []) (chunked : Chunked chunks)
      (last : ∀ k ∈ chunks.getLast?, k.isObject = true)
      (plain : ∀ c ∈ r.pending.reverse, isPlain c = true)
      (text : t = chunks.flatMap Chunk.text ++ r.pending.reverse)
      (entries : r.entries = chunks.flatMap Chunk.entries)
  | within {chunks : List Chunk} {opening : Char} {u opened : List Char}
      (outer : r.opened = opened ++ [opening])
      (chunked : Chunked chunks) (bracket : isOpening opening = true)
      (leaves : Leaves u opened)
      (text : t = chunks.flatMap Chunk.text ++ opening :: u)
      (object : opening = '\x7b' → r.pending.reverse = opening :: u ∧
        r.entries = chunks.flatMap Chunk.entries)

namespace Reading

variable {r r' : Reading} {t u : List Char} {c : Char}

/-- The chunks between which the reading stands, the pending text with them. -/
theorem Reached.exists_chunked (h : r.Reached t) (ho : r.opened = []) :
    ∃ chunks, Chunked chunks ∧ t = chunks.flatMap Chunk.text ∧
      r.entries ++ r.bare = chunks.flatMap Chunk.entries := by
  cases h with
  | @between chunks _ chunked last plain text entries =>
      refine ⟨chunks ++ [.bare r.pending.reverse],
        chunked.concat (k := .bare _) plain (.inr last), ?_, ?_⟩
      · rw [text, List.flatMap_append, List.flatMap_singleton]
        rfl
      · rw [entries, List.flatMap_append, List.flatMap_singleton]
        rfl
  | within outer => simp [ho] at outer

theorem Reached.unfinished (h : r.Reached t) : Unfinished t r.opened := by
  cases h with
  | @between chunks opened chunked last plain text entries =>
      obtain ⟨whole, wholeChunked, wholeText, -⟩ :=
        Reached.exists_chunked (.between opened chunked last plain text
        entries) opened
      rw [opened]
      exact .between ⟨whole, wholeChunked, wholeText, rfl⟩
  | within outer chunked bracket leaves text object =>
      rw [outer, text]
      exact .within ⟨_, chunked, rfl, rfl⟩ bracket leaves

/-- Every step stays with the grammar. -/
theorem Reached.next (h : r.Reached t) (hn : r.next c = some r') : r'.Reached (t ++ [c]) := by
  have step := next_eq_some_iff.mp hn
  have whole := h.exists_chunked
  cases h with
  | between outside chunked last plain text entries =>
      obtain ⟨all, allChunked, allText, allEntries⟩ := whole outside
      cases step with
      | object _ brace =>
          exact .within rfl allChunked (by rw [brace]; rfl) (.none .nil) (by rw [allText])
            fun _ => ⟨rfl, allEntries⟩
      | opens ho other =>
          exact .within (by rw [outside]; rfl) allChunked ho (.none .nil) (by rw [allText])
            fun brace =>
            absurd ⟨brace, outside⟩ other
      | whole one => cases outside.symm.trans one
      | closes one => cases outside.symm.trans one
      | plain ho hc =>
          refine .between outside chunked last ?_ (by simp [text]) entries
          rw [List.reverse_cons]
          exact List.forall_mem_append.mpr ⟨plain,
            List.forall_mem_singleton.mpr (isPlain_iff.mpr ⟨ho, hc⟩)⟩
  | @within chunks opening u opened outer chunked bracket leaves text object =>
      -- The brackets inside the outermost one are changed, and the text goes on.
      have onward : ∀ {opened' : List Char}, Leaves (u ++ [c]) opened' →
          Reached (t ++ [c]) ⟨opened' ++ [opening], c :: r.pending, r.entries⟩ := by
        intro opened' leaves'
        refine .within rfl chunked bracket leaves' (by rw [text]; simp) fun brace => ?_
        obtain ⟨hp, hes⟩ := object brace
        exact ⟨by rw [List.reverse_cons, hp]; rfl, hes⟩
      cases step with
      | object outside => simp [outer] at outside
      | opens ho =>
          rw [outer]
          exact onward (leaves.concat_opening ho)
      | whole one brace =>
          obtain ⟨rfl, rfl⟩ : opened = [] ∧ opening = '\x7b' := by
            simpa [List.append_eq_cons_iff] using outer.symm.trans one
          obtain ⟨hp, hes⟩ := object rfl
          have balanced : Balanced u := by
            cases leaves with
            | none hu => exact hu
          subst brace
          refine .between rfl (chunked.concat (k := .object u) balanced (.inl rfl))
            (by simp [Chunk.isObject]) (by simp)
            ?_ ?_
          · simp [text, Chunk.text]
          · simp [hes, Chunk.entries, Chunk.text, hp]
      | @closes inner outside one more closing =>
          obtain ⟨opened', rfl, rfl⟩ :
            ∃ opened', opened = inner :: opened' ∧ outside = opened' ++ [opening] := by
            have eq := outer.symm.trans one
            cases opened with
            | nil =>
                cases eq
                exact absurd rfl more
            | cons o opened' =>
                obtain ⟨rfl, rfl⟩ := List.cons.inj eq
                exact ⟨opened', rfl, rfl⟩
          subst closing
          exact onward leaves.concat_closing
      | plain ho hc =>
          rw [outer]
          exact onward (leaves.append (.plain (isPlain_iff.mpr ⟨ho, hc⟩) .nil))

theorem Reached.run (h : r.Reached t) (hr : r.run u = some r') : r'.Reached (t ++ u) := by
  induction u generalizing r t with
  | nil =>
      cases hr
      rwa [List.append_nil]
  | cons c u ih =>
      rw [Reading.run, Option.bind_eq_some_iff] at hr
      obtain ⟨r₁, hn, hr⟩ := hr
      have := ih (h.next hn) hr
      rwa [List.append_assoc, List.singleton_append] at this

theorem reached_start : start.Reached [] :=
  .between rfl .nil (by simp) (by simp [start]) rfl rfl

end Reading

/-! ## What belongs to the grammar is read -/

section Run

variable {u opened : List Char} {c : Char}

/-- Inside of brackets, a balanced text is put aside. -/
theorem run_balanced (h : Balanced u) (hne : opened ≠ []) (pending : List Char)
    (es : List String) :
    Reading.run ⟨opened, pending, es⟩ u = some ⟨opened, u.reverse ++ pending, es⟩ := by
  induction h generalizing opened pending with
  | nil => rfl
  | plain hc _ ih =>
      have plain := isPlain_iff.mp hc
      rw [Reading.run, Reading.next_of_plain plain.1 plain.2, Option.bind_some, ih hne]
      simp
  | @group o inside rest ho _ _ ihInside ihRest =>
      obtain ⟨d, more, rfl⟩ := List.exists_cons_of_ne_nil hne
      have opens : Reading.next ⟨d :: more, pending, es⟩ o = some ⟨o :: d :: more,
        o :: pending, es⟩ := by
        simp [Reading.next, ho]
      have closes : ∀ p, Reading.next ⟨o :: d :: more, p, es⟩ (closingOf o)
          = some ⟨d :: more, closingOf o :: p, es⟩ := by
        intro p
        simp [Reading.next, closing_closingOf o]
      rw [List.cons_append, Reading.run, opens, Option.bind_some, Reading.run_append,
        ihInside (by simp),
        Option.bind_some, Reading.run, closes, Option.bind_some, ihRest hne]
      simp

/-- Brackets that stay open are kept. -/
theorem run_leaves {base : List Char} (h : Leaves u opened) (hne : base ≠ [])
    (pending : List Char)
    (es : List String) :
    Reading.run ⟨base, pending, es⟩ u = some ⟨opened ++ base, u.reverse ++ pending, es⟩ := by
  induction h with
  | none hu => exact run_balanced hu hne pending es
  | @more t u opened o _ ho hu ih =>
      have opens : Reading.next ⟨opened ++ base, t.reverse ++ pending, es⟩ o
          = some ⟨o :: (opened ++ base), o :: (t.reverse ++ pending), es⟩ := by
        simp [Reading.next, ho, hne]
      rw [Reading.run_append, ih, Option.bind_some, Reading.run, opens, Option.bind_some,
        run_balanced hu (by simp)]
      simp

/-- Chunks are read, unless a text without brackets would go on with what is pending. -/
theorem run_chunks {chunks : List Chunk} (h : Chunked chunks) {pending : List Char}
    (es : List String)
    (apart : pending = [] ∨ ∀ k ∈ chunks.head?, k.isObject = true) :
    ∃ pending' es', Reading.run ⟨[], pending, es⟩ (chunks.flatMap Chunk.text)
      = some ⟨[], pending', es'⟩ ∧
      es' ++ bareEntries pending'.reverse
        = es ++ bareEntries pending.reverse ++ chunks.flatMap Chunk.entries := by
  induction chunks generalizing pending es with
  | nil => exact ⟨pending, es, rfl, by simp⟩
  | cons k more ih =>
      have chunked : Chunked more := ⟨fun l hl => h.valid l (List.mem_cons_of_mem _ hl),
        h.apart.of_cons⟩
      have valid := h.valid k (by simp)
      rw [List.flatMap_cons, List.flatMap_cons, Reading.run_append]
      -- The induction is on the chunks. Bare text waits for what comes next, and an object
      -- stands apart, so the text in front of it is split into entries first.
      cases k with
      | bare u =>
          obtain rfl : pending = [] := apart.resolve_right (by simp [Chunk.isObject])
          have next : ∀ l ∈ more.head?, l.isObject = true := by
            intro l hl
            exact (h.apart.rel_head? hl).resolve_left (by simp [Chunk.isObject])
          have read : Reading.run ⟨[], [], es⟩ u = some ⟨[], u.reverse ++ [], es⟩ :=
            Reading.run_of_plain (fun c hc => isPlain_iff.mp (valid c hc)) _
          obtain ⟨p, es', hrun, heq⟩ := ih chunked es (.inr next)
          refine ⟨p, es', by rw [Chunk.text, read, Option.bind_some]; exact hrun, ?_⟩
          simpa [Chunk.entries] using heq
      | object inside =>
          have opens : Reading.next ⟨[], pending, es⟩ '\x7b'
              = some ⟨['\x7b'], ['\x7b'], es ++ bareEntries pending.reverse⟩ := by
            simp [Reading.next, isOpening, Reading.bare]
          have closes : ∀ p es, Reading.next ⟨['\x7b'], p, es⟩ '\x7d'
              = some ⟨[], [], es ++ [String.ofList ('\x7d' :: p).reverse]⟩ := by
            intro p es
            simp [Reading.next, isOpening, isClosing, closingOf]
          obtain ⟨p, es', hrun, heq⟩ := ih chunked
            (es ++ bareEntries pending.reverse ++ [String.ofList (Chunk.object inside).text])
            (.inl rfl)
          refine ⟨p, es', ?_, ?_⟩
          · rw [Chunk.text, List.cons_append, Reading.run, opens, Option.bind_some,
              Reading.run_append,
              run_balanced valid (by simp), Option.bind_some, Reading.run, closes,
              Option.bind_some, Reading.run,
              Option.bind_some, ← hrun]
            simp [Chunk.text]
          · rw [heq]
            simp [Chunk.entries]

end Run

/-! ## Both together -/

/-- **What is read is what the grammar says.** -/
theorem reads_iff {inner : List Char} {entries : List String} : Reads inner entries ↔
    Inside inner entries := by
  constructor
  · rintro ⟨r, hr, ho, rfl⟩
    have reached := Reading.reached_start.run hr
    rw [List.nil_append] at reached
    exact reached.exists_chunked ho
  · rintro ⟨chunks, chunked, rfl, rfl⟩
    obtain ⟨p, es, hrun, heq⟩ := run_chunks chunked [] (.inl rfl)
    exact ⟨⟨[], p, es⟩, hrun, rfl, by simpa [Reading.bare] using heq.symm⟩

/-- **How far the reading goes**: along the texts that are unfinished, with these brackets
open. -/
theorem exists_run_iff {t opened : List Char} :
    (∃ r, Reading.start.run t = some r ∧ r.opened = opened) ↔ Unfinished t opened := by
  constructor
  · rintro ⟨r, hr, rfl⟩
    have reached := Reading.reached_start.run hr
    rw [List.nil_append] at reached
    exact reached.unfinished
  · intro h
    cases h with
    | between ht =>
        obtain ⟨r, hr, ho, -⟩ := reads_iff.mpr ht
        exact ⟨r, hr, ho⟩
    | @within t u opened o entries ht ho hu =>
        obtain ⟨⟨ropened, pending, es⟩, hr, hopened, -⟩ := reads_iff.mpr ht
        simp only at hopened
        subst hopened
        obtain ⟨p, es', opens⟩ : ∃ p es', Reading.next ⟨[], pending, es⟩ o
            = some ⟨[o], p, es'⟩ := by
          by_cases hb : o = '\x7b'
          · exact ⟨_, _, by simp [Reading.next, hb, isOpening]; exact ⟨rfl, rfl⟩⟩
          · exact ⟨_, _, by simp [Reading.next, ho, hb]; exact ⟨rfl, rfl⟩⟩
        refine ⟨⟨opened ++ [o], u.reverse ++ p, es'⟩, ?_, rfl⟩
        rw [Reading.run_append, hr, Option.bind_some, Reading.run, opens, Option.bind_some,
          run_leaves hu (by simp)]

/-- An object is a balanced text in braces. -/
theorem isObject_iff {s : String} :
    IsObject s ↔ ∃ inside, Balanced inside ∧ s.toList = '\x7b' :: inside ++ ['\x7d'] := by
  constructor
  · rintro ⟨t, ht, hrun⟩
    have read : Reading.start.run s.toList = some ⟨[], [], [s]⟩ := by
      rw [ht, Reading.run]
      exact hrun
    obtain ⟨chunks, chunked, text, entries⟩ := reads_iff.mp ⟨_, read, rfl, rfl⟩
    -- The brace in front belongs to an object, and there is one entry.
    have brace : '\x7b' ∈ chunks.flatMap Chunk.text := by
      rw [← text, ht]
      exact List.mem_cons_self
    obtain ⟨k, hk, hmem⟩ := List.mem_flatMap.mp brace
    have valid := chunked.valid k hk
    cases k with
    | bare u => exact absurd (valid _ hmem) (by decide)
    | object inside =>
        have entry : String.ofList (Chunk.object inside).text ∈ chunks.flatMap Chunk.entries :=
          List.mem_flatMap.mpr ⟨_, hk, by simp [Chunk.entries]⟩
        rw [← entries] at entry
        obtain rfl : String.ofList (Chunk.object inside).text = s := by
          simpa [Reading.bare] using entry
        exact ⟨inside, valid, by rw [String.toList_ofList]; rfl⟩
  · rintro ⟨inside, balanced, hs⟩
    refine ⟨inside ++ ['\x7d'], by rw [hs]; rfl, ?_⟩
    have closes : Reading.next ⟨['\x7b'], inside.reverse ++ ['\x7b'], []⟩ '\x7d'
        = some ⟨[], [], [s]⟩ := by
      have object : String.ofList ('\x7d' :: (inside.reverse ++ ['\x7b'])).reverse = s := by
        rw [← String.ofList_toList (s := s), hs]
        simp
      simp [Reading.next, isOpening, isClosing, closingOf, ← object]
    rw [Reading.run_append, run_balanced balanced (by simp), Option.bind_some,
      Reading.run, closes]
    rfl

/-- What is read are entries, and they stand between the brackets. -/
theorem Reads.isEntry {inner : List Char} {entries : List String} (h : Reads inner entries) :
    ∀ e ∈ entries, IsEntry e ∧ e.toList <:+: inner := by
  obtain ⟨chunks, chunked, rfl, rfl⟩ := reads_iff.mp h
  intro e he
  obtain ⟨k, hk, he⟩ := List.mem_flatMap.mp he
  have part : k.text <:+: chunks.flatMap Chunk.text := by
    obtain ⟨front, back, rfl⟩ := List.append_of_mem hk
    exact ⟨front.flatMap Chunk.text, back.flatMap Chunk.text, by simp⟩
  have valid := chunked.valid k hk
  cases k with
  | bare u =>
      obtain ⟨inside, word⟩ := mem_bareEntries he
      refine ⟨.inl ⟨word.nonempty, word.trimmed, fun c hc => ?_⟩, inside.trans part⟩
      have plain := isPlain_iff.mp (valid c (inside.subset hc))
      have comma := word.all c hc
      simp only [isBare, plain, Bool.not_false, Bool.and_true]
      exact comma
  | object inside =>
      obtain rfl := List.mem_singleton.mp he
      refine ⟨.inr (isObject_iff.mpr ⟨inside, valid, ?_⟩), ?_⟩
      · rw [String.toList_ofList]
        rfl
      · rw [String.toList_ofList]
        exact part

end Attestation.ArrayLiteral
