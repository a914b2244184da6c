import Attestation.Proofs.Script.ArrayFault

/-!
# Reading an array byte by byte

The extent of an array can be found without looking at characters: the bytes of the text are
gone through one by one, and the positions at which entries start and end are only counted.
This gives what reading the characters gives, and every slice that is taken on the way is one
(`scan_eq_extract`).

## Main definitions

* `ArrayLiteral.ByteScan`: a reading that counts bytes.
* `ArrayLiteral.Search`: where a text is searched for the anchor of an array.
* `ArrayLiteral.Quoted`: a bracket that is closed by one of another kind, and what is quoted
  around it.

## Design notes

Slicing a text at a position that is no boundary of characters is an abort of the program.  It
is modelled by a partial function (`Text.slice?`), and the scan is built from it without a
check of its own, so that its success is a result and not an assumption.  The reason is that
brackets are characters of one byte and none of their bytes stands inside of another character;
the context of a message is cut at rounded positions.
-/

namespace Attestation

open Text

/-! ## Characters and their bytes -/

/-- The character that is shown for a byte. -/
def Text.ofByte (b : UInt8) : Char := Char.ofNat b.toNat

theorem Text.toNat_ofByte (b : UInt8) : (ofByte b).toNat = b.toNat := by
  have small := b.toNat_lt
  have valid : b.toNat.isValidChar := .inl (by omega)
  rw [ofByte, Char.ofNat, dif_pos valid]
  rfl

/-- A character is its only byte, or all its bytes lie above those of such characters. -/
theorem Text.utf8EncodeChar_cases (c : Char) :
    (∃ b, String.utf8EncodeChar c = [b] ∧ ofByte b = c) ∨
      128 ≤ c.toNat ∧ ∀ b ∈ String.utf8EncodeChar c, 128 ≤ (ofByte b).toNat := by
  have code : c.val.toNat = c.toNat := rfl
  have value : ∀ {n : Nat}, n < 256 → (ofByte (UInt8.ofNat n)).toNat = n := fun hn => by
    rw [toNat_ofByte, UInt8.toNat_ofNat_of_lt' hn]
  rw [String.utf8EncodeChar.eq_1, code]
  by_cases small : c.toNat < 128
  · refine .inl ⟨UInt8.ofNat c.toNat, if_pos (by omega), ?_⟩
    exact Char.toNat_inj.mp (value (by omega))
  · have large : ∀ {n : Nat} {b : UInt8}, b = UInt8.ofNat n → n < 256 → 128 ≤ n →
      128 ≤ (ofByte b).toNat := by
      rintro n b rfl hn above
      rwa [value hn]
    refine .inr ⟨by omega, fun b hb => ?_⟩
    rw [if_neg (by omega)] at hb
    split_ifs at hb
    all_goals simp only [List.mem_cons, List.not_mem_nil, or_false] at hb
    · rcases hb with hb | hb
      all_goals exact large hb (by omega) (by omega)
    · rcases hb with hb | hb | hb
      all_goals exact large hb (by omega) (by omega)
    · rcases hb with hb | hb | hb | hb
      all_goals exact large hb (by omega) (by omega)

namespace ArrayLiteral

/-- No bracket lies above the characters of one byte. -/
theorem isPlain_of_le {c : Char} (h : 128 ≤ c.toNat) : isPlain c = true := by
  have other : ∀ d : Char, d.toNat < 128 → c ≠ d := by
    rintro d small rfl
    omega
  simp [isPlain, isOpening, isClosing, other]

/-! ## The scan -/

/-- A reading that counts bytes. -/
structure ByteScan where
  /-- The brackets that are open, innermost first. -/
  opened : List Char
  /-- The entries so far. -/
  entries : List String
  /-- The position of the bracket that opens the array. -/
  start : Nat
  /-- The position behind the last entry. -/
  pending : Nat

/-- What a scan finds. -/
structure Span where
  /-- The entries, in order. -/
  entries : List String
  /-- The position of the opening bracket. -/
  start : Nat
  /-- The position of the closing bracket. -/
  stop : Nat

/-- The start of a text, as messages quote it, by positions. -/
def preview? (content : List Char) : Option String :=
  (slice? content 0 (floorBoundary (utf8Bytes content) contextSize)).map fun quoted =>
  String.ofList quoted ++ "..."

/-- The text around a position, as messages quote it, by positions. -/
def contextAround? (content : List Char) (position : Nat) : Option String :=
  (slice? content (floorBoundary (utf8Bytes content) (position - contextSize))
    (floorBoundary (utf8Bytes content) (position + contextSize))).map String.ofList

/-- The scan behind one more byte, or how it ends there.  There is nothing where a slice is
none.  Brackets have one byte, so a byte of a longer character is never one of them. -/
def ByteScan.step (content : List Char) (position : Nat) (s : ByteScan) (c : Char) :
    Option (ByteScan ⊕ Except EditError Span) :=
  if isOpening c then
    match s.opened with
    | [] =>
        if c ≠ '[' then some (.inr (.error (.expectedOpenBracket c)))
        else some (.inl ⟨[c], s.entries, position, position + 1⟩)
    | [_] =>
        if c = '\x7b' then
          (slice? content s.pending position).map fun part =>
            .inl ⟨c :: s.opened, s.entries ++ bareEntries part, s.start, position⟩
        else some (.inl { s with opened := c :: s.opened })
    | _ => some (.inl { s with opened := c :: s.opened })
  else if isClosing c then
    match s.opened with
    | [] => some (.inl s)
    | opening :: outer =>
        if closingOf opening ≠ c then
          (contextAround? content position).map fun context => .inr
          (.error (.bracketMismatch opening c context))
        else
          match outer with
          | [] =>
              (slice? content s.pending position).map fun part =>
                .inr (.ok ⟨s.entries ++ bareEntries part, s.start, position⟩)
          | [_] =>
              if c ≠ '\x7d' then some (.inr (.error (.expectedObjectClose c)))
              else
                (slice? content s.pending (position + 1)).map fun part =>
                  .inl ⟨outer, s.entries ++ [String.ofList part], s.start, position + 1⟩
          | _ => some (.inl { s with opened := outer })
  else some (.inl s)

/-- Scans the bytes from a position on. -/
def ByteScan.run (content : List Char) (position : Nat) (s : ByteScan) : List UInt8 →
    Option (Except EditError Span)
  | [] => (preview? content).map fun quoted => .error (.arrayEndNotFound quoted)
  | b :: rest =>
      (s.step content position (ofByte b)).bind fun
        | .inl s => s.run content (position + 1) rest
        | .inr outcome => some outcome

/-- The scan in front of the array. -/
def ByteScan.front : ByteScan := ⟨[], [], 0, 0⟩

/-- The entries and the positions of an array. -/
def span (a : ArrayLiteral) : Span := ⟨a.entries, a.start, a.stop⟩

/-- The text with the entries in place of those of an array, by positions. -/
def replace? (content : List Char) (array : Span) : Option (List Char) := do
  let before ← slice? content 0 array.start
  let after ← slice? content (array.stop + 1) (utf8Size content)
  return before ++ '[' :: (Text.join ", " array.entries).toList ++ ']' :: after

/-! ## Quotes -/

section Quotes

variable {content front behind : List Char} {position : Nat} {c : Char}

theorem preview?_eq (content : List Char) : preview? content = some (preview content) := by
  have taken := slice?_append [] (cutAt contextSize content).1 (cutAt contextSize content).2
  rw [List.nil_append, cutAt_append, utf8Size_nil] at taken
  rw [preview?, floorBoundary_eq, taken]
  rfl

theorem contextAround?_eq (content : List Char) (position : Nat) :
    contextAround? content position = some (contextAround content position) := by
  obtain ⟨between, part⟩ :=
    cutAt_mono (show position - contextSize ≤ position + contextSize by omega) content
  have taken := slice?_append (cutAt (position - contextSize) content).1 between
    (cutAt (position + contextSize) content).2
  rw [part, cutAt_append] at taken
  rw [contextAround?, floorBoundary_eq, floorBoundary_eq, taken, Option.map_some,
    contextAround, ← part, List.drop_left]

/-- What is quoted around a character of one byte holds it.  It reaches as far as the limit on
either side, and less than a character further in front. -/
theorem exists_contextAround (front : List Char) {c : Char} (one : c.utf8Size = 1)
    (behind : List Char) :
    ∃ left right, left <:+ front ∧ right <+: behind ∧
      (contextAround (front ++ c :: behind) (utf8Size front)).toList = left ++ c :: right ∧
        utf8Size (left ++ c :: right) ≤ 203 := by
  obtain ⟨content, text⟩ : ∃ content, content = front ++ c :: behind := ⟨_, rfl⟩
  obtain ⟨upTo, hupTo⟩ : ∃ upTo, upTo = (cutAt (utf8Size front + contextSize) content).1 :=
    ⟨_, rfl⟩
  obtain ⟨skipped, hskipped⟩ :
    ∃ skipped, skipped = (cutAt (utf8Size front - contextSize) content).1 := ⟨_, rfl⟩
  -- The bracket keeps to the upper limit, and the lower one lies in front of it.
  obtain ⟨right, hright⟩ : front ++ [c] <+: upTo := by
    rw [hupTo]
    refine prefix_cutAt_of_le ⟨behind, by rw [text]; simp⟩ ?_
    rw [utf8Size_append, utf8Size_cons, utf8Size_nil, one, contextSize]
    omega
  obtain ⟨left, hleft⟩ : skipped <+: front := by
    refine prefix_of_utf8Size_le (hskipped ▸ prefix_cutAt _ content) ⟨c :: behind, text.symm⟩
      ?_
    rw [hskipped]
    exact (utf8Size_cutAt_le _ _).trans (Nat.sub_le _ _)
  have within : right <+: behind := by
    have part : upTo <+: content := hupTo ▸ prefix_cutAt _ content
    rw [← hright, text, List.append_assoc, List.prefix_append_right_inj, List.singleton_append,
      List.cons_prefix_cons]
      at part
    exact part.2
  have above : utf8Size upTo ≤ utf8Size front + contextSize := by
    rw [hupTo]
    exact utf8Size_cutAt_le _ _
  have below : utf8Size front - contextSize < utf8Size skipped + 4 := by
    rw [hskipped]
    refine lt_utf8Size_cutAt fun whole => ?_
    have short := (hskipped.trans whole) ▸
      (List.IsPrefix.length_le ⟨left, hleft⟩ : skipped.length ≤ front.length)
    rw [text, List.length_append, List.length_cons] at short
    omega
  refine ⟨left, right, ⟨skipped, hleft⟩, within, ?_, ?_⟩
  · rw [← text, contextAround, ← hupTo, ← hskipped, String.toList_ofList, ← hright, ← hleft]
    simp
  · have sizeFront := congrArg utf8Size hleft
    have sizeUpTo := congrArg utf8Size hright
    simp only [utf8Size_append, utf8Size_cons, utf8Size_nil,
      contextSize] at sizeFront sizeUpTo above below ⊢
    omega

end Quotes

/-! ## Bytes that are passed over -/

section Idle

variable {content skipped : List Char} {position : Nat} {s : ByteScan} {c : Char}

theorem step_of_plain (plain : isPlain c = true) :
    s.step content position c = some (.inl s) := by
  obtain ⟨notOpening, notClosing⟩ := isPlain_iff.mp plain
  simp [ByteScan.step, notOpening, notClosing]

/-- In front of the array, brackets may be closed. -/
theorem step_of_front (front : s.opened = []) (closed : isOpening c = false) :
    s.step content position c = some (.inl s) := by
  simp [ByteScan.step, closed, front]

/-- Where a character is passed over, so is each of its bytes. -/
theorem step_of_mem_bytes (idle : s.step content position c = some (.inl s)) {b : UInt8}
    (hb : b ∈ String.utf8EncodeChar c) :
    s.step content position (ofByte b) = some (.inl s) := by
  rcases utf8EncodeChar_cases c with ⟨only, bytes, shown⟩ | ⟨-, wide⟩
  · rw [bytes, List.mem_singleton] at hb
    rw [hb, shown, idle]
  · exact step_of_plain (isPlain_of_le (wide b hb))

theorem run_append_of_idle {bytes : List UInt8}
    (idle : ∀ b ∈ bytes, ∀ position, s.step content position (ofByte b) = some (.inl s))
    (rest : List UInt8) :
    s.run content position (bytes ++ rest) = s.run content (position + bytes.length) rest := by
  induction bytes generalizing position with
  | nil => rfl
  | cons b bytes ih =>
      rw [List.cons_append, ByteScan.run, idle b List.mem_cons_self, Option.bind_some]
      dsimp only
      rw [ih fun d hd => idle d (List.mem_cons_of_mem _ hd), List.length_cons, Nat.add_assoc,
        Nat.add_comm 1]

/-- A character that is no bracket is passed over, however many bytes it has. -/
theorem run_of_plain (plain : isPlain c = true) (rest : List UInt8) :
    s.run content position (String.utf8EncodeChar c ++ rest)
      = s.run content (position + c.utf8Size) rest := by
  rw [← String.length_utf8EncodeChar]
  exact run_append_of_idle (fun b hb _ => step_of_mem_bytes (step_of_plain plain) hb) rest

theorem run_of_front (front : s.opened = []) (closed : ∀ c ∈ skipped, isOpening c = false)
    (rest : List UInt8) :
    s.run content position (utf8Bytes skipped ++ rest)
      = s.run content (position + utf8Size skipped) rest := by
  rw [← length_utf8Bytes]
  refine run_append_of_idle (fun b hb _ => ?_) rest
  obtain ⟨c, hc, hb⟩ := List.mem_flatMap.mp hb
  exact step_of_mem_bytes (step_of_front front (closed c hc)) hb

end Idle

/-! ## The scan follows the reading -/

/-- A scan that has come as far as a reading: what is pending is the text between the two
positions.  This is what each step keeps, and it makes every slice a cut between characters. -/
structure ByteScan.Follows (content : List Char) (position : Nat) (r : Reading) (s : ByteScan)
    (rest : List Char) :
    Prop where
  opened : s.opened = r.opened ++ ['[']
  entries : s.entries = r.entries
  text : ∃ front, content = front ++ r.pending.reverse ++ rest ∧ utf8Size front = s.pending ∧
    utf8Size (front ++ r.pending.reverse) = position

section Follows

variable {content rest : List Char} {position : Nat} {r r' : Reading} {s : ByteScan} {c : Char}

theorem exists_byte_of_bracket (bracket : isPlain c = false) :
    ∃ b, String.utf8EncodeChar c = [b] ∧ ofByte b = c := by
  refine (utf8EncodeChar_cases c).resolve_right fun wide => ?_
  rw [isPlain_of_le wide.1] at bracket
  cases bracket

theorem utf8Size_of_bracket (bracket : isPlain c = false) : c.utf8Size = 1 := by
  obtain ⟨b, bytes, -⟩ := exists_byte_of_bracket bracket
  rw [← String.length_utf8EncodeChar, bytes, List.length_singleton]

namespace ByteScan.Follows

/-- What is pending is a slice of the text. -/
theorem slice (h : s.Follows content position r rest) :
    slice? content s.pending position = some r.pending.reverse := by
  obtain ⟨front, rfl, start, stop⟩ := h.text
  rw [← start, ← stop]
  exact slice?_append front r.pending.reverse rest

/-- One more character is pending. -/
theorem push (h : s.Follows content position r (c :: rest)) (opened : List Char) :
    Follows content (position + c.utf8Size) ⟨opened, c :: r.pending, r.entries⟩
      { s with opened := opened ++ ['['] }
      rest := by
  obtain ⟨front, text, start, stop⟩ := h.text
  refine ⟨rfl, h.entries, front, by simp [text], start, ?_⟩
  rw [List.reverse_cons, ← List.append_assoc, utf8Size_append, stop, utf8Size_cons,
    utf8Size_nil, Nat.add_zero]

theorem plain (h : s.Follows content position r (c :: rest)) :
    s.Follows content (position + c.utf8Size) ⟨r.opened, c :: r.pending, r.entries⟩ rest := by
  have pushed := h.push r.opened
  rwa [← h.opened] at pushed

/-- The pending text with one more character is a slice as well. -/
theorem slice_succ (h : s.Follows content position r (c :: rest)) (one : c.utf8Size = 1) :
    slice? content s.pending (position + 1) = some (c :: r.pending).reverse := by
  have pushed := (h.push r.opened).slice
  rwa [one] at pushed

/-- Where an object opens, what is pending in front of it is bare. -/
theorem open_object (h : s.Follows content position r (c :: rest)) (bare : List String) :
    Follows content (position + c.utf8Size) ⟨[c], [c], r.entries ++ bare⟩
      ⟨[c, '['], s.entries ++ bare, s.start, position⟩ rest := by
  obtain ⟨front, text, -, stop⟩ := h.text
  refine ⟨rfl, by rw [h.entries], front ++ r.pending.reverse, by simpa using text, stop, ?_⟩
  rw [List.reverse_singleton, utf8Size_append, stop, utf8Size_cons, utf8Size_nil, Nat.add_zero]

/-- Where an object closes, nothing is pending behind it. -/
theorem close_object (h : s.Follows content position r (c :: rest)) (one : c.utf8Size = 1)
    (entry : String) :
    Follows content (position + c.utf8Size) ⟨[], [], r.entries ++ [entry]⟩
      ⟨['['], s.entries ++ [entry], s.start, position + 1⟩ rest := by
  obtain ⟨front, text, -, stop⟩ := (h.push []).text
  rw [one] at stop ⊢
  refine ⟨rfl, by rw [h.entries], front ++ (c ::
    r.pending).reverse, by simpa using text, stop, ?_⟩
  rw [List.reverse_nil, List.append_nil, stop]

/-- **A step of the reading** is one of the scan. -/
theorem step_next (h : s.Follows content position r (c :: rest)) (bracket : isPlain c = false)
    (hn : r.next c = some r') :
    ∃ s', s.step content position c = some (.inl s') ∧ s'.start = s.start ∧
      s'.Follows content (position + c.utf8Size) r' rest := by
  have one := utf8Size_of_bracket bracket
  have part := h.slice
  have object := h.slice_succ one
  obtain ⟨opened, pending, entries⟩ := r
  obtain ⟨sOpened, sEntries, sStart, sPending⟩ := s
  obtain rfl : sOpened = opened ++ ['['] := h.opened
  simp only at part object
  -- One case for each kind of step; the pending characters are a slice of the text that starts
  -- at a position that the scan keeps.
  cases Reading.next_eq_some_iff.mp hn with
  | object outside brace =>
      obtain rfl : opened = [] := outside
      subst brace
      refine ⟨⟨['\x7b', '['], sEntries ++ bareEntries pending.reverse, sStart, position⟩, ?_,
        rfl, h.open_object _⟩
      simp [step, isOpening, part]
  | opens ho other =>
      refine ⟨⟨c :: opened ++ ['['], sEntries, sStart, sPending⟩, ?_, rfl,
        h.push (c :: opened)⟩
      rcases opened with _ | ⟨o, _ | ⟨o', outer⟩⟩
      · have brace : c ≠ '\x7b' := fun brace => other ⟨brace, rfl⟩
        simp [step, ho, brace]
      · simp [step, ho]
      · simp [step, ho]
  | whole one brace =>
      obtain rfl : opened = ['\x7b'] := one
      subst brace
      refine ⟨⟨['['], sEntries ++ [String.ofList ('\x7d' :: pending).reverse],
        sStart, position + 1⟩, ?_, rfl,
        h.close_object one _⟩
      simp [step, isOpening, isClosing, closingOf, object]
  | @closes opening outer one inside closing =>
      obtain rfl : opened = opening :: outer := one
      obtain ⟨inner, outer, rfl⟩ := List.exists_cons_of_ne_nil inside
      refine ⟨⟨inner :: outer ++ ['['], sEntries, sStart, sPending⟩, ?_, rfl,
        h.push (inner :: outer)⟩
      obtain ⟨notOpening, isClosing⟩ := closing_closingOf opening
      subst closing
      cases outer <;> simp [step, notOpening, isClosing]
  | plain ho hc => simp [isPlain, ho, hc] at bracket

/-- **Where the reading ends**, the scan ends in the same way. -/
theorem step_stop (h : s.Follows content position r (c :: rest)) (hn : r.next c = none) :
    s.step content position c
      = some (.inr ((readInside content position r (c :: rest)).map fun read =>
          ⟨read.1, s.start, position + utf8Size ((c :: rest).take read.2)⟩)) := by
  have part := h.slice
  obtain ⟨opened, pending, entries⟩ := r
  obtain ⟨sOpened, sEntries, start, sPending⟩ := s
  obtain rfl : sOpened = opened ++ ['['] := h.opened
  obtain rfl : sEntries = entries := h.entries
  simp only at part
  unfold Reading.next at hn
  unfold step
  rw [readInside]
  -- Both readers ask in the same order, so the cases are those of the step that is not there.
  split at hn
  · split at hn <;> cases hn
  next ho =>
    rw [if_neg ho, if_neg ho]
    split at hn
    · next hc =>
        rw [if_pos hc, if_pos hc]
        -- The scan keeps the bracket of the array at the bottom of its stack, and the reading
        -- does not.
        rcases opened with _ | ⟨o, _ | ⟨o', outer⟩⟩
        · by_cases closes : c = ']'
          · subst closes
            simp [closingOf, part]
            rfl
          · have differ : closingOf '[' ≠ c := Ne.symm closes
            simp [contextAround?_eq, closes, differ]
            rfl
        · simp only at hn
          split at hn
          · next differ =>
            simp [contextAround?_eq, differ, Ne.symm differ]
            rfl
          next closes =>
            rw [not_not] at closes
            split at hn
            · next brace =>
              simp [← closes, brace]
              rfl
            · cases hn
        · simp only at hn
          split at hn
          · next differ =>
            simp [contextAround?_eq, differ, Ne.symm differ]
            rfl
          · cases hn
    · cases hn

/-- **The scan of the inside of an array** finds what reading the characters finds. -/
theorem run_eq (h : s.Follows content position r rest) :
    s.run content position (utf8Bytes rest)
      = some ((readInside content position r rest).map fun read =>
          ⟨read.1, s.start, position + utf8Size (rest.take read.2)⟩) := by
  induction rest generalizing position r s with
  | nil =>
      show (preview? content).map _ = _
      rw [preview?_eq]
      rfl
  | cons c rest ih =>
      -- One step of the reading moves both, and the position counts the bytes of the
      -- character.
      have onward : ∀ {r' : Reading} {s' : ByteScan}, r.next c = some r' → s'.start = s.start →
          s'.Follows content (position + c.utf8Size) r' rest →
          s'.run content (position + c.utf8Size) (utf8Bytes rest)
            = some ((readInside content position r (c :: rest)).map fun read =>
                ⟨read.1, s.start, position + utf8Size ((c :: rest).take read.2)⟩) := by
        intro r' s' hn start follows
        rw [ih follows, readInside_next hn, start]
        cases readInside content (position + c.utf8Size) r' rest with
        | error e => rfl
        | ok read =>
            obtain ⟨entries, n⟩ := read
            simp only [Except.map, List.take_succ_cons, utf8Size_cons, Nat.add_assoc]
      rw [utf8Bytes_cons]
      cases bracket : isPlain c with
      | true =>
          obtain ⟨notOpening, notClosing⟩ := isPlain_iff.mp bracket
          rw [run_of_plain bracket]
          exact onward (Reading.next_of_plain notOpening notClosing r) rfl h.plain
      | false =>
          obtain ⟨b, bytes, shown⟩ := exists_byte_of_bracket bracket
          rw [bytes, List.singleton_append, ByteScan.run, shown]
          cases hn : r.next c with
          | none =>
              rw [h.step_stop hn, Option.bind_some]
          | some r' =>
              obtain ⟨s', hs', start, follows⟩ := h.step_next bracket hn
              rw [hs', Option.bind_some]
              dsimp only
              rw [← onward hn start follows, utf8Size_of_bracket bracket]

end ByteScan.Follows

end Follows

/-- **Scanning the bytes of a text from a place on** finds what reading its characters
finds. -/
theorem run_eq_extractAt (front cs : List Char) :
    ByteScan.front.run (front ++ cs) (utf8Size front) (utf8Bytes cs)
      = some ((extractAt front cs).map span) := by
  rcases exists_first_opening cs with closed | ⟨skipped, opening, inside, rfl, closed, bracket⟩
  · rw [extractAt_of_closed closed, ← List.append_nil (utf8Bytes cs), run_of_front rfl closed]
    show (preview? (front ++ cs)).map _ = _
    rw [preview?_eq]
    rfl
  · obtain ⟨b, bytes, shown⟩ :=
      exists_byte_of_bracket (show isPlain opening = false by simp [isPlain, bracket])
    rw [utf8Bytes_append, utf8Bytes_cons, run_of_front rfl closed, bytes,
      List.singleton_append, ByteScan.run, shown,
      extractAt_append closed bracket]
    by_cases array : opening = '['
    · subst array
      -- Behind the bracket of the array the scan follows the reading.
      have follows : ByteScan.Follows (front ++ (skipped ++ '[' :: inside))
        (utf8Size (front ++ skipped) + 1) .start
          ⟨['['], [], utf8Size (front ++ skipped), utf8Size (front ++ skipped) + 1⟩
            inside := by
        refine ⟨rfl, rfl, front ++ skipped ++ ['['], by simp [Reading.start], ?_, ?_⟩
        · simp [utf8Size_append]
          rfl
        · simp [utf8Size_append, Reading.start]
          rfl
      have opens : ByteScan.front.step (front ++ (skipped ++ '[' :: inside))
        (utf8Size front + utf8Size skipped) '['
          = some (.inl ⟨['['], [], utf8Size (front ++ skipped),
            utf8Size (front ++ skipped) + 1⟩) := by
        rw [utf8Size_append]
        rfl
      rw [opens, Option.bind_some]
      dsimp only
      rw [← utf8Size_append, follows.run_eq, if_neg (by simp)]
      cases readInside (front ++ (skipped ++ '[' :: inside)) (utf8Size (front ++ skipped) + 1)
        .start inside <;> rfl
    · have refused : ByteScan.front.step (front ++ (skipped ++ opening :: inside))
        (utf8Size front + utf8Size skipped)
          opening = some (.inr (.error (.expectedOpenBracket opening))) := by
        simp [ByteScan.step, bracket, ByteScan.front, array]
      rw [refused, if_pos array]
      rfl

/-- **Entries are put in place of those of an array** by the positions of its brackets. -/
theorem replace?_span (a : ArrayLiteral) :
    replace? (a.before ++ '[' :: a.inner ++ ']' :: a.after) a.span = some a.text := by
  have opens : slice? (a.before ++ '[' :: a.inner ++ ']' :: a.after) 0 a.start
      = some a.before := by
    have taken := slice?_append [] a.before ('[' :: a.inner ++ ']' :: a.after)
    rwa [List.nil_append, ← List.append_assoc] at taken
  have behind : slice? (a.before ++ '[' :: a.inner ++ ']' :: a.after) (a.stop + 1)
      (utf8Size (a.before ++ '[' :: a.inner ++ ']' :: a.after)) = some a.after := by
    have taken := slice?_append (a.before ++ '[' :: a.inner ++ [']']) a.after []
    rw [List.append_nil, utf8Size_upTo_stop, List.append_assoc _ [']'],
      List.singleton_append] at taken
    exact taken
  rw [replace?, span, opens, behind]
  rfl

/-! ## Searching for an array -/

/-- A search for the anchor of an array. -/
structure Search where
  /-- The pattern that messages show. -/
  pattern : String
  /-- The text cut in front of the first occurrence of the anchor. -/
  find : List Char → Option (List Char × List Char)
  whole : ∀ {content front cs : List Char}, find content = some (front, cs) →
  content = front ++ cs

namespace Search

/-- The array at the first occurrence of the anchor. -/
def extract (search : Search) (content : List Char) : Except EditError ArrayLiteral :=
  match search.find content with
  | none => .error (.anchorNotFound search.pattern (preview content))
  | some (front, cs) => extractAt front cs

/-- The array at the first occurrence of the anchor, by a scan of the bytes from its position
on. -/
def scan (search : Search) (content : List Char) : Option (Except EditError Span) :=
  match search.find content with
  | none => (preview? content).map fun quoted => .error (.anchorNotFound search.pattern quoted)
  | some (front, _) =>
      ByteScan.front.run content (utf8Size front) ((utf8Bytes content).drop (utf8Size front))

theorem scan_eq (search : Search) (content : List Char) :
    search.scan content = some ((search.extract content).map span) := by
  unfold scan extract
  cases found : search.find content with
  | none =>
      simp only
      rw [preview?_eq]
      rfl
  | some place =>
      obtain ⟨front, cs⟩ := place
      obtain rfl := search.whole found
      simp only
      rw [utf8Bytes_append, List.drop_left' (length_utf8Bytes front), run_eq_extractAt]

end Search

/-- A bracket that is closed by one of another kind, the first behind `front` for which the
reading fails, and a quote from the text around the closing one. -/
inductive Quoted (front content : List Char) (opening closing : Char) (context : String) :
    Prop where
  | intro {skipped t opened behind left right : List Char}
      (text : content = front ++ skipped ++ '[' :: t ++ closing :: behind)
      (closed : ∀ c ∈ skipped, isOpening c = false)
      (unfinished : Unfinished t opened) (innermost : (opened ++ ['[']).head? = some opening)
      (bracket : isClosing closing = true) (differ : closing ≠ closingOf opening)
      (quote : context.toList = left ++ closing :: right)
      (before : left <:+ front ++ skipped ++ '[' :: t)
      (after : right <+: behind) (short : utf8Size context.toList ≤ 203)

theorem quoted_of_extractAt {front cs : List Char} {opening closing : Char} {context : String}
    (h : extractAt front cs = .error (.bracketMismatch opening closing context)) :
    Quoted front (front ++ cs) opening closing context := by
  cases extractAt_eq_error_iff.mp h with
  | @stopped skipped t opened behind c _ text closed unfinished stops =>
      subst text
      cases stops with
      | mismatch innermost bracket differ =>
          have one := utf8Size_of_bracket (c := closing) (by simp [isPlain, bracket])
          obtain ⟨left, right, before, after, quote, short⟩ :=
            exists_contextAround (front ++ skipped ++ '[' :: t) one behind
          have whole : front ++ skipped ++ '[' :: t ++ closing :: behind
              = front ++ (skipped ++ '[' :: t ++ closing :: behind) := by simp
          rw [whole] at quote
          exact .intro whole.symm closed unfinished innermost bracket differ quote before after
            (quote ▸ short)

end ArrayLiteral

/-- The search for an anchor. -/
def Anchor.search (anchor : Anchor) : ArrayLiteral.Search where
  pattern := anchor.pattern
  find := anchor.cut
  whole := anchor.eq_append_of_cut

namespace ArrayLiteral

/-- **No slice cuts a character.**  Reading an array byte by byte, with slices between the
positions that are counted, finds what reading its characters finds, whatever anchor is
searched for.  So there is a slice wherever one is taken, for the entries, for the text around
the array and for the quotes of the messages: the text can be cut at both positions, and they
are in order.  What is quoted for a bracket that is closed by one of another kind is a part of
the text with at most 203 bytes that holds the closing bracket. -/
theorem scan_eq_extract (search : Search) (content : List Char) :
    search.scan content = some ((search.extract content).map span) ∧
      (∀ start stop, (slice? content start stop).isSome = true ↔
        start ≤ stop ∧ IsBoundary content start ∧ IsBoundary content stop) ∧
      (∀ a, search.extract content = .ok a → Placed content a ∧
        ∀ es, replace? content { a.span with entries := es }
          = some (text { a with entries := es })) ∧
      (∀ opening closing context,
        search.extract content = .error (.bracketMismatch opening closing context) →
        ∃ front cs, search.find content = some (front, cs) ∧
          Quoted front content opening closing context) ∧
      ∀ anchor : Anchor, anchor.search.extract content = extract anchor content := by
  refine ⟨search.scan_eq content, fun _ _ => isSome_slice?_iff, fun a found => ?_,
    fun opening closing context failed => ?_, fun anchor => rfl⟩
  · unfold Search.extract at found
    split at found
    · cases found
    · next front cs place =>
        obtain ⟨skipped, -, before, text, -⟩ := extractAt_eq_ok_iff.mp found
        have whole : content = a.before ++ '[' :: a.inner ++ ']' :: a.after := by
          rw [search.whole place, before, text]
          simp
        exact ⟨placed_of_text whole, fun es => whole ▸ replace?_span { a with entries := es }⟩
  · unfold Search.extract at failed
    split at failed
    · cases failed
    · next front cs place =>
        obtain rfl := search.whole place
        exact ⟨front, cs, place, quoted_of_extractAt failed⟩

/-- Positions behind letters of two bytes. -/
example :
    (Anchor.array "a").search.scan "ü a: [é, \x7bb: [c]\x7d] d".toList
      = some (.ok ⟨["é", "\x7bb: [c]\x7d"], 6, 19⟩) ∧
    (Anchor.array "a").search.scan "a: [é(]".toList
      = some (.error (.bracketMismatch '(' ']' "a: [é(]")) :=
  ⟨rfl, rfl⟩

end ArrayLiteral

end Attestation
