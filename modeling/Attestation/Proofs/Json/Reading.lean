import Attestation.Json.Parser
import Attestation.Json.Printer
import Attestation.Proofs.Json.Number
import Attestation.Proofs.Text.Pieces

/-!
# Reading values back

The indented text of a value is parsed as that value (`parse_pretty`), as far as its containers
do not nest too deep and its numbers are such as a reader makes.  Every value that is parsed is
of this kind (`fits_of_parse`).

* `Json.Fits`: values with containers that nest at most so deep.
* `Json.Reads`: a text that a reader takes for a value, with blanks in front and other text
  behind it.

## Design notes

The parser has fuel, for the depth and for the number of parts, and refuses a value when it
runs out.  Reading back therefore needs a bound on the depth, which `Fits` gives, while the
length of the text is always enough for the parts.  `Reads` leaves room on both sides of a
value, so that the parts of a container can be read by the same statement as a whole text.
-/

namespace Attestation.Json

open Text

/-! ## Texts -/

theorem hexUnit_hexDigitOf : ∀ n < 32, hexUnit '0' '0' (hexDigitOf (n / 16)) (hexDigitOf n)
      = some n := by
  decide

/-- The three ways to write a character. -/
theorem escaped_cases (c : Char) :
    (∃ d, d ≠ 'u' ∧ shortEscape d = some c ∧ escaped c = ['\\', d]) ∨
    (c.toNat < 0x20 ∧ escaped c = ['\\', 'u', '0', '0', hexDigitOf (c.toNat / 16),
      hexDigitOf c.toNat]) ∨
    (¬ c.toNat < 0x20 ∧ c ≠ '"' ∧ c ≠ '\\' ∧ escaped c = [c]) := by
  unfold escaped
  split
  all_goals try exact .inl ⟨_, by decide, rfl, rfl⟩
  next quote backslash _ _ _ _ _ =>
    split
    · next control => exact .inr (.inl ⟨control, rfl⟩)
    · next control => exact .inr (.inr ⟨control, quote, backslash, rfl⟩)

/-- An escaped character is read as this character. -/
theorem readText_escaped_append (c : Char) (cs : List Char) :
    readText (escaped c ++ cs) = (readText cs).map fun found => (c :: found.1, found.2) := by
  rcases escaped_cases c with ⟨d, hd, short, text⟩ | ⟨control, text⟩ | ⟨plain, quote,
    backslash, text⟩
  · rw [text, List.cons_append, List.singleton_append, readText]
    · simp [short, Option.map_eq_bind]
    · rintro _ _ _ _ _ h -
      exact hd h
  · have unit := hexUnit_hexDigitOf c.toNat control
    rw [text]
    simp only [List.cons_append, List.nil_append, readText, unit, Option.bind_eq_bind,
      Option.bind_some]
    rw [if_neg (by omega), if_neg (by omega), Char.ofNat_toNat]
    simp [Option.map_eq_bind]
  · rw [text, List.singleton_append, readText]
    · simp [plain, Option.map_eq_bind]
    · exact quote
    · rintro _ _ _ _ _ h -
      exact backslash h
    · rintro _ _ h -
      exact backslash h

/-- **A text value is read back.** -/
theorem readText_escaped (chars rest : List Char) :
    readText (chars.flatMap escaped ++ '"' :: rest) = some (chars, rest) := by
  induction chars with
  | nil => simp [readText]
  | cons c chars ih =>
      rw [List.flatMap_cons, List.append_assoc, readText_escaped_append, ih, Option.map_some]

/-! ## Parts of containers -/

theorem skipGap_append {gap cs : List Char} (blank : ∀ c ∈ gap, isGap c = true) :
    skipGap (gap ++ cs) = skipGap cs := List.dropWhile_append_of_pos blank

theorem skipGap_cons {c : Char} (hc : isGap c = false) (cs : List Char) :
    skipGap (c :: cs) = c :: cs := by
  simp [skipGap, hc]

/-- The reader takes the text for the value, whatever blanks stand in front and whatever
follows.  What follows may not go on with a number, since a number has no end of its own. -/
def Reads {α : Type} (readPart : List Char → Option (α × List Char)) (text : List Char)
    (a : α) : Prop :=
  ∀ gap rest, (∀ c ∈ gap, isGap c = true) → Number.Stops rest →
  readPart (gap ++ (text ++ rest)) = some (a, rest)

/-- A reader that skips the blanks in front has only to be looked at behind them. -/
theorem reads_of_skipGap {α : Type} {readPart : List Char → Option (α × List Char)}
    {text : List Char} {a : α}
    (skips : ∀ cs ds, skipGap cs = skipGap ds → readPart cs = readPart ds)
    (h : ∀ rest, Number.Stops rest → readPart (text ++ rest) = some (a, rest)) :
    Reads readPart text a := by
  intro gap rest blank stop
  rw [skips _ (text ++ rest) (skipGap_append blank), h rest stop]

theorem stops_cons {c : Char} (rest : List Char)
    (h : c.isDigit = false ∧ c ≠ '.' ∧ c ≠ 'e' ∧ c ≠ 'E') :
    Number.Stops (c :: rest) := by
  rintro d ⟨⟩
  exact h

section Container

variable {α : Type} {readPart : List Char → Option (α × List Char)} {close : Char}

/-- Parts separated by commas are read one after the other; each has the same blanks in
front. -/
theorem readParts_join (hclose : close ≠ ',') {gap tail rest : List Char}
    (blank : ∀ c ∈ gap, isGap c = true) (stop : Number.Stops tail)
    (behind : skipGap tail = close :: rest)
    {texts : List (List Char)} {values : List α}
    (reads : List.Forall₂ (Reads readPart) texts values)
    (nonempty : texts ≠ []) {fuel : Nat} (enough : texts.length ≤ fuel) :
    readParts close readPart fuel (List.intercalate [','] (texts.map (gap ++ ·)) ++ tail)
      = some (values, rest) := by
  induction reads generalizing fuel with
  | nil => exact absurd rfl nonempty
  | @cons text value texts values first reads ih =>
      obtain ⟨fuel, rfl⟩ : ∃ n, fuel = n + 1 := ⟨fuel - 1, by simp at enough; omega⟩
      cases reads with
      | nil =>
          rw [List.map_cons, List.map_nil, List.intercalate_singleton,
            List.append_assoc, readParts,
            first gap tail blank stop]
          simp [behind]
      | @cons next _ texts _ second reads =>
          have more : readParts close readPart fuel
            (List.intercalate [','] ((next :: texts).map (gap ++ ·)) ++ tail)
              = some (_ :: _, rest) := ih (by simp) (by simpa using enough)
          have cut : List.intercalate [','] ((text :: next :: texts).map (gap ++ ·)) ++ tail
              = gap ++ (text ++ ',' :: (List.intercalate [','] ((next :: texts).map (gap ++ ·))
                ++ tail)) := by
            simp [List.intercalate_cons_cons]
          rw [cut, readParts, first gap _ blank (stops_cons _ (by decide))]
          simp only [Option.bind_eq_bind, Option.bind_some,
            skipGap_cons (by decide : isGap ',' = false), more]
          rfl

/-- Parts on lines of their own are the same parts with a line break in front of each. -/
theorem lineBreak_intercalate (gap : List Char) {texts : List (List Char)}
    (nonempty : texts ≠ []) :
    '\n' :: List.intercalate [',', '\n'] (texts.map (gap ++ ·))
      = List.intercalate [','] (texts.map ('\n' :: gap ++ ·)) := by
  induction texts with
  | nil => exact absurd rfl nonempty
  | cons text more ih =>
      cases more with
      | nil => rfl
      | cons next more =>
          simp only [List.map_cons] at ih ⊢
          rw [List.intercalate_cons_cons, List.intercalate_cons_cons, ← ih (by simp)]
          simp

/-- Parts are the parts of a container when no part can start with the closing bracket. -/
theorem readContainer_of_readParts
    (refuses : ∀ cs, skipGap cs = [] ∨ (∃ more, skipGap cs = close :: more) →
      readPart cs = none)
    {cs : List Char} {found : List α × List Char}
    (h : readParts close readPart cs.length cs = some found) :
    readContainer close readPart cs = some found := by
  have taken : readPart cs ≠ none := by
    intro none_
    cases hn : cs.length with
    | zero => simp [hn, readParts] at h
    | succ n => simp [hn, readParts, none_] at h
  rw [readContainer]
  split
  · next c more front =>
      rw [if_neg, h]
      rintro rfl
      exact taken (refuses cs (.inr ⟨more, front⟩))
  · next front => exact absurd (refuses cs (.inl front)) taken

/-- What is written as a block behind its opening bracket is read as a container. -/
theorem readContainer_block (hclose : close = ']' ∨ close = '\x7d')
    (refuses : ∀ cs, skipGap cs = [] ∨ (∃ more, skipGap cs = close :: more) →
      readPart cs = none)
    (level : Nat) (rest : List Char) {texts : List String} {values : List α}
    (reads : List.Forall₂ (Reads readPart) (texts.map String.toList) values)
    (opening : String) :
    ∃ inside, (block level opening (String.ofList [close]) texts).toList
      = opening.toList ++ inside ∧
      readContainer close readPart (inside ++ rest) = some (values, rest) := by
  have shut : ∀ cs, skipGap (close :: cs) = close :: cs :=
    skipGap_cons (by rcases hclose with rfl | rfl <;> rfl)
  have blanks : ∀ n, ∀ c ∈ (indent n).toList, isGap c = true := by
    intro n c hc
    rw [indent, String.toList_ofList] at hc
    rw [List.eq_of_mem_replicate hc]
    rfl
  cases texts with
  | nil =>
      refine ⟨[close], by simp [block], ?_⟩
      cases reads
      rw [List.singleton_append, readContainer, shut]
      simp
  | cons text texts =>
      have stop : Number.Stops ('\n' :: ((indent level).toList ++ close :: rest)) :=
        stops_cons _ (by decide)
      have blank : ∀ c ∈ '\n' :: (indent (level + 1)).toList, isGap c = true :=
        List.forall_mem_cons.mpr ⟨rfl, blanks _⟩
      have behind : skipGap ('\n' :: ((indent level).toList ++ close :: rest))
          = close :: rest := by
        rw [← List.cons_append, skipGap_append
          (List.forall_mem_cons.mpr ⟨rfl, blanks _⟩), shut]
      have lines : (text :: texts).map String.toList ≠ [] := by simp
      -- The fuel of the reader is the length of the text, and every part takes a line of its
      -- own, so it does not run out.
      have breaks := lineBreak_intercalate (indent (level + 1)).toList lines
      have full : ∀ line ∈ ((text :: texts).map String.toList).map
        ('\n' :: (indent (level + 1)).toList ++ ·),
          line ≠ [] := by simp
      have enough := length_le_length_intercalate [','] full
      refine ⟨List.intercalate [','] (((text :: texts).map String.toList).map
        ('\n' :: (indent (level + 1)).toList ++ ·))
        ++ '\n' :: ((indent level).toList ++ [close]), ?_, ?_⟩
      · rw [← breaks, block, if_neg (by simp)]
        simp [toList_join, Function.comp_def]
      · rw [List.append_assoc, List.cons_append, List.append_assoc, List.singleton_append]
        refine readContainer_of_readParts refuses (readParts_join ?_ blank stop behind reads
          (by simp) ?_)
        · rcases hclose with rfl | rfl <;> decide
        · rw [List.length_map] at enough
          rw [List.length_append]
          omega

end Container

/-! ## Values -/

/-- Values whose containers nest at most so deep, and whose numbers are such as a reader makes.
Only these are read back, as the reader gives up below a depth. -/
inductive Fits : Nat → Json → Prop where
  | null {depth : Nat} : Fits depth .null
  | bool {depth : Nat} (value : Bool) : Fits depth (.bool value)
  | number {depth : Nat} {n : Number} : n.Canonical → Fits depth (.number n)
  | string {depth : Nat} (s : String) : Fits depth (.string s)
  | array {depth : Nat} {items : List Json} : (∀ item ∈ items, Fits depth item) →
      Fits (depth + 1) (.array items)
  | object {depth : Nat} {fields : List (String × Json)} :
      (∀ field ∈ fields, Fits depth field.2) → Fits (depth + 1) (.object fields)

@[simp] theorem fits_string (depth : Nat) (s : String) : Fits depth (.string s) := .string s

@[simp] theorem fits_array_iff {depth : Nat} {items : List Json} :
    Fits (depth + 1) (.array items) ↔ ∀ item ∈ items, Fits depth item := by
  refine ⟨fun h => ?_, .array⟩
  cases h with
  | array parts => exact parts

@[simp] theorem fits_object_iff {depth : Nat} {fields : List (String × Json)} :
    Fits (depth + 1) (.object fields) ↔ ∀ field ∈ fields, Fits depth field.2 := by
  refine ⟨fun h => ?_, .object⟩
  cases h with
  | object parts => exact parts

theorem Fits.mono {depth depth' : Nat} {j : Json} (h : Fits depth j) (hle : depth ≤ depth') :
    Fits depth' j := by
  induction h generalizing depth' with
  | null => exact .null
  | bool value => exact .bool value
  | number canonical => exact .number canonical
  | string s => exact .string s
  | array _ ih =>
      obtain ⟨n, rfl⟩ : ∃ n, depth' = n + 1 := ⟨depth' - 1, by omega⟩
      exact .array fun item hitem => ih item hitem (by omega)
  | object _ ih =>
      obtain ⟨n, rfl⟩ : ∃ n, depth' = n + 1 := ⟨depth' - 1, by omega⟩
      exact .object fun field hfield => ih field hfield (by omega)

theorem prettyItems_eq_map (level : Nat) (items : List Json) :
    prettyItems level items = items.map (prettyAt level) := by
  induction items with
  | nil => rfl
  | cons item more ih => rw [prettyItems, ih, List.map_cons]

theorem prettyFields_eq_map (level : Nat) (fields : List (String × Json)) :
    prettyFields level fields = fields.map fun field => quoted field.1 ++ ": "
      ++ prettyAt level field.2 := by
  induction fields with
  | nil => rfl
  | cons field more ih =>
      obtain ⟨name, value⟩ := field
      rw [prettyFields, ih, List.map_cons]

theorem read_congr (depth : Nat) {cs ds : List Char} (h : skipGap cs = skipGap ds) :
    read depth cs = read depth ds := by
  cases depth <;> rw [read, read, h]

theorem readField_congr (readValue : List Char → Option (Json × List Char)) {cs ds : List Char}
    (h : skipGap cs = skipGap ds) : readField readValue cs = readField readValue ds := by
  rw [readField, readField, h]

theorem toList_quoted (s : String) :
    (quoted s).toList = '"' :: (s.toList.flatMap escaped ++ ['"']) := by
  rw [quoted, String.toList_ofList]

theorem reads_number (depth : Nat) {n : Number} (canonical : n.Canonical) :
    Reads (read depth) n.render.toList (.number n) := by
  refine reads_of_skipGap (fun _ _ => read_congr depth) fun rest stop => ?_
  have found := Number.read_render canonical stop
  obtain ⟨c, more, text, front⟩ := Number.head_of_read found
  have gap : isGap c = false := by
    rcases front with rfl | digit
    · rfl
    · cases hc : isGap c with
      | false => rfl
      | true =>
          simp only [isGap, Bool.or_eq_true, decide_eq_true_eq] at hc
          rcases hc with ((rfl | rfl) | rfl) | rfl <;> cases digit
  rw [text] at found ⊢
  rw [read, skipGap_cons gap]
  split
  case h_7 => rw [found, Option.map_some]
  all_goals
    next h =>
      cases h
      exact absurd front (by decide)

/-- A field that is written is read back. -/
theorem reads_field {readValue : List Char → Option (Json × List Char)} (name : String)
    {text : String}
    {value : Json} (h : Reads readValue text.toList value) :
    Reads (readField readValue) (quoted name ++ ": " ++ text).toList (name, value) := by
  refine reads_of_skipGap (fun _ _ => readField_congr readValue) fun rest stop => ?_
  have behind := h [' '] rest (by simp [isGap]) stop
  have cut : (quoted name ++ ": " ++ text).toList ++ rest
      = '"' :: (name.toList.flatMap escaped
        ++ '"' :: ':' :: ([' '] ++ (text.toList ++ rest))) := by
    simp [toList_quoted]
  rw [cut, readField, skipGap_cons (by rfl)]
  simp only [readText_escaped, Option.bind_eq_bind, Option.bind_some,
    skipGap_cons (by rfl : isGap ':' = false),
    behind, String.ofList_toList]
  rfl

theorem read_refuses (depth : Nat) {close : Char} (hclose : close = ']' ∨ close = '\x7d')
    (cs : List Char)
    (h : skipGap cs = [] ∨ ∃ more, skipGap cs = close :: more) : read depth cs = none := by
  rcases h with h | ⟨more, h⟩
  · rw [read, h]
    rfl
  · rw [read, h]
    rcases hclose with rfl | rfl <;> rfl

/-- **A value that is written is read back**, at any level of a text. -/
theorem reads_prettyAt {depth : Nat} {j : Json} (h : Fits depth j) (level : Nat) :
    Reads (read depth) (prettyAt level j).toList j := by
  induction h generalizing level with
  | null =>
      refine reads_of_skipGap (fun _ _ => read_congr _) fun rest _ => ?_
      rw [prettyAt, show "null".toList = ['n', 'u', 'l', 'l'] from rfl, read]
      rfl
  | bool value =>
      refine reads_of_skipGap (fun _ _ => read_congr _) fun rest _ => ?_
      cases value with
      | true =>
          rw [prettyAt, if_pos rfl, show "true".toList = ['t', 'r', 'u', 'e'] from rfl, read]
          rfl
      | false =>
          rw [prettyAt, if_neg Bool.false_ne_true, show "false".toList = ['f', 'a',
            'l', 's', 'e'] from rfl, read]
          rfl
  | number canonical =>
      rw [prettyAt]
      exact reads_number _ canonical
  | string s =>
      refine reads_of_skipGap (fun _ _ => read_congr _) fun rest _ => ?_
      rw [prettyAt, toList_quoted, List.cons_append, List.append_assoc,
        List.singleton_append, read,
        skipGap_cons (by rfl)]
      simp only [readText_escaped, Option.map_some, String.ofList_toList]
  -- The two containers are blocks of parts, which the induction hypothesis reads one by one;
  -- they only differ in the part that must not be read at their end.
  | @array depth items _ ih =>
      refine reads_of_skipGap (fun _ _ => read_congr _) fun rest _ => ?_
      have parts : List.Forall₂ (Reads (read depth))
        ((prettyItems (level + 1) items).map String.toList) items := by
        rw [prettyItems_eq_map, List.map_map]
        exact List.forall₂_map_left_iff.mpr (List.forall₂_same.mpr fun item hitem =>
          ih item hitem (level + 1))
      obtain ⟨inside, text, found⟩ :=
        readContainer_block (.inl rfl) (read_refuses depth (.inl rfl)) level rest
        parts "["
      rw [prettyAt, show "]" = String.ofList [']'] from rfl, text,
        show "[".toList = ['['] from rfl,
        List.append_assoc, List.singleton_append, read, skipGap_cons (by rfl)]
      simp only [found, Option.map_some]
  | @object depth fields _ ih =>
      refine reads_of_skipGap (fun _ _ => read_congr _) fun rest _ => ?_
      have parts : List.Forall₂ (Reads (readField (read depth)))
          ((prettyFields (level + 1) fields).map String.toList) fields := by
        rw [prettyFields_eq_map, List.map_map]
        exact List.forall₂_map_left_iff.mpr (List.forall₂_same.mpr fun field hfield =>
          reads_field field.1 (ih field hfield (level + 1)))
      have refuses : ∀ cs, skipGap cs = [] ∨ (∃ more, skipGap cs = '\x7d' :: more) →
          readField (read depth) cs = none := by
        rintro cs (h | ⟨more, h⟩)
        · rw [readField, h]
        · rw [readField, h]
          rfl
      obtain ⟨inside, text, found⟩ :=
        readContainer_block (.inr rfl) refuses level rest parts "\x7b"
      rw [prettyAt, show "\x7d" = String.ofList ['\x7d'] from rfl, text,
        show "\x7b".toList = ['\x7b'] from rfl,
        List.append_assoc, List.singleton_append, read, skipGap_cons (by rfl)]
      simp only [found, Option.map_some]

/-- **The text of a value is parsed as that value.** -/
theorem parse_pretty {j : Json} (h : Fits maxDepth j) : parse j.pretty = some j := by
  have found := reads_prettyAt h 0 [] [] (by simp) (by simp [Number.Stops])
  rw [List.nil_append, List.append_nil] at found
  rw [parse, pretty, found]
  rfl

/-! ## Values that are read -/

/-- Each part of a container has been read as a part. -/
theorem exists_part_of_readParts {α : Type} {readPart : List Char → Option (α × List Char)}
    {close : Char}
    {fuel : Nat} {cs rest : List Char} {parts : List α}
    (h : readParts close readPart fuel cs = some (parts, rest)) :
    ∀ part ∈ parts, ∃ text behind, readPart text = some (part, behind) := by
  induction fuel generalizing cs parts with
  | zero => cases h
  | succ fuel ih =>
      simp only [readParts, Option.bind_eq_bind, Option.bind_eq_some_iff] at h
      obtain ⟨⟨first, behind⟩, found, h⟩ := h
      split at h
      · obtain ⟨⟨more, _⟩, others, h⟩ := Option.bind_eq_some_iff.mp h
        cases h
        exact List.forall_mem_cons.mpr ⟨⟨cs, behind, found⟩, ih others⟩
      · split at h
        · cases h
          exact List.forall_mem_singleton.mpr ⟨cs, behind, found⟩
        · cases h
      · cases h

theorem exists_part_of_readContainer {α : Type} {readPart : List Char → Option (α × List Char)}
    {close : Char}
    {cs rest : List Char} {parts : List α}
    (h : readContainer close readPart cs = some (parts, rest)) :
    ∀ part ∈ parts, ∃ text behind, readPart text = some (part, behind) := by
  unfold readContainer at h
  split at h
  · split at h
    · cases h
      exact fun part hpart => absurd hpart List.not_mem_nil
    · exact exists_part_of_readParts h
  · cases h

/-- Every value that is read fits the depth that it was read with. -/
theorem fits_of_read {depth : Nat} {cs rest : List Char} {j : Json}
    (h : read depth cs = some (j, rest)) :
    Fits depth j := by
  induction depth using Nat.strong_induction_on generalizing cs rest j with
  | _ depth ih =>
    rw [read] at h
    split at h
    -- One case for each first character of a value; only the containers use the hypothesis, at
    -- the depth below.
    case h_1 =>
      obtain ⟨_, -, made⟩ := Option.map_eq_some_iff.mp h
      cases made
      exact .string _
    case h_2 =>
      cases depth with
      | zero => cases h
      | succ depth =>
          obtain ⟨⟨items, _⟩, found, made⟩ := Option.map_eq_some_iff.mp h
          cases made
          refine .array fun item hitem => ?_
          obtain ⟨_, _, part⟩ := exists_part_of_readContainer found item hitem
          exact ih depth (Nat.lt_succ_self depth) part
    case h_3 =>
      cases depth with
      | zero => cases h
      | succ depth =>
          obtain ⟨⟨fields, _⟩, found, made⟩ := Option.map_eq_some_iff.mp h
          cases made
          refine .object fun field hfield => ?_
          obtain ⟨_, _, part⟩ := exists_part_of_readContainer found field hfield
          unfold readField at part
          split at part
          · obtain ⟨⟨name, behind⟩, -, part⟩ := Option.bind_eq_some_iff.mp part
            dsimp only at part
            split at part
            · obtain ⟨⟨value, _⟩, read, made⟩ := Option.bind_eq_some_iff.mp part
              cases made
              exact ih depth (Nat.lt_succ_self depth) read
            · cases part
          · cases part
    case h_4 =>
      obtain ⟨_, -, made⟩ := Option.map_eq_some_iff.mp h
      cases made
      exact .null
    case h_5 | h_6 =>
      obtain ⟨_, -, made⟩ := Option.map_eq_some_iff.mp h
      cases made
      exact .bool _
    case h_7 =>
      obtain ⟨_, found, made⟩ := Option.map_eq_some_iff.mp h
      cases made
      exact .number (Number.canonical_of_read found)

theorem fits_of_parse {s : String} {j : Json} (h : parse s = some j) : Fits maxDepth j := by
  unfold parse at h
  split at h
  · next found =>
      split at h
      · cases h
        exact fits_of_read found
      · cases h
  · cases h

end Attestation.Json
