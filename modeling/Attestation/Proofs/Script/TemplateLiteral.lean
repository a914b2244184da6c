import Attestation.Json.Parser
import Mathlib.Order.Lattice.Nat

/-!
# Template literals

A template literal without substitutions, as the language of the generated scripts reads it:
the code units of its value, and what stands behind the backtick that ends it.  A text without
backticks reads as itself exactly if no mechanism of the literal starts in it
(`read_append_iff`).

* `TemplateLiteral.utf16`: the code units of a text.
* `TemplateLiteral.escape?`: what an escape denotes.
* `TemplateLiteral.read`: a literal, from behind its opening backtick.
* `TemplateLiteral.Inert`: texts in which no escape, substitution or line ending starts that
  the literal changes.

## Design notes

The value of a literal is a list of code units and not a text, since an escape may denote half
of a character.  Equality with the text that was put in is thus the equality that a reader of
the script would see.  The mechanisms of a literal are told apart by what starts them, and the
condition on the text is stated in these terms.
-/

namespace Attestation.TemplateLiteral

/-- The code units of a code point. -/
def codeUnits (n : Nat) : List Nat :=
  if n < 0x10000 then [n] else [0xD800 + (n - 0x10000) / 0x400, 0xDC00 + (n - 0x10000) % 0x400]

/-- The code units of a text. -/
def utf16 (cs : List Char) : List Nat := cs.flatMap fun c => codeUnits c.toNat

/-- The code unit that a letter stands for behind a backslash. -/
def control? : Char → Option Nat
  | 'b' => some 8
  | 't' => some 9
  | 'n' => some 10
  | 'v' => some 11
  | 'f' => some 12
  | 'r' => some 13
  | _ => none

/-- The number of hexadecimal digits. -/
def hexNumber? (digits : List Char) : Option Nat :=
  (digits.mapM Json.hexValue).map (·.foldl (16 * · + ·) 0)

/-- Whether a line ends with the character. -/
def isLineEnd (c : Char) : Bool := c ∈ ['\n', '\r', '\u2028', '\u2029']

/-- A code point between braces: its number, and how many characters it takes. -/
def braced? (cs : List Char) : Option (Nat × Nat) :=
  let digits := cs.takeWhile (· ≠ '\x7d')
  match hexNumber? digits with
  | some n =>
      if digits ≠ [] ∧ digits.length < cs.length ∧
        n ≤ 0x10FFFF then some (n, digits.length + 1) else none
  | none => none

/-- What is written behind a backslash: the code units it denotes, none if the line goes on,
and how many characters it takes. -/
def escape? : List Char → Option (List Nat × Nat)
  | [] => none
  | c :: cs =>
      match control? c with
      | some unit => some ([unit], 1)
      | none =>
          if c = '0' ∧ cs.head?.all (! ·.isDigit) then some ([0], 1)
          else if c.isDigit then none
          else if c = 'x' then
            if 2 ≤ cs.length then (hexNumber? (cs.take 2)).map fun n => ([n], 3) else none
          else if c = 'u' then
            if cs.head? = some '\x7b' then (braced? cs.tail).map fun (n, size) =>
              (codeUnits n, size + 2)
            else if 4 ≤ cs.length then (hexNumber? (cs.take 4)).map fun n => ([n], 5) else none
          else if c = '\r' ∧ cs.head? = some '\n' then some ([], 2)
          else if isLineEnd c then some ([], 1)
          else some (codeUnits c.toNat, 1)

/-- A literal from behind its opening backtick, when so many characters belong to what has been
read: the code units of its value, and what stands behind its closing backtick.  A literal with
a substitution is none of these, and a line that ends with a carriage return ends with a
newline in the value. -/
def read : Nat → List Char → Option (List Nat × List Char)
  | _, [] => none
  | skipped + 1, _ :: cs => read skipped cs
  | 0, c :: cs =>
      if c = '`' then some ([], cs)
      else if c = '\\' then
        match escape? cs with
        | some (units, size) => (read size cs).map fun (value, rest) => (units ++ value, rest)
        | none => none
      else if c = '$' ∧ cs.head? = some '\x7b' then none
      else if c = '\r' then
        (read (if cs.head? = some '\n' then 1 else 0) cs).map fun (value, rest) =>
        (10 :: value, rest)
      else (read 0 cs).map fun (value, rest) => (codeUnits c.toNat ++ value, rest)

/-- In the text starts no escape, no substitution, and no line ending that becomes another one.
Such a text stands for itself in a template literal, once it has no backtick. -/
def Inert (cs : List Char) : Prop := '\\' ∉ cs ∧ '\r' ∉ cs ∧ ¬ "$\x7b".toList <:+: cs

/-! ## Code units -/

@[simp]
theorem utf16_nil : utf16 [] = [] := rfl

@[simp]
theorem utf16_cons (c : Char) (cs : List Char) :
    utf16 (c :: cs) = codeUnits c.toNat ++ utf16 cs := List.flatMap_cons

@[simp]
theorem utf16_append (cs ds : List Char) : utf16 (cs ++ ds) = utf16 cs ++ utf16 ds :=
  List.flatMap_append

theorem length_codeUnits (n : Nat) : (codeUnits n).length = if n < 0x10000 then 1 else 2 := by
  unfold codeUnits
  split <;> rfl

theorem length_le_utf16 (cs : List Char) : cs.length ≤ (utf16 cs).length := by
  induction cs with
  | nil => simp
  | cons c cs ih =>
      have one : 1 ≤ (codeUnits c.toNat).length := by
        rw [length_codeUnits]
        split <;> omega
      simp only [utf16_cons, List.length_append, List.length_cons]
      omega

/-! ## Escapes -/

theorem size_of_braced? {cs : List Char} {n size : Nat} (h : braced? cs = some (n, size)) :
    size ≤ cs.length := by
  simp only [braced?] at h
  split at h
  · split at h
    · next inside =>
      cases h
      exact inside.2.1
    · cases h
  · cases h

/-- An escape takes characters that are there, and these have at least as many code units as it
denotes. -/
theorem size_of_escape? {cs : List Char} {units : List Nat} {size : Nat}
    (h : escape? cs = some (units, size)) :
    size ≤ cs.length ∧ units.length ≤ (utf16 (cs.take size)).length := by
  -- A character that denotes itself may have two code units; all others denote no more than
  -- they take characters.
  suffices short : size ≤ cs.length ∧
      (units.length ≤ size ∨ ∃ c more, cs = c :: more ∧ size = 1 ∧
        units = codeUnits c.toNat) by
    refine ⟨short.1, ?_⟩
    rcases short.2 with few | ⟨c, more, rfl, rfl, rfl⟩
    · have taken := length_le_utf16 (cs.take size)
      rw [List.length_take, min_eq_left short.1] at taken
      omega
    · simp
  cases cs with
  | nil => cases h
  | cons c cs =>
      simp only [escape?] at h
      split at h
      · cases h
        simp
      split at h
      · cases h
        simp
      split at h
      · cases h
      split at h
      · split at h
        · next enough =>
          obtain ⟨n, -, ⟨⟩⟩ := Option.map_eq_some_iff.mp h
          simp
          omega
        · cases h
      split at h
      · split at h
        · next opens =>
          obtain ⟨⟨n, inside⟩, found, ⟨⟩⟩ := Option.map_eq_some_iff.mp h
          have within := size_of_braced? found
          cases cs with
          | nil => cases opens
          | cons d cs =>
              simp only [List.tail_cons, List.length_cons, length_codeUnits] at within ⊢
              refine ⟨by omega, .inl ?_⟩
              split <;> omega
        · split at h
          · next enough =>
            obtain ⟨n, -, ⟨⟩⟩ := Option.map_eq_some_iff.mp h
            simp
            omega
          · cases h
      split at h
      · next newline =>
        cases h
        cases cs with
        | nil => simp at newline
        | cons d cs => simp
      split at h
      · cases h
        simp
      · cases h
        exact ⟨by simp, .inr ⟨c, cs, rfl, rfl, rfl⟩⟩

/-! ## Reading a text as itself -/

theorem inert_nil : Inert [] := by
  simp [Inert]

theorem inert_cons_iff {c : Char} {cs : List Char} :
    Inert (c :: cs) ↔ (c ≠ '\\' ∧ c ≠ '\r' ∧ ¬ (c = '$' ∧ cs.head? = some '\x7b')) ∧
      Inert cs := by
  have opens : "$\x7b".toList <+: c :: cs ↔ c = '$' ∧ cs.head? = some '\x7b' := by
    cases cs <;> simp [List.cons_prefix_cons, eq_comm]
  simp only [Inert, List.mem_cons, not_or, List.infix_cons_iff, opens]
  grind

/-- A literal is a text up to a backtick.  Its value has no more code units than the text, and
is the text only if no mechanism of the literal starts in it. -/
theorem exists_body {skipped : Nat} {cs rest : List Char} {value : List Nat}
    (h : read skipped cs = some (value, rest)) :
    ∃ taken body, taken.length = skipped ∧ cs = taken ++ body ++ '`' :: rest ∧
      value.length ≤ (utf16 body).length ∧ (value = utf16 body → Inert body) := by
  induction cs generalizing skipped value with
  | nil => cases skipped <;> cases h
  | cons c cs ih =>
      cases skipped with
      | succ skipped =>
          obtain ⟨taken, body, size, rfl, bound, same⟩ := ih h
          exact ⟨c :: taken, body, by simp [size], rfl, bound, same⟩
      | zero =>
          simp only [read] at h
          split at h
          · next backtick =>
            cases h
            exact ⟨[], [], rfl, by simp [backtick], by simp, fun _ => inert_nil⟩
          split at h
          · next backslash =>
            split at h
            · next units size escaped =>
              obtain ⟨⟨later, _⟩, more, ⟨⟩⟩ := Option.map_eq_some_iff.mp h
              obtain ⟨taken, body, rfl, rfl, bound, -⟩ := ih more
              have few := (size_of_escape? escaped).2
              rw [List.append_assoc, List.take_left] at few
              -- The backslash is a code unit of the text that is not in the value.
              have fewer : (units ++ later).length <
                (utf16 (c :: (taken ++ body))).length := by
                have one : (codeUnits c.toNat).length = 1 := by rw [backslash]; rfl
                simp only [utf16_cons, utf16_append, List.length_append, one]
                omega
              refine ⟨[], c :: (taken ++ body), rfl, by simp, fewer.le, fun same => ?_⟩
              exact absurd (congrArg List.length same) fewer.ne
            · cases h
          split at h
          · cases h
          next backtick backslash opens =>
          split at h
          · next return_ =>
            obtain ⟨⟨later, _⟩, more, ⟨⟩⟩ := Option.map_eq_some_iff.mp h
            obtain ⟨taken, body, -, rfl, bound, -⟩ := ih more
            have unit : codeUnits c.toNat = [13] := by rw [return_]; rfl
            refine ⟨[], c :: (taken ++ body), rfl, by simp, ?_, fun same => ?_⟩
            · simp only [utf16_cons, utf16_append, List.length_append, unit, List.length_cons,
                List.length_nil]
              omega
            · rw [utf16_cons, unit] at same
              cases same
          · next return_ =>
            obtain ⟨⟨later, _⟩, more, ⟨⟩⟩ := Option.map_eq_some_iff.mp h
            obtain ⟨taken, body, nothing, rfl, bound, same⟩ := ih more
            obtain rfl := List.length_eq_zero_iff.mp nothing
            refine ⟨[], c :: body, rfl, by simp, by simpa using bound, fun whole => ?_⟩
            refine inert_cons_iff.mpr ⟨⟨backslash, return_, ?_⟩, same (by simpa using whole)⟩
            rintro ⟨dollar, brace⟩
            exact opens ⟨dollar, by simp [brace]⟩

theorem read_of_inert {text : List Char} (closed : '`' ∉ text) (inert : Inert text)
    (rest : List Char) :
    read 0 (text ++ '`' :: rest) = some (utf16 text, rest) := by
  induction text with
  | nil => rfl
  | cons c text ih =>
      obtain ⟨⟨backslash, return_, opens⟩, inert⟩ := inert_cons_iff.mp inert
      obtain ⟨backtick, closed⟩ := List.ne_and_not_mem_of_not_mem_cons closed
      have plain : ¬ (c = '$' ∧ (text ++ '`' :: rest).head? = some '\x7b') := by
        rintro ⟨dollar, brace⟩
        cases text with
        | nil => cases brace
        | cons d text => exact opens ⟨dollar, brace⟩
      simp only [List.cons_append, read, if_neg backtick.symm, if_neg backslash, if_neg plain,
        if_neg return_,
        ih closed inert, Option.map_some, utf16_cons]

/-- **A text without backticks reads as itself** up to the backtick behind it, exactly if no
escape, no substitution and no carriage return stands in it. -/
theorem read_append_iff {text : List Char} (closed : '`' ∉ text) (rest : List Char) :
    read 0 (text ++ '`' :: rest) = some (utf16 text, rest) ↔ Inert text := by
  refine ⟨fun h => ?_, fun inert => read_of_inert closed inert rest⟩
  obtain ⟨taken, body, nothing, split, -, same⟩ := exists_body h
  obtain rfl := List.length_eq_zero_iff.mp nothing
  obtain rfl : text = body := List.append_cancel_right split
  exact same rfl

end Attestation.TemplateLiteral
