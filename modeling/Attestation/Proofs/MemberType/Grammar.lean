import Attestation.MemberType.Parser
import Attestation.Proofs.Text.Pieces
import Mathlib.Algebra.Group.Nat.Defs

/-!
# The grammar of member types

A text is read as a type exactly when the grammar of member types derives it, and every other
text is refused as it was given (`MemberType.parse_iff_written`).

## Main definitions

* `MemberType.Numeral`, `MemberType.Length`: numbers up to a largest one, and lengths that may
  be left out.
* `MemberType.Simple`: how types without brackets are written.
* `MemberType.Written`: how types are written.  The last pair of brackets is that of the
  outermost array, and there may be blanks in front of it.

## Design notes

The grammar is a relation between types and texts in which nothing is tried: it has one
constructor for each form.  The reader tries the forms in a fixed order, and the proof shows
that no two forms share a text, so that the order does not matter.  Numbers have bounds, so
that a numeral that is too long is no numeral, and leading zeros are allowed in front of them.
-/

namespace Attestation.MemberType

open Text

/-! ## The grammar -/

/-- Decimal digits, at least one, that write a number up to a largest one.  Zeros in front do
not count. -/
structure Numeral (largest : Nat) (ds : List Char) (n : Nat) : Prop where
  nonempty : ds ≠ []
  digits : ∀ c ∈ ds, c.isDigit = true
  value : Nat.ofDigitChars 10 ds 0 = n
  small : n ≤ largest

/-- A number up to a largest one, or nothing. -/
inductive Length (largest : Nat) : List Char → Option Nat → Prop
  | open_ : Length largest [] none
  | fixed {ds : List Char} {n : Nat} (numeral : Numeral largest ds n) :
      Length largest ds (some n)

/-- The characters of a qualified name. -/
def IsPathChar (c : Char) : Prop := isWord c = true ∨ c = '.'

/-- How a type without brackets is written.  Widths are numbers of 16 bits and sizes numbers of
8 bits, whether or not there is such a type. -/
inductive Simple : List Char → MemberType → Prop
  | uint {ds : List Char} {bits : Nat} (numeral : Numeral 65535 ds bits) :
      Simple ("uint".toList ++ ds) (.uint bits)
  | int {ds : List Char} {bits : Nat} (numeral : Numeral 65535 ds bits) :
      Simple ("int".toList ++ ds) (.int bits)
  | bytes {ds : List Char} {size : Option Nat} (length : Length 255 ds size) :
      Simple ("bytes".toList ++ ds) (.bytes size)
  | struct {path : List Char} (nonempty : path ≠ []) (chars : ∀ c ∈ path, IsPathChar c) :
      Simple ("struct ".toList ++ path) (.struct (String.ofList path))
  | bool : Simple "bool".toList .bool
  | address : Simple "address".toList .address
  | string : Simple "string".toList .string
  | byte : Simple "byte".toList .byte

/-- How a type is written.  The length of an array has 64 bits. -/
inductive Written : List Char → MemberType → Prop
  | simple {cs : List Char} {t : MemberType} (simple : Simple cs t) : Written cs t
  | array {element ds : List Char} {t : MemberType} {size : Option Nat}
      (nonempty : element ≠ [])
      (line : '\n' ∉ element) (inner : Written (trim element) t)
      (length : Length (2 ^ 64 - 1) ds size) :
      Written (element ++ '[' :: ds ++ [']']) (.array t size)

/-! ## Numbers -/

section Numbers

variable {largest n : Nat} {ds : List Char} {size : Option Nat}

theorem readBelow_eq_some_iff : readBelow (largest + 1) ds = some n ↔
    Numeral largest ds n := by
  have value : ds.foldl (fun n d => 10 * n + (d.toNat - '0'.toNat)) 0
      = Nat.ofDigitChars 10 ds 0 := rfl
  rw [readBelow, value, Option.ite_none_right_eq_some]
  simp only [Bool.and_eq_true, Bool.not_eq_true', List.isEmpty_eq_false_iff, List.all_eq_true,
    decide_eq_true_eq,
    Option.some.injEq]
  constructor
  · rintro ⟨⟨⟨nonempty, digits⟩, small⟩, rfl⟩
    exact ⟨nonempty, digits, rfl, Nat.le_of_lt_succ small⟩
  · rintro ⟨nonempty, digits, rfl, small⟩
    exact ⟨⟨⟨nonempty, digits⟩, Nat.lt_succ_of_le small⟩, rfl⟩

theorem readLength_eq_some_iff : readLength (largest + 1) ds = some size ↔
    Length largest ds size := by
  unfold readLength
  split
  · next empty =>
      rw [List.isEmpty_iff] at empty
      subst empty
      constructor
      · rintro ⟨⟩
        exact .open_
      · rintro (_ | numeral)
        · rfl
        · exact absurd rfl numeral.nonempty
  · next nonempty =>
      rw [Option.map_eq_some_iff]
      constructor
      · rintro ⟨n, hn, rfl⟩
        exact .fixed (readBelow_eq_some_iff.mp hn)
      · rintro (_ | numeral)
        · exact absurd rfl nonempty
        · exact ⟨_, readBelow_eq_some_iff.mpr numeral, rfl⟩

theorem Length.digits (h : Length largest ds size) : ∀ c ∈ ds, c.isDigit = true := by
  cases h with
  | open_ => simp
  | fixed numeral => exact numeral.digits

end Numbers

/-! ## Types without brackets -/

section Simple

variable {cs : List Char} {t : MemberType}

theorem simple_of_readInteger (h : readInteger cs = some t) : Simple cs t := by
  unfold readInteger at h
  split at h
  · next ds found =>
      obtain ⟨bits, hbits, rfl⟩ := Option.map_eq_some_iff.mp h
      rw [← List.append_eq_of_isPrefixOf?_eq_some found]
      exact .uint (readBelow_eq_some_iff.mp hbits)
  · obtain ⟨ds, found, h⟩ := Option.bind_eq_some_iff.mp h
    obtain ⟨bits, hbits, rfl⟩ := Option.map_eq_some_iff.mp h
    rw [← List.append_eq_of_isPrefixOf?_eq_some found]
    exact .int (readBelow_eq_some_iff.mp hbits)

theorem simple_of_readElement (h : readElement cs = some t) : Simple cs t := by
  have word : ∀ {w : String}, String.ofList cs = w → cs = w.toList := by
    rintro _ rfl
    exact String.toList_ofList.symm
  unfold readElement at h
  split at h
  · next hw =>
      cases h
      exact word hw ▸ .bool
  · next hw =>
      cases h
      exact word hw ▸ .address
  · next hw =>
      cases h
      exact word hw ▸ .string
  · next hw =>
      cases h
      exact word hw ▸ .byte
  · split at h
    · next ds found =>
        obtain ⟨size, hsize, rfl⟩ := Option.map_eq_some_iff.mp h
        rw [← List.append_eq_of_isPrefixOf?_eq_some found]
        exact .bytes (readLength_eq_some_iff.mp hsize)
    · split at h
      · next path found =>
          obtain ⟨valid, ⟨⟩⟩ := Option.ite_none_right_eq_some.mp h
          simp only [Bool.and_eq_true, Bool.not_eq_true', List.isEmpty_eq_false_iff,
            List.all_eq_true,
            Bool.or_eq_true, decide_eq_true_eq] at valid
          rw [← List.append_eq_of_isPrefixOf?_eq_some found]
          exact .struct valid.1 valid.2
      · exact simple_of_readInteger h

/-- What follows the front of another type than the four that are single words. -/
theorem readElement_append {front : String} {rest : List Char}
    (other : ∀ word ∈ ["bool", "address", "string", "byte"], ¬ front.toList <+: word.toList) :
    readElement (front.toList ++ rest) =
      match List.isPrefixOf? "bytes".toList (front.toList ++ rest) with
      | some ds => (readLength 256 ds).map .bytes
      | none =>
          match List.isPrefixOf? "struct ".toList (front.toList ++ rest) with
          | some path =>
              if !path.isEmpty && path.all (fun c => isWord c || c = '.') then some
                (.struct (String.ofList path))
              else none
          | none => readInteger (front.toList ++ rest) := by
  have unlike : ∀ word ∈ ["bool", "address", "string", "byte"],
    String.ofList (front.toList ++ rest) ≠ word := by
    rintro word hword rfl
    exact other _ hword (by simp)
  unfold readElement
  split
  · next h => exact absurd h (unlike "bool" (by simp))
  · next h => exact absurd h (unlike "address" (by simp))
  · next h => exact absurd h (unlike "string" (by simp))
  · next h => exact absurd h (unlike "byte" (by simp))
  · rfl

theorem readElement_of_simple (h : Simple cs t) : readElement cs = some t := by
  cases h with
  | uint numeral =>
      rw [readElement_append (by decide)]
      exact congrArg (Option.map uint) (readBelow_eq_some_iff.mpr numeral)
  | int numeral =>
      rw [readElement_append (by decide)]
      exact congrArg (Option.map int) (readBelow_eq_some_iff.mpr numeral)
  | bytes length =>
      rw [readElement_append (by decide), isPrefixOf?_append]
      exact congrArg (Option.map bytes) (readLength_eq_some_iff.mpr length)
  | struct nonempty chars =>
      rw [readElement_append (by decide)]
      exact if_pos (by simpa [nonempty, IsPathChar] using chars)
  | bool => rfl
  | address => rfl
  | string => rfl
  | byte => rfl

theorem readElement_eq_some_iff : readElement cs = some t ↔ Simple cs t :=
  ⟨simple_of_readElement, readElement_of_simple⟩

/-- A type without brackets does not end with one. -/
theorem Simple.unbracketed (h : Simple cs t) : ']' ∉ cs := by
  have digits : ∀ {ds : List Char}, (∀ c ∈ ds, c.isDigit = true) → ']' ∉ ds :=
    fun all mem => absurd (all _ mem) (by decide)
  cases h with
  | uint numeral => simpa using digits numeral.digits
  | int numeral => simpa using digits numeral.digits
  | bytes length => simpa using digits length.digits
  | struct _ chars =>
      have path : ']' ∉ _ := fun mem => absurd (chars _ mem) (by unfold IsPathChar; decide)
      simpa using path
  | bool => decide
  | address => decide
  | string => decide
  | byte => decide

end Simple

/-! ## Arrays -/

theorem arraySuffix?_eq_some_iff {cs element ds : List Char} :
    arraySuffix? cs = some (element, ds) ↔
      cs = element ++ '[' :: ds ++ [']'] ∧ element ≠ [] ∧ '\n' ∉ element ∧
      ∀ c ∈ ds, c.isDigit = true := by
  constructor
  · intro h
    unfold arraySuffix? at h
    split at h
    · next r hr =>
        split at h
        · next e he =>
            split at h
            · cases h
            · next line =>
                simp only [Option.some.injEq, Prod.mk.injEq] at h
                obtain ⟨rfl, rfl⟩ := h
                simp only [Bool.or_eq_true, List.isEmpty_iff,
                  List.contains_iff_mem, not_or] at line
                have parts : r = r.takeWhile Char.isDigit ++ '[' :: e :=
                  he ▸ List.takeWhile_append_dropWhile.symm
                refine ⟨?_, by simpa using line.1, by simpa using line.2, ?_⟩
                · rw [← List.reverse_reverse cs, hr, List.reverse_cons]
                  conv_lhs => rw [parts]
                  simp
                · intro c hc
                  exact List.mem_takeWhile_imp (List.mem_reverse.mp hc)
        · cases h
    · cases h
  · rintro ⟨rfl, nonempty, line, digits⟩
    -- The brackets are looked for from the end of the text.
    have reversed : (element ++ '[' :: ds ++ [']']).reverse
        = ']' :: (ds.reverse ++ '[' :: element.reverse) := by
      simp
    have inside : ∀ c ∈ ds.reverse, c.isDigit = true := by simpa using digits
    have stop : ∀ c ∈ ('[' :: element.reverse).head?, c.isDigit = false := by
      rintro c ⟨⟩
      decide
    rw [arraySuffix?, reversed]
    simp only [dropWhile_front inside stop, takeWhile_front inside stop]
    rw [if_neg (by simp [nonempty, line]), List.reverse_reverse, List.reverse_reverse]

/-- A written type has no brackets at its end, or it is the array that its last brackets
make. -/
theorem written_iff {cs : List Char} {t : MemberType} :
    Written cs t ↔ Simple cs t ∨
      ∃ element ds inner size, arraySuffix? cs = some (element, ds) ∧
        Written (trim element) inner ∧
        Length (2 ^ 64 - 1) ds size ∧ t = .array inner size := by
  constructor
  · rintro (simple | ⟨nonempty, line, inner, length⟩)
    · exact .inl simple
    · exact .inr ⟨_, _, _, _, arraySuffix?_eq_some_iff.mpr ⟨rfl, nonempty, line,
        length.digits⟩, inner, length, rfl⟩
  · rintro (simple | ⟨element, ds, inner, size, suffix, hinner, length, rfl⟩)
    · exact .simple simple
    · obtain ⟨rfl, nonempty, line, -⟩ := arraySuffix?_eq_some_iff.mp suffix
      exact .array nonempty line hinner length

/-! ## Reading -/

theorem read_of_suffix {cs element digits : List Char}
    (h : arraySuffix? (trim cs) = some (element, digits)) :
    read cs = (read element).bind fun t =>
      (readLength (Nat.pow 2 64) digits).map fun length => .array t length := by
  rw [read]
  split
  · next e d he =>
      rw [h] at he
      cases he
      cases read element with
      | none => rfl
      | some t => cases readLength (Nat.pow 2 64) digits <;> rfl
  · next none_ =>
      rw [h] at none_
      cases none_

theorem read_of_no_suffix {cs : List Char} (h : arraySuffix? (trim cs) = none) :
    read cs = readElement (trim cs) := by
  rw [read]
  split
  · next e d he =>
      rw [h] at he
      cases he
  · rfl

/-- **A text is read** as the type that it writes between its outer blanks. -/
theorem read_eq_some_iff {cs : List Char} {t : MemberType} : read cs = some t ↔
    Written (trim cs) t := by
  rw [written_iff]
  have largest : Nat.pow 2 64 = 2 ^ 64 - 1 + 1 := rfl
  -- The recursion goes into the element of an array.
  fun_induction read cs generalizing t with
  | case1 cs element ds suffix ih =>
      have notSimple : ¬ Simple (trim cs) t := by
        intro simple
        rw [(arraySuffix?_eq_some_iff.mp suffix).1] at simple
        exact simple.unbracketed (by simp)
      simp only [notSimple, false_or, suffix, Option.some.injEq, Prod.mk.injEq,
        ← written_iff] at ih ⊢
      simp only [Option.bind_eq_bind, Option.bind_eq_some_iff, ih, largest,
        readLength_eq_some_iff]
      constructor
      · rintro ⟨inner, hinner, size, length, ⟨⟩⟩
        exact ⟨element, ds, inner, size, ⟨rfl, rfl⟩, hinner, length, rfl⟩
      · rintro ⟨_, _, inner, size, ⟨rfl, rfl⟩, hinner, length, rfl⟩
        exact ⟨inner, hinner, size, length, rfl⟩
  | case2 cs none_ =>
      simp only [readElement_eq_some_iff, none_, reduceCtorEq, false_and,
        exists_false, or_false]

theorem parse_eq_ok_iff {text : String} {t : MemberType} : parse text = .ok t ↔
    read text.toList = some t := by
  unfold parse
  cases read text.toList with
  | none => constructor <;> nofun
  | some t => simp

theorem parse_eq_error_iff {text : String} {e : UnknownType} :
    parse text = .error e ↔ read text.toList = none ∧ e = ⟨text⟩ := by
  unfold parse
  cases read text.toList with
  | none => simp [eq_comm]
  | some t => simp

/-- **Reading accepts exactly the grammar**: a text is read as the type that it writes between
its outer blanks, and a text that writes no type is unknown as a whole.  So each text writes at
most one type, and the error quotes it as it was given. -/
theorem parse_iff_written (text : String) :
    (∀ t, parse text = .ok t ↔ Written (trim text.toList) t) ∧
    ∀ e, parse text = .error e ↔ (∀ t, ¬ Written (trim text.toList) t) ∧ e = ⟨text⟩ := by
  constructor
  · intro t
    rw [parse_eq_ok_iff, read_eq_some_iff]
  · intro e
    simp only [parse_eq_error_iff, Option.eq_none_iff_forall_ne_some, ne_eq, read_eq_some_iff]

end Attestation.MemberType
