import Attestation.Proofs.MemberType.Grammar
import Attestation.Proofs.Text.Trim

/-!
# Member types are read back

The text of a type is read as that type (`MemberType.parse_display`).  The types that have such
a text are those that are ever read, so that a type that has been read has a normal form.

## Main definitions

* `MemberType.Sized`, `MemberType.Named`: the numbers of a type are in range, and its structs
  have names.
* `MemberType.Printed`: what holds of the text of a type, so that it can stand in front of
  brackets.

## Design notes

`Sized` and `Named` are conditions on the tree of a type.  They are necessary as well as
sufficient, and hold of everything that is read; so the round trip is an equivalence, and
reading, printing and reading again needs no condition at all.
-/

namespace Attestation.MemberType

open Text

/-- The numbers of a type are in range: 16 bits for the width of an integer, 8 for the length
of bytes and 64 for the length of an array. -/
def Sized : MemberType → Prop
  | .uint bits | .int bits => bits ≤ 65535
  | .bytes size => ∀ n ∈ size, n ≤ 255
  | .array element length => element.Sized ∧ ∀ n ∈ length, n ≤ 2 ^ 64 - 1
  | _ => True

/-- Structs have names of word characters and dots. -/
def Named : MemberType → Prop
  | .struct path => path ≠ "" ∧ ∀ c ∈ path.toList, IsPathChar c
  | .array element _ => element.Named
  | _ => True

/-! ## Types that are written -/

section Written

variable {cs : List Char} {t : MemberType}

theorem Length.small {largest : Nat} {ds : List Char} {size : Option Nat}
    (h : Length largest ds size) :
    ∀ n ∈ size, n ≤ largest := by
  cases h with
  | open_ => simp
  | fixed numeral => simpa using numeral.small

theorem Simple.sized_named (h : Simple cs t) : t.Sized ∧ t.Named := by
  cases h with
  | uint numeral => exact ⟨numeral.small, trivial⟩
  | int numeral => exact ⟨numeral.small, trivial⟩
  | bytes length => exact ⟨length.small, trivial⟩
  | struct nonempty chars => exact ⟨trivial, by simpa using nonempty, by simpa using chars⟩
  | bool | address | string | byte => exact ⟨trivial, trivial⟩

theorem Written.sized_named (h : Written cs t) : t.Sized ∧ t.Named := by
  induction h with
  | simple simple => exact simple.sized_named
  | array _ _ _ length ih => exact ⟨⟨ih.1, length.small⟩, ih.2⟩

end Written

/-! ## The text of a type -/

/-- A text of a type that has no outer blanks and stands on one line.  The induction on types
needs both, since brackets are put behind the text of an element. -/
structure Printed (cs : List Char) (t : MemberType) : Prop where
  written : Written cs t
  nonempty : cs ≠ []
  trimmed : Trimmed cs
  line : '\n' ∉ cs

theorem IsPathChar.not_blank {c : Char} (h : IsPathChar c) : isBlank c = false := by
  rcases h with word | rfl
  · exact isBlank_of_isWord word
  · decide

section Printed

variable {cs ds : List Char} {t : MemberType}

theorem printed_of_bare (simple : Simple cs t) (nonempty : cs ≠ [])
    (bare : ∀ c ∈ cs, isBlank c = false) :
    Printed cs t where
  written := .simple simple
  nonempty := nonempty
  trimmed := trimmed_of_no_blank bare
  line mem := absurd (bare _ mem) (by decide)

/-- Blanks stand only behind the word that introduces the name of a struct. -/
theorem Simple.printed (h : Simple cs t) : Printed cs t := by
  have behind : ∀ {front ds : List Char}, front.all (isBlank · = false) = true →
    (∀ c ∈ ds, c.isDigit = true) →
      ∀ c ∈ front ++ ds, isBlank c = false := fun hfront digits c hc =>
    (List.mem_append.mp hc).elim (forall_mem_of_all hfront c) fun hc => isBlank_of_isDigit
    (digits c hc)
  cases h with
  | uint numeral =>
      exact printed_of_bare (.uint numeral) (by simp) (behind (by decide) numeral.digits)
  | int numeral =>
      exact printed_of_bare (.int numeral) (by simp) (behind (by decide) numeral.digits)
  | bytes length =>
      exact printed_of_bare (.bytes length) (by simp) (behind (by decide) length.digits)
  | @struct path nonempty chars =>
      have bare : ∀ c ∈ path, isBlank c = false := fun c hc => (chars c hc).not_blank
      obtain ⟨front, last, rfl⟩ := (List.eq_nil_or_concat' path).resolve_left nonempty
      refine ⟨.simple (.struct nonempty chars), by simp, ?_, ?_⟩
      · exact trimmed_of_ends (c := 's') (by decide) (bare last (by simp)) rfl
          (List.append_assoc _ _ _).symm
      · rw [List.mem_append, not_or]
        exact ⟨by decide, fun mem => absurd (bare _ mem) (by decide)⟩
  | bool => exact printed_of_bare .bool (by decide) (forall_mem_of_all (by decide))
  | address => exact printed_of_bare .address (by decide) (forall_mem_of_all (by decide))
  | string => exact printed_of_bare .string (by decide) (forall_mem_of_all (by decide))
  | byte => exact printed_of_bare .byte (by decide) (forall_mem_of_all (by decide))

/-- Brackets behind a text make it the text of an array. -/
theorem Printed.array (h : Printed cs t) {size : Option Nat}
    (length : Length (2 ^ 64 - 1) ds size) :
    Printed (cs ++ '[' :: ds ++ [']']) (.array t size) where
  written := .array h.nonempty h.line (h.trimmed.symm ▸ h.written) length
  nonempty := by simp
  trimmed := by
    obtain ⟨c, r, rfl⟩ := List.exists_cons_of_ne_nil h.nonempty
    exact trimmed_of_ends h.trimmed.head (by decide) rfl rfl
  line := by
    have inside : '\n' ∉ ds := fun mem => absurd (length.digits _ mem) (by decide)
    simp [h.line, inside]

theorem numeral_toString {largest n : Nat} (small : n ≤ largest) :
    Numeral largest (toString n).toList n := by
  have text : (toString n).toList = Nat.toDigits 10 n := by
    rw [show toString n = Nat.repr n from rfl, Nat.repr_eq_ofList_toDigits,
      String.toList_ofList]
  rw [text]
  exact {
    nonempty := List.ne_nil_of_length_pos Nat.length_toDigits_pos
    digits := fun c hc => Nat.isDigit_of_mem_toDigits (by decide) (by decide) hc
    value := Nat.ofDigitChars_toDigits (by decide) (by decide)
    small := small }

theorem length_display {largest : Nat} {size : Option Nat} (small : ∀ n ∈ size, n ≤ largest) :
    Length largest (displayLength size).toList size := by
  cases size with
  | none => exact .open_
  | some n => exact .fixed (numeral_toString (small n rfl))

/-- **The text of a type** writes it. -/
theorem printed_display {t : MemberType} (sized : t.Sized) (named : t.Named) :
    Printed t.display.toList t := by
  induction t with
  | uint bits =>
      rw [display, String.toList_append]
      exact (Simple.uint (numeral_toString sized)).printed
  | int bits =>
      rw [display, String.toList_append]
      exact (Simple.int (numeral_toString sized)).printed
  | bytes size =>
      rw [display, String.toList_append]
      exact (Simple.bytes (length_display sized)).printed
  | struct path =>
      have nonempty : path.toList ≠ [] := by simpa using named.1
      have simple := Simple.struct nonempty named.2
      rw [String.ofList_toList] at simple
      rw [display, String.toList_append]
      exact simple.printed
  | bool => exact Simple.bool.printed
  | address => exact Simple.address.printed
  | string => exact Simple.string.printed
  | byte => exact Simple.byte.printed
  | array element size ih =>
      have text : (array element size).display.toList
          = element.display.toList ++ '[' :: (displayLength size).toList ++ [']'] := by
        simp [display, String.toList_append]
      rw [text]
      exact (ih sized.1 named).array (length_display sized.2)

end Printed

/-! ## Reading back -/

theorem parse_display_of_sized {t : MemberType} (sized : t.Sized) (named : t.Named) :
    parse t.display = .ok t := by
  have printed := printed_display sized named
  rw [parse_eq_ok_iff, read_eq_some_iff, printed.trimmed]
  exact printed.written

theorem sized_named_of_parse {text : String} {t : MemberType} (h : parse text = .ok t) :
    t.Sized ∧ t.Named :=
  (read_eq_some_iff.mp (parse_eq_ok_iff.mp h)).sized_named

/-- **A type is read back from its text** exactly if its numbers are in range and its structs
have names.  Every type that is read from any text is such a type, and its text is a normal
form: it is written again as it is. -/
theorem parse_display (t : MemberType) :
    (parse t.display = .ok t ↔ t.Sized ∧ t.Named) ∧
    ∀ text, parse text = .ok t → parse t.display = .ok t ∧
      (parse t.display).map display = .ok t.display := by
  refine ⟨⟨sized_named_of_parse, fun h => parse_display_of_sized h.1 h.2⟩, fun text h => ?_⟩
  obtain ⟨sized, named⟩ := sized_named_of_parse h
  have back := parse_display_of_sized sized named
  exact ⟨back, by rw [back]; rfl⟩

/-- An array of arrays of structs. -/
def leafArrays : MemberType := .array (.array (.struct "IPayment.Leaf") (some 3)) none

theorem read_leafArrays : read " struct IPayment.Leaf [03][] ".toList = some leafArrays := by
  have leaf : read "struct IPayment.Leaf ".toList = some (.struct "IPayment.Leaf") :=
    read_of_no_suffix (by decide)
  rw [read_of_suffix (show arraySuffix? (trim " struct IPayment.Leaf [03][] ".toList)
      = some ("struct IPayment.Leaf [03]".toList, []) by decide),
    read_of_suffix (show arraySuffix? (trim "struct IPayment.Leaf [03]".toList)
      = some ("struct IPayment.Leaf ".toList, "03".toList) by decide), leaf]
  decide

/-- Blanks and the zeros in front of a number go, and the brackets stay in their order. -/
theorem parse_display_leafArrays :
    parse " struct IPayment.Leaf [03][] " = .ok leafArrays ∧ leafArrays.Sized ∧
    leafArrays.Named ∧
    leafArrays.display = "struct IPayment.Leaf[3][]" ∧
    parse leafArrays.display = .ok leafArrays ∧
    (parse leafArrays.display).map display = .ok leafArrays.display := by
  have read := parse_eq_ok_iff.mpr read_leafArrays
  obtain ⟨back, normal⟩ := (parse_display leafArrays).2 _ read
  obtain ⟨sized, named⟩ := (parse_display leafArrays).1.mp back
  exact ⟨read, sized, named, by decide, back, normal⟩

end Attestation.MemberType
