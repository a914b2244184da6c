import Attestation.Interface.Extraction
import Attestation.Proofs.MemberType.Grammar
import Mathlib.Data.List.Chain

/-!
# Simple names of struct members

The simple type of a member cuts its text at the last dot, while declarations know a struct by
the end of its path.  Behind a namespace these agree, and the brackets are kept as they are
written.  A struct without a namespace has no dot to cut at, so that the keyword stays
(`MemberType.typeSimple_of_struct`).

## Main definitions

* `MemberType.arrayPart`: what a text holds from its first bracket on.
* `MemberType.Tight`: texts without blanks in front of brackets.

## Design notes

The simple type is a function of the text of a member and never looks at the parsed type; the
statement compares it with the parsed type for every text that is read as a struct or an array
of structs.  Blanks in front of brackets are kept in the one and not in the other, so that
equality with the text of the parsed type needs `Tight`, while the name of the struct does not.
-/

namespace Attestation

open Text

/-! ## Texts of structs and of their arrays -/

namespace MemberType

variable {cs : List Char} {t : MemberType} {path : String}

/-- What a text holds from its first bracket on. -/
def arrayPart (text : String) : String := String.ofList (text.toList.dropWhile (· ≠ '['))

/-- Texts without blanks in front of brackets. -/
def Tight (cs : List Char) : Prop := cs.IsChain fun c next => next = '[' → isBlank c = false

instance (cs : List Char) : Decidable (Tight cs) := inferInstanceAs (Decidable (cs.IsChain _))

/-- What stands behind the path of a struct: brackets with digits between them, or nothing. -/
structure IsSuffix (cs : List Char) : Prop where
  opens : cs = [] ∨ cs.head? = some '['
  chars : ∀ c ∈ cs, c = '[' ∨ c = ']' ∨ c.isDigit = true

/-- **The text of an array of structs**: the keyword, the path and brackets. -/
theorem Written.exists_suffix (h : Written cs t) (innermost : t.innermost = .struct path)
    (trimmed : Trimmed cs)
    (tight : Tight cs) : ∃ suffix, IsSuffix suffix ∧ (∀ c ∈ path.toList, IsPathChar c) ∧
      cs = "struct ".toList ++ path.toList ++ suffix := by
  induction h with
  | simple simple =>
      cases simple with
      | struct nonempty chars =>
          obtain rfl := MemberType.struct.inj innermost
          exact ⟨[], ⟨.inl rfl, by simp⟩, by simpa using chars, by simp⟩
      | _ => cases innermost
  | @array element ds t size nonempty line inner length ih =>
      -- The element keeps the first character of the text, and what stands in front of the
      -- bracket is no blank.
      rw [Tight, List.append_assoc, List.isChain_append] at tight
      obtain ⟨tight, -, seam⟩ := tight
      have own : Trimmed element := by
        obtain ⟨first, more, hfirst⟩ := List.exists_cons_of_ne_nil nonempty
        obtain ⟨front, last, hlast⟩ := (List.eq_nil_or_concat' element).resolve_left nonempty
        have head : isBlank first = false := by
          rw [hfirst] at trimmed
          exact trimmed.head
        have back : isBlank last = false := seam last (by rw [hlast]; simp) '[' rfl rfl
        exact trimmed_of_ends head back hfirst hlast
      rw [own] at ih
      obtain ⟨suffix, isSuffix, chars, rfl⟩ := ih innermost own tight
      refine ⟨suffix ++ '[' :: ds ++ [']'], ⟨.inr ?_, ?_⟩, chars, by simp⟩
      · rcases isSuffix.opens with rfl | opens
        · rfl
        · rw [List.append_assoc, List.head?_append, opens]
          rfl
      · intro c hc
        simp only [List.mem_append, List.mem_cons, List.not_mem_nil, or_false] at hc
        rcases hc with (hc | rfl | hc) | rfl
        · exact isSuffix.chars c hc
        · exact .inl rfl
        · exact .inr (.inr (length.digits c hc))
        · exact .inr (.inl rfl)

theorem IsSuffix.not_dot (h : IsSuffix cs) : '.' ∉ cs := by
  intro mem
  rcases h.chars _ mem with h | h | h
  · cases h
  · cases h
  · exact absurd h (by decide)

/-- The text of a struct, or of an array of structs, in its parts. -/
theorem eq_append_arrayPart {text : String} (parsed : parse text = .ok t)
    (innermost : t.innermost = .struct path)
    (trimmed : Trimmed text.toList) (tight : Tight text.toList) :
    text = "struct " ++ path ++ arrayPart text ∧ '.' ∉ (arrayPart text).toList := by
  have written : Written text.toList t := by
    have read := (parse_iff_written text).1 t |>.mp parsed
    rwa [trimmed] at read
  obtain ⟨suffix, isSuffix, chars, hcs⟩ := written.exists_suffix innermost trimmed tight
  have inside : ∀ c ∈ "struct ".toList ++ path.toList, decide (c ≠ '[') = true := by
    intro c hc
    rw [decide_eq_true_eq]
    rintro rfl
    rcases List.mem_append.mp hc with keyword | name
    · exact absurd keyword (by decide)
    · exact absurd (chars _ name) (by unfold IsPathChar; decide)
  have stop : ∀ c ∈ suffix.head?, decide (c ≠ '[') = false := by
    intro c hc
    rcases isSuffix.opens with rfl | opens
    · cases hc
    · rw [opens] at hc
      cases hc
      rfl
  have same : arrayPart text = String.ofList suffix := by
    rw [arrayPart, hcs, dropWhile_front inside stop]
  constructor
  · rw [same, ← String.toList_inj, hcs]
    simp
  · rw [same, String.toList_ofList]
    exact isSuffix.not_dot

/-- **Simple types of structs.**  The simple type of a member that is a struct, or an array of
structs written without blanks in front of brackets, ends with the name that declarations use
and the brackets as they are written.  This is all of it exactly if the struct has a namespace;
otherwise the keyword stands in front.  The text is cut behind its last dot, and without a dot
nothing is cut. -/
theorem typeSimple_of_struct (documented : List (String × String)) (v : VariableDeclaration)
    (parsed : parse v.type = .ok t) (innermost : t.innermost = .struct path)
    (tight : Tight v.type.toList) :
    ∃ name, t.innermost.structName = some name ∧ t.innermost.plainType = name ∧
      (∀ attestationType, t.innermost.dtoType attestationType
        = attestationType ++ "_" ++ name) ∧
      v.type = "struct " ++ path ++ arrayPart v.type ∧
      (memberRecord documented v).typeSimple
        = (if '.' ∈ path.toList then "" else "struct ") ++ name ++ arrayPart v.type ∧
      ((memberRecord documented v).typeSimple = name ++ arrayPart v.type ↔
        '.' ∈ path.toList) := by
  have trimmed : Trimmed v.type.toList := by
    rw [VariableDeclaration.type, trimString, String.toList_ofList]
    exact trimmed_trim _
  obtain ⟨text, plain⟩ := eq_append_arrayPart parsed innermost trimmed tight
  have cut : (memberRecord documented v).typeSimple
      = lastPiece '.' ("struct " ++ path) ++ arrayPart v.type := by
    show lastPiece '.' v.type = _
    conv_lhs => rw [text]
    exact lastPiece_append_of_not_mem plain
  have whole : (memberRecord documented v).typeSimple
      = (if '.' ∈ path.toList then "" else "struct ") ++ lastPiece '.' path
        ++ arrayPart v.type := by
    rw [cut]
    split
    · next dot => rw [lastPiece_append_of_mem dot, String.empty_append]
    · next dot =>
        rw [lastPiece_of_not_mem dot, lastPiece_of_not_mem]
        rw [String.toList_append, List.mem_append, not_or]
        exact ⟨by decide, dot⟩
  rw [innermost]
  refine ⟨lastPiece '.' path, rfl, rfl, fun _ => rfl, text, whole, ?_⟩
  rw [whole]
  split
  · next dot => simp [dot]
  · next dot =>
      refine iff_of_false (fun same => ?_) dot
      -- The keyword is there, so the two texts differ in length.
      have length := congrArg (fun s : String => s.toList.length) same
      simp only [String.toList_append, List.length_append] at length
      have keyword : "struct ".toList.length = 7 := rfl
      omega

/-- A member that is a list of structs of an interface. -/
def proofs : VariableDeclaration := ⟨"proofs", some "struct IPayment.Proof[3][]"⟩

/-- The namespace and the keyword go, and the brackets stay. -/
theorem typeSimple_of_struct_proofs :
    ∃ t, parse proofs.type = .ok t ∧ t.innermost.structName = some "Proof" ∧
    (memberRecord [] proofs).typeSimple = "Proof[3][]" := by
  have item : read "struct IPayment.Proof".toList = some (.struct "IPayment.Proof") :=
    read_of_no_suffix (by decide)
  have parsed : parse proofs.type = .ok (.array (.array (.struct "IPayment.Proof") (some 3))
    none) := by
    rw [parse_eq_ok_iff, read_of_suffix (show arraySuffix? (trim proofs.type.toList)
        = some ("struct IPayment.Proof[3]".toList, []) by decide),
      read_of_suffix (show arraySuffix? (trim "struct IPayment.Proof[3]".toList)
        = some ("struct IPayment.Proof".toList, ['3']) by decide), item]
    decide
  obtain ⟨name, simple, -, -, -, -, whole⟩ :=
    typeSimple_of_struct [] proofs parsed rfl (by decide)
  obtain rfl : "Proof" = name := Option.some.inj simple
  exact ⟨_, parsed, simple, (whole.mpr (by decide)).trans (by decide)⟩

/-- A member that is a struct without a namespace. -/
def foot : VariableDeclaration := ⟨"foot", some "struct Foo[]"⟩

/-- The simple type of a struct without a namespace is not the name that declarations use. -/
theorem exists_typeSimple_ne : ∃ (v : VariableDeclaration) (t : MemberType) (name : String),
    parse v.type = .ok t ∧
    t.innermost.structName = some name ∧ Tight v.type.toList ∧
    (memberRecord [] v).typeSimple ≠ name ++ arrayPart v.type := by
  have item : read "struct Foo".toList = some (.struct "Foo") := read_of_no_suffix (by decide)
  have parsed : parse foot.type = .ok (.array (.struct "Foo") none) := by
    rw [parse_eq_ok_iff,
      read_of_suffix (show arraySuffix? (trim foot.type.toList)
        = some ("struct Foo".toList, []) by decide), item]
    decide
  exact ⟨foot, _, "Foo", parsed, by decide, by decide, by decide⟩

end MemberType

end Attestation
