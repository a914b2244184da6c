import Attestation.Proofs.Dto.Description
import Attestation.Proofs.Dto.SameSchema
import Attestation.Proofs.Text.Quotes

/-!
# Examples in DTO classes

The last decorator of a property shows an example of its type, if that is no struct and no
array of structs.  The example is a literal with an innermost value of the right kind, but it
has one pair of brackets however many the type has, so that it is a value of the type exactly
if that is no array of arrays (`property_example`, `exists_nesting_ne`).

## Main definitions

* `MemberType.depth`: how deep an array is nested.
* `Dto.Literal`: the literals of examples.
* `Dto.trailingPairs`: how many pairs of brackets stand at the end of a type.

## Design notes

The depth is counted twice, on the member type and on the text of the type of the property, and
both counts are shown to agree; what the example is compared to is the type that stands in the
script.  The leaves are told apart by their form, with a quoted text for everything that a
script would read as a string.
-/

namespace Attestation

/-- How many arrays stand around the innermost element. -/
def MemberType.depth : MemberType → Nat
  | .array element _ => element.depth + 1
  | _ => 0

namespace Dto

open Text

/-! ## Literals -/

/-- The value of an example. -/
inductive Literal where
  | yes
  /-- A text between double quotes, without escapes. -/
  | quoted (text : { s : String // IsVerbatim s })
  | list (item : Literal)

namespace Literal

/-- The literal as it is written. -/
def chars : Literal → List Char
  | .yes => "true".toList
  | .quoted text => '"' :: text.val.toList ++ ['"']
  | .list item => '[' :: item.chars ++ [']']

/-- How many lists stand around the innermost value. -/
def nesting : Literal → Nat
  | .list item => item.nesting + 1
  | _ => 0

/-- The value within all lists. -/
def innermost : Literal → Literal
  | .list item => item.innermost
  | other => other

/-- A text is that of one literal at most. -/
theorem chars_injective {l k : Literal} (h : l.chars = k.chars) : l = k := by
  induction l generalizing k with
  | yes => cases k <;> simp_all [chars]
  | quoted text =>
      cases k with
      | yes => simp [chars] at h
      | quoted other =>
          have same := List.append_cancel_right (List.cons.inj h).2
          exact congrArg _ (Subtype.ext (String.toList_inj.mp same))
      | list item => simp [chars] at h
  | list item ih =>
      cases k with
      | yes => simp [chars] at h
      | quoted other => simp [chars] at h
      | list other => exact congrArg _ (ih (List.append_cancel_right (List.cons.inj h).2))

/-- An innermost value is `true` for a boolean, and a text for each other type.  Numbers are
given as texts too, since they may be too large for a number of a script. -/
structure IsLeafOf (type : MemberType) (leaf : Literal) : Prop where
  yes : type = .bool → leaf = .yes
  quoted : type ≠ .bool → ∃ text, leaf = .quoted text

theorem isLeafOf_quoted {type : MemberType} (other : type ≠ .bool)
    (text : { s : String // IsVerbatim s }) :
    IsLeafOf type (.quoted text) :=
  ⟨fun h => absurd h other, fun _ => ⟨text, rfl⟩⟩

end Literal

/-! ## Pairs of brackets -/

/-- The pairs of brackets in front of a text that is read backwards. -/
def leadingPairs : List Char → Nat
  | ']' :: '[' :: r => leadingPairs r + 1
  | _ => 0

/-- How many pairs of brackets stand at the end of a type. -/
def trailingPairs (type : String) : Nat := leadingPairs type.toList.reverse

theorem trailingPairs_append (type : String) :
    trailingPairs (type ++ "[]") = trailingPairs type + 1 := by
  rw [trailingPairs, String.toList_append, List.reverse_append]
  rfl

/-- The type of a property has a pair of brackets for each array, if there is no struct in
it. -/
theorem trailingPairs_dtoType {attestationType : String} {t : MemberType}
    (plain : t.innermost.isStruct = false) :
    trailingPairs (t.dtoType attestationType) = t.depth := by
  induction t with
  | array element length ih =>
      exact (trailingPairs_append _).trans (congrArg (· + 1) (ih plain))
  | struct path => cases plain
  | bool => exact (by decide : trailingPairs "boolean" = 0)
  | _ => exact (by decide : trailingPairs "string" = 0)

/-! ## The example of a type -/

/-- The literal is shown for a type. -/
structure Shows (t : MemberType) (literal : Literal) (shown : String) : Prop where
  chars : shown.toList = literal.chars
  leaf : Literal.IsLeafOf t.innermost literal.innermost

theorem shows_inQuotes {t : MemberType} (other : t.innermost ≠ .bool) {text : String}
    (verbatim : IsVerbatim text) : Shows t (.quoted ⟨text, verbatim⟩) (inQuotes text) where
  chars := by simp [inQuotes, Literal.chars]
  leaf := Literal.isLeafOf_quoted other _

theorem example?_innermost (t : MemberType) : example? t.innermost = example? t := by
  induction t with
  | array element length ih => exact ih
  | _ => rfl

/-- A type has an example if it is no struct and no array of structs, and this is one value. -/
theorem exists_example? (t : MemberType) :
    (t.innermost.isStruct = true → example? t = none) ∧
      (t.innermost.isStruct = false →
        ∃ literal shown, example? t = some shown ∧ Shows t literal shown ∧
          literal.nesting = 0) := by
  induction t with
  | array element length ih =>
      -- An array shows what its elements show, and has the same innermost element.
      refine ⟨ih.1, fun plain => ?_⟩
      obtain ⟨literal, shown, found, shows_, flat⟩ := ih.2 plain
      exact ⟨literal, shown, found, ⟨shows_.chars, shows_.leaf⟩, flat⟩
  | struct path =>
      exact ⟨fun _ => rfl, fun plain =>
        absurd plain (by simp [MemberType.innermost, MemberType.isStruct])⟩
  | bool =>
      exact ⟨nofun, fun _ => ⟨.yes, _, rfl,
        ⟨rfl, ⟨fun _ => rfl, fun other => absurd rfl other⟩⟩, rfl⟩⟩
  | bytes size =>
      have other : (MemberType.bytes size).innermost ≠ .bool := by simp [MemberType.innermost]
      refine ⟨nofun, fun _ => ?_⟩
      by_cases word : size = some 32
      · subst word
        exact ⟨_, _, rfl, shows_inQuotes other (by decide : IsVerbatim zeroWord), rfl⟩
      · have short : example? (.bytes size) = some (inQuotes "0x1234abcd") := by
          simp [example?]
        exact ⟨_, _, short, shows_inQuotes other (by decide), rfl⟩
  | uint | int | byte | address | string =>
      exact ⟨nofun, fun _ => ⟨_, _, rfl,
        shows_inQuotes (by simp [MemberType.innermost]) (by decide), rfl⟩⟩

/-- The word of a name stands for itself between double quotes. -/
theorem isVerbatim_encode {name word : String} (h : Bytes32.encode name = .ok word) :
    IsVerbatim word := by
  have digit : ∀ n : Nat, isVerbatim (Bytes32.hexDigit n) = true := by
    intro n
    have all : ∀ k < 16, isVerbatim (Nat.digitChar k) = true := by decide
    exact all _ (Nat.mod_lt _ (by decide))
  simp only [Bytes32.encode] at h
  split at h
  · cases h
    have opens : isVerbatim '0' = true ∧ isVerbatim 'x' = true := by decide
    rw [IsVerbatim, String.toList_ofList, List.all_cons, List.all_cons, List.all_flatMap]
    simp [Bytes32.hexByte, digit, opens]
  · cases h

/-- The example of a member: none if there is a struct in its type, and else a value, within
one list if the type is an array. -/
theorem exists_memberExample {attestationType memberName : String} {t : MemberType}
    {shown : Option String}
    (h : memberExample? attestationType memberName t = .ok shown) :
    (t.innermost.isStruct = true → shown = none) ∧
      (t.innermost.isStruct = false →
        ∃ literal text, shown = some text ∧ Shows t literal text ∧
          literal.nesting = min 1 t.depth) := by
  -- Outside of arrays an example is that of the type, or the word of a name.
  have flat : t.depth = 0 → shown = example? t → (t.innermost.isStruct = true → shown = none) ∧
      (t.innermost.isStruct = false →
        ∃ literal text, shown = some text ∧ Shows t literal text ∧
          literal.nesting = min 1 t.depth) := by
    rintro single rfl
    rw [single]
    exact exists_example? t
  unfold memberExample? at h
  split at h
  · next element length =>
    rw [example?_innermost] at h
    cases h
    obtain ⟨none_, some_⟩ := exists_example? (.array element length)
    refine ⟨fun struct => by rw [none_ struct]; rfl, fun plain => ?_⟩
    obtain ⟨literal, text, found, shows_, single⟩ := some_ plain
    refine ⟨.list literal,
      _, by rw [found]; rfl, ⟨by simp [Literal.chars, shows_.chars], shows_.leaf⟩, ?_⟩
    simp [Literal.nesting, MemberType.depth, single]
  · split at h
    · next name _ =>
      cases encoded : Bytes32.encode name with
      | error e => rw [encoded] at h; cases h
      | ok word =>
          rw [encoded] at h
          cases h
          exact ⟨nofun, fun _ => ⟨_, _, rfl,
            shows_inQuotes (by simp [MemberType.innermost]) (isVerbatim_encode encoded), rfl⟩⟩
    · exact flat rfl (Except.ok.inj h).symm
  · next notArray _ =>
    refine flat ?_ (Except.ok.inj h).symm
    cases t with
    | array element length => exact absurd rfl (notArray element length)
    | _ => rfl

/-- **The example of a property.**  The last decorator of a property, behind the description,
shows no example if there is a struct in the type, and else exactly one literal, with the
innermost value that the type asks for.  It is nested once if the type is an array, so as deep
as the declared type exactly if that is no array of arrays.  The same recursion over the type
gives both depths. -/
theorem property_example (attestationType : String) {m : Member} {t : MemberType}
    (parsed : MemberType.parse m.type = .ok t) :
    (utf8Size attestationType.toList ≤ Bytes32.size →
      ∃ f, Field.ofMember attestationType m = .ok f) ∧
    ∀ f, Field.ofMember attestationType m = .ok f → ∃ before line behind, f.annotations
      = before ++ [line] ∧
      line.toList = "@ApiProperty(\x7bdescription: `".toList
        ++ (asDescribed m.comment ++ '`' :: behind) ∧
      (t.innermost.isStruct = true → behind = "\x7d)".toList) ∧
      (t.innermost.isStruct = false → ∃ literal : Literal,
        (∀ other : Literal, behind = ", example: ".toList ++ other.chars ++ "\x7d)".toList ↔
          other = literal) ∧
        Literal.IsLeafOf t.innermost literal.innermost ∧
        literal.nesting = min 1 (trailingPairs f.type) ∧
        (literal.nesting = trailingPairs f.type ↔ t.depth ≤ 1)) := by
  refine ⟨fun fits => (Field.exists_ofMember_iff fits).mpr ⟨t, parsed⟩, fun f accepted => ?_⟩
  obtain ⟨_, shown, again, example_, rfl⟩ := Field.ofMember_eq_ok_iff.mp accepted
  rw [parsed] at again
  cases again
  obtain ⟨none_, some_⟩ := exists_memberExample example_
  refine ⟨_, _, behindDescription shown, rfl, toList_propertyDecorator m.comment shown, ?_,
    fun plain => ?_⟩
  · intro struct
    rw [none_ struct, behindDescription_none]
  obtain ⟨literal, text, rfl, shows_, nesting⟩ := some_ plain
  refine ⟨literal, fun other => ?_, shows_.leaf, ?_, ?_⟩
  · rw [behindDescription_some, shows_.chars]
    exact ⟨fun same => Literal.chars_injective
      (List.append_cancel_left (List.append_cancel_right same)).symm,
      fun same => by rw [same]⟩
  · rw [trailingPairs_dtoType plain, nesting]
  · rw [trailingPairs_dtoType plain, nesting]
    omega

/-- A list of booleans shows one boolean within one list. -/
theorem property_example_list :
    ∃ f before line behind literal,
      MemberType.parse "bool[]" = .ok (.array .bool none) ∧
      Field.ofMember "Payment" ⟨"known", "bool[]", "bool[]", ""⟩ = .ok f ∧
      f.annotations = before ++ [line] ∧
      line.toList = "@ApiProperty(\x7bdescription: `".toList
        ++ (asDescribed "" ++ '`' :: behind) ∧
      (∀ other : Literal, behind = ", example: ".toList ++ other.chars ++ "\x7d)".toList ↔
        other = literal) ∧
      literal.innermost = .yes ∧ literal.nesting = trailingPairs f.type := by
  have parsed : MemberType.parse "bool[]" = .ok (.array .bool none) := by
    have item : MemberType.read "bool".toList = some .bool :=
      MemberType.read_of_no_suffix (by decide)
    rw [MemberType.parse_eq_ok_iff, MemberType.read_of_suffix
      (show MemberType.arraySuffix? (trim "bool[]".toList)
        = some ("bool".toList, []) by decide), item]
    rfl
  obtain ⟨accepts, describes⟩ := property_example "Payment"
    (show MemberType.parse (⟨"known", "bool[]", "bool[]", ""⟩ : Member).type
      = .ok (.array .bool none) from parsed)
  obtain ⟨f, accepted⟩ := accepts (by decide)
  obtain ⟨before, line, behind, last, chars, -, shows_⟩ := describes f accepted
  obtain ⟨literal, only, leaf, -, nested⟩ := shows_ rfl
  exact ⟨f, before, line, behind, literal, parsed, accepted, last, chars, only, leaf.yes rfl,
    nested.mpr (by decide)⟩

/-- A member that is a list of lists of numbers. -/
def rowsMember : Member := ⟨"rows", "uint256[][]", "uint256[][]", ""⟩

/-- The example of a list of lists is a list of one number, which is no value of the declared
type. -/
theorem exists_nesting_ne :
    ∃ t f before line literal, MemberType.parse rowsMember.type = .ok t ∧
      t.innermost.isStruct = false ∧
      Field.ofMember "Payment" rowsMember = .ok f ∧ f.type = "string[][]" ∧
      f.annotations = before ++ [line] ∧
      line.toList = "@ApiProperty(\x7bdescription: `".toList ++
        (asDescribed rowsMember.comment ++ '`' :: (", example: ".toList
          ++ Literal.chars literal ++ "\x7d)".toList)) ∧
      literal.chars = "[\"123\"]".toList ∧ literal.nesting ≠ trailingPairs f.type := by
  have row : MemberType.read "uint256".toList = some (.uint 256) :=
    MemberType.read_of_no_suffix (by decide)
  have column : MemberType.read "uint256[]".toList = some (.array (.uint 256) none) := by
    rw [MemberType.read_of_suffix
      (show MemberType.arraySuffix? (trim "uint256[]".toList)
        = some ("uint256".toList, []) by decide), row]
    rfl
  have parsed : MemberType.parse rowsMember.type
      = .ok (.array (.array (.uint 256) none) none) := by
    rw [MemberType.parse_eq_ok_iff, rowsMember, MemberType.read_of_suffix
      (show MemberType.arraySuffix? (trim "uint256[][]".toList)
        = some ("uint256[]".toList, []) by decide), column]
    rfl
  have accepted : Field.ofMember "Payment" rowsMember = .ok _ :=
    Field.ofMember_eq_ok_iff.mpr ⟨_, _, parsed, rfl, rfl⟩
  have shown : "[\"123\"]".toList = Literal.chars (.list (.quoted ⟨"123", by decide⟩)) := by
    decide
  refine ⟨_, _, _, _, .list (.quoted ⟨"123", by decide⟩), parsed, rfl, accepted, rfl, rfl, ?_,
    shown.symm, by decide⟩
  rw [← shown, ← behindDescription_some]
  exact toList_propertyDecorator rowsMember.comment (some "[\"123\"]")

end Dto

end Attestation
