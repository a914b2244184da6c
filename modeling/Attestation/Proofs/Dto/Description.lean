import Attestation.Proofs.Dto.Field
import Attestation.Proofs.Script.TemplateLiteral

/-!
# Descriptions in DTO classes

The last decorator of a property describes it with the comment of the member, in a template
literal.  Backticks become apostrophes, and nothing else is changed: the literal is read as the
comment exactly if no escape, no substitution and no carriage return stands in the comment
(`read_description_iff`).  A comment with a backslash at its end keeps the literal open, and a
comment with a substitution is evaluated (`exists_read_description_ne`).

## Main definitions

* `Dto.asDescribed`: the characters of a comment as a description shows them.

## Design notes

Reading is that of the language of the scripts: a literal ends at the first backtick that no
backslash escapes, line breaks are normalised, and a substitution makes it no plain text.  The
reader is a model of its own (`TemplateLiteral.read`), so the criterion is proved and not
stipulated.
-/

namespace Attestation.Dto

open TemplateLiteral

/-- The comment with an apostrophe for each backtick. -/
def asDescribed (comment : String) : List Char :=
  comment.toList.map fun c => if c = '`' then '\'' else c

theorem backtick_not_mem_asDescribed (comment : String) : '`' ∉ asDescribed comment := by
  intro h
  obtain ⟨c, -, shown⟩ := List.mem_map.mp h
  split at shown <;> simp_all

/-- An apostrophe starts no escape and no substitution, as little as a backtick does. -/
theorem inert_map_iff (cs : List Char) : Inert (cs.map fun c => if c = '`' then '\'' else c) ↔
    Inert cs := by
  induction cs with
  | nil => exact Iff.rfl
  | cons c cs ih =>
      have kept : (cs.map fun c => if c = '`' then '\'' else c).head? = some '\x7b' ↔
        cs.head? = some '\x7b' := by
        cases cs with
        | nil => exact Iff.rfl
        | cons d cs => by_cases backtick : d = '`' <;> simp [backtick]
      rw [List.map_cons]
      refine inert_cons_iff.trans (Iff.trans ?_ inert_cons_iff.symm)
      refine and_congr ?_ ih
      rw [kept]
      by_cases backtick : c = '`' <;> simp [backtick]

/-- The decorator behind the description: its end, or an example before. -/
def behindDescription : Option String → List Char
  | none => "\x7d)".toList
  | some e => ", example: ".toList ++ e.toList ++ "\x7d)".toList

theorem behindDescription_none : behindDescription none = "\x7d)".toList := rfl

theorem behindDescription_some (e : String) :
    behindDescription (some e) = ", example: ".toList ++ e.toList ++ "\x7d)".toList := rfl

theorem toList_propertyDecorator (comment : String) (shown : Option String) :
    (propertyDecorator comment shown).toList
      = "@ApiProperty(\x7bdescription: `".toList
        ++ (asDescribed comment ++ '`' :: behindDescription shown) := by
  have parts : ∀ a b c d e : String,
      (a ++ b ++ c ++ d ++ e).toList
        = a.toList ++ (b.toList ++ (c.toList ++ (d.toList ++ e.toList))) := by simp
  refine (parts _ _ _ _ _).trans
    (congrArg (_ ++ ·) (congrArg₂ (· ++ ·) String.toList_ofList ?_))
  cases shown with
  | none => rfl
  | some e => exact congrArg ('`' :: ·) (congrArg (· ++ _) String.toList_append)

/-- **The description of a property** stands in the last decorator, up to a backtick that is
followed by the end of the decorator or by an example.  It is read as the comment, up to that
backtick, exactly if the comment holds no backslash, no carriage return and no substitution.
Backticks of the comment are written as apostrophes, so they do no harm. -/
theorem read_description_iff {attestationType : String} {m : Member} {f : Field}
    (accepted : Field.ofMember attestationType m = .ok f) :
    ∃ before line behind, f.annotations = before ++ [line] ∧
      line.toList = "@ApiProperty(\x7bdescription: `".toList
        ++ (asDescribed m.comment ++ '`' :: behind) ∧
      (behind = "\x7d)".toList ∨
        ∃ shown, behind = ", example: ".toList ++ shown ++ "\x7d)".toList) ∧
      (read 0 (asDescribed m.comment ++ '`' :: behind)
        = some (utf16 (asDescribed m.comment), behind) ↔
        '\\' ∉ m.comment.toList ∧ '\r' ∉ m.comment.toList ∧
        ¬ "$\x7b".toList <:+: m.comment.toList) := by
  obtain ⟨t, shown, -, -, rfl⟩ := Field.ofMember_eq_ok_iff.mp accepted
  have decorated := toList_propertyDecorator m.comment shown
  have read_iff := fun behind =>
    (read_append_iff (backtick_not_mem_asDescribed m.comment) behind).trans
    (inert_map_iff m.comment.toList)
  cases shown with
  | none => exact ⟨_, _, _, rfl, decorated, .inl behindDescription_none, read_iff _⟩
  | some e =>
      exact ⟨_, _, _, rfl, decorated, .inr ⟨e.toList, behindDescription_some e⟩, read_iff _⟩

/-- The member `paid` with a comment. -/
def commentedMember (comment : String) : Member := ⟨"paid", "bool", "bool", comment⟩

/-- A comment with backticks is read with apostrophes, up to the backtick behind it. -/
theorem read_description_backticks :
    ∃ f before line behind, Field.ofMember "Payment"
      (commentedMember "Whether `paid` is $ or not.") = .ok f ∧
      f.annotations = before ++ [line] ∧
      line.toList = "@ApiProperty(\x7bdescription: `".toList ++
        (asDescribed "Whether `paid` is $ or not." ++ '`' :: behind) ∧
      asDescribed "Whether `paid` is $ or not." = "Whether 'paid' is $ or not.".toList ∧
      read 0 (asDescribed "Whether `paid` is $ or not." ++ '`' :: behind)
        = some (utf16 (asDescribed "Whether `paid` is $ or not."), behind) := by
  have accepted := Field.ofMember_bool "Payment" "paid" "bool" "Whether `paid` is $ or not."
  obtain ⟨before, line, behind, last, chars, -, reads⟩ := read_description_iff accepted
  exact ⟨_, before, line, behind, accepted, last, chars, by decide,
    reads.mpr ⟨by decide, by decide, by decide⟩⟩

/-- The description of a property with that comment is not read as a literal. -/
def IsMisread (comment : String) : Prop :=
  ∃ f before line behind, Field.ofMember "Payment" (commentedMember comment) = .ok f ∧
    f.annotations = before ++ [line] ∧
    line.toList = "@ApiProperty(\x7bdescription: `".toList
      ++ (asDescribed comment ++ '`' :: behind) ∧
    read 0 (asDescribed comment ++ '`' :: behind) = none

theorem isMisread_of_read {comment : String}
    (h : read 0 (asDescribed comment ++ '`' :: ", example: true\x7d)".toList) = none) :
    IsMisread comment :=
  ⟨_, _, _, _, Field.ofMember_bool _ _ _ _, rfl,
    toList_propertyDecorator comment (some "true"), h⟩

/-- A backslash at the end of a comment escapes the backtick behind it, and a substitution in a
comment is one of the literal: neither is read as the comment. -/
theorem exists_read_description_ne :
    IsMisread "Drive C:\\" ∧ IsMisread "Costs $\x7bamount\x7d" :=
  ⟨isMisread_of_read (by decide), isMisread_of_read (by decide)⟩

end Attestation.Dto
