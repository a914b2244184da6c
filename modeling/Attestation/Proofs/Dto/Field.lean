import Attestation.Dto.Field
import Attestation.Proofs.Compiler.Loading
import Attestation.Proofs.MemberType.Grammar

/-!
# The property for a member

What a property of a DTO class is made of (`Dto.Field.ofMember_eq_ok_iff`): the documentation
of the member, and behind it decorators, of which the last describes the property.

## Design notes

A property ends with the decorator that the documentation of the API is made from.  The rest of
a class is found by its lines, so it matters that no line of a comment can be taken for a
decorator: `IsDecorator` says this by the first character alone, and comment lines start with a
slash or a star.
-/

namespace Attestation.Dto

open Text

theorem Field.ofMember_eq_ok_iff {attestationType : String} {m : Member} {f : Field} :
    Field.ofMember attestationType m = .ok f ↔
      ∃ t shown, MemberType.parse m.type = .ok t ∧
        memberExample? attestationType m.name t = .ok shown ∧
        f = {
          name := m.name
          type := t.dtoType attestationType
          annotations := docLines m.comment ++ validators attestationType false t
            ++ [propertyDecorator m.comment shown] } := by
  rw [Field.ofMember, bind_eq_ok_iff]
  simp only [bind_eq_ok_iff, inContext_eq_ok_iff, orFail_eq_ok_iff, exists_and_left]
  refine exists_congr fun t => and_congr_right fun _ => exists_congr fun shown =>
    and_congr_right fun _ => ?_
  exact ⟨fun h => (Except.ok.inj h).symm, fun h => congrArg Except.ok h.symm⟩

theorem Field.ofMember_bool (attestationType name simple comment : String) :
    Field.ofMember attestationType ⟨name, "bool", simple, comment⟩ = .ok {
      name := name
      type := "boolean"
      annotations := docLines comment ++ ["@IsBoolean()"]
        ++ [propertyDecorator comment (some "true")] } := by
  have read : MemberType.read "bool".toList = some .bool :=
    MemberType.read_of_no_suffix (by decide)
  exact ofMember_eq_ok_iff.mpr ⟨.bool, some "true",
    MemberType.parse_eq_ok_iff.mpr read, rfl, rfl⟩

/-- The line of a decorator: it starts with an at sign, which no line of a comment does. -/
def IsDecorator (line : String) : Prop := line.toList.head? = some '@'

instance (line : String) : Decidable (IsDecorator line) := inferInstanceAs (Decidable (_ = _))

theorem isDecorator_append {word : String} (h : IsDecorator word) (more : String) :
    IsDecorator (word ++ more) := by
  rw [IsDecorator, String.toList_append, List.head?_append,
    show word.toList.head? = some '@' from h]
  rfl

theorem isDecorator_applied (validator : String) (each : Bool) :
    IsDecorator (applied validator each) := by
  unfold applied
  split <;> simp [IsDecorator]

theorem isDecorator_validators {attestationType : String} {each : Bool} {type : MemberType}
    {line : String}
    (h : line ∈ validators attestationType each type) : IsDecorator line := by
  induction type generalizing each with
  | array element length ih => exact ih h
  | struct path =>
      simp only [validators, List.mem_append, List.mem_cons, List.not_mem_nil, or_false] at h
      rcases h with ((rfl | rfl | rfl) | h) | rfl
      · simp [IsDecorator]
      · simp [IsDecorator]
      · simp [IsDecorator]
      · split at h
        · cases h
        · rw [List.mem_singleton.mp h]
          rfl
      · simp [IsDecorator]
  | bytes size =>
      unfold validators at h
      split at h <;> simp_all [isDecorator_applied]
  | bool | string =>
      simp only [validators, List.mem_singleton] at h
      subst h
      simp [IsDecorator]
  | uint | int | byte | address =>
      simp only [validators, List.mem_singleton] at h
      exact h ▸ isDecorator_applied _ _

theorem isDecorator_propertyDecorator (comment : String) (shown : Option String) :
    IsDecorator (propertyDecorator comment shown) := by
  unfold propertyDecorator
  repeat apply isDecorator_append
  decide

end Attestation.Dto
