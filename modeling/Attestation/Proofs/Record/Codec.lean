import Attestation.Proofs.Json.Decoder
import Attestation.Record.Load

/-!
# Records written and read

The text that is written for a record is read as that record (`TypeRecord.parse_render`).

* `Json.IsShape`: shapes of messages as they are kept with a record.

## Design notes

The shapes of messages are any values, so what is asked of them is what a reader can give back;
names and comments are any texts, and need nothing.
-/

namespace Attestation

open Json

/-- Shapes of messages as they are kept with a record: `null` would read as no shape, and
fields that repeat as other ones. -/
structure Json.IsShape (j : Json) : Prop where
  nonnull : j ≠ .null
  merged : IsMerged j
  /-- A record is one more container around its shapes. -/
  fits : Fits (maxDepth - 1) j

theorem mem_fieldIfAny {name other : String} {v : Option Json} {j : Json} :
    (name, j) ∈ fieldIfAny other v ↔ name = other ∧ v = some j := by
  cases v with
  | none => simp [fieldIfAny]
  | some k => simp [fieldIfAny, eq_comm]

theorem names_fieldIfAny (name : String) (v : Option Json) :
    ((fieldIfAny name v).map (·.1)).Sublist [name] := by
  cases v with
  | none => exact List.nil_sublist _
  | some j => exact List.Sublist.refl _

/-! ## Members and structs -/

theorem Member.ofJson?_toJson (m : Member) : Member.ofJson? m.toJson = some m := by
  simp [Member.ofJson?, Member.toJson, textField, record, Record.required,
    Record.only?, Json.text]

/-- The fields of the value for a struct. -/
def StructRecord.fields (s : StructRecord) : List (String × Json) :=
  [textField "name" s.name, textField "description" s.description,
      textField "above" s.above, textField "below" s.below]
    ++ fieldIfAny "fullComment" (s.fullComment.map .string)
    ++ [("params", .array (s.params.map Member.toJson))]

theorem StructRecord.nodup_fields (s : StructRecord) : (s.fields.map (·.1)).Nodup := by
  have names : (s.fields.map (·.1)).Sublist ["name", "description", "above", "below",
    "fullComment", "params"] := by
    rw [StructRecord.fields, List.map_append, List.map_append]
    exact ((List.Sublist.refl _).append (names_fieldIfAny _ _)).append (List.Sublist.refl _)
  exact names.nodup (by decide)

theorem StructRecord.ofJson?_toJson (s : StructRecord) :
    StructRecord.ofJson? s.toJson = some s := by
  have nodup := s.nodup_fields
  have text : ∀ name value, textField name value ∈ s.fields →
      (Record.mk s.fields false).required name Json.text = some value := fun _ _ hmem =>
    Record.required_of_mem (r := ⟨s.fields, false⟩) nodup hmem
  have comment : (Record.mk s.fields false).omittable "fullComment" Json.text
      = some s.fullComment := by
    refine Record.omittable_of_mem_iff nodup .string (fun j => ?_) fun a _ => ⟨nofun, rfl⟩
    simp [StructRecord.fields, textField, mem_fieldIfAny, eq_comm]
  have params : (Record.mk s.fields false).required "params" (list Member.ofJson?)
      = some s.params :=
    (Record.required_of_mem (r := ⟨s.fields, false⟩) nodup
      (by simp [StructRecord.fields])).trans
      (list_map Member.ofJson?_toJson s.params)
  show StructRecord.ofJson? (.object s.fields) = some s
  simp only [StructRecord.ofJson?, record, Option.bind_eq_bind, Option.bind_some,
    comment, params,
    text "name" s.name (by simp [StructRecord.fields]),
    text "description" s.description (by simp [StructRecord.fields]),
    text "above" s.above (by simp [StructRecord.fields]),
    text "below" s.below (by simp [StructRecord.fields])]
  rfl

theorem fits_fieldIfAny {depth : Nat} {name : String} {v : Option Json} (h : ∀ j, v = some j →
    Fits depth j) :
    ∀ field ∈ fieldIfAny name v, Fits depth field.2 := by
  rintro ⟨other, j⟩ hmem
  exact h j (mem_fieldIfAny.mp hmem).2

theorem fits_textIfAny {depth : Nat} {v : Option String} : ∀ j, v.map Json.string = some j →
    Fits depth j := by
  intro j hj
  obtain ⟨s, -, rfl⟩ := Option.map_eq_some_iff.mp hj
  exact .string s

theorem Member.fits_toJson (m : Member) : Fits 1 m.toJson :=
  .object (by simp [textField])

theorem StructRecord.fits_toJson (s : StructRecord) : Fits 3 s.toJson := by
  have params : Fits 2 (.array (s.params.map Member.toJson)) :=
    .array (List.forall_mem_map.mpr fun m _ => m.fits_toJson)
  refine .object (List.forall_mem_append.mpr ⟨List.forall_mem_append.mpr ⟨?_,
    fits_fieldIfAny fits_textIfAny⟩, ?_⟩)
  · simp [textField]
  · simpa using params

/-! ## Records -/

namespace TypeRecord

/-- The fields of the value for a record. -/
def fields (r : TypeRecord) : List (String × Json) :=
  [textField "name" r.name]
    ++ fieldIfAny "fullComment" (r.fullComment.map .string)
    ++ [textField "description" r.description, textField "verification" r.verification,
      textField "lut" r.lut, ("proof", r.proof.toJson), ("request", r.request.toJson),
      ("response", r.response.toJson), ("requestBody", r.requestBody.toJson),
      ("responseBody", r.responseBody.toJson),
      ("requestStructs", .array (r.requestStructs.map StructRecord.toJson)),
      ("responseStructs", .array (r.responseStructs.map StructRecord.toJson))]
    ++ fieldIfAny "requestAbi" r.requestAbi
    ++ fieldIfAny "responseAbi" r.responseAbi
    ++ fieldIfAny "proofAbi" r.proofAbi

theorem nodup_fields (r : TypeRecord) : (r.fields.map (·.1)).Nodup := by
  have names : (r.fields.map (·.1)).Sublist fieldNames := by
    rw [fields, List.map_append, List.map_append, List.map_append, List.map_append,
      List.map_append]
    exact (((((List.Sublist.refl ["name"]).append (names_fieldIfAny _ _)).append
      (List.Sublist.refl _)).append
      (names_fieldIfAny _ _)).append (names_fieldIfAny _ _)).append (names_fieldIfAny _ _)
  exact names.nodup (by decide)

/-- Records whose shapes can be kept. -/
def HasShapes (r : TypeRecord) : Prop :=
  ∀ j, r.requestAbi = some j ∨ r.responseAbi = some j ∨ r.proofAbi = some j → IsShape j

theorem ofJson?_toJson {r : TypeRecord} (shapes : r.HasShapes) :
    ofJson? r.toJson = some r := by
  have nodup := r.nodup_fields
  -- Every kind of field is read back by one fact, and the fields have different names.
  have required : ∀ {α : Type} {value : Decoder α} {name j a}, (name, j) ∈ r.fields →
    value j = some a →
      (Record.mk r.fields false).required name value = some a := fun hmem decoded =>
    (Record.required_of_mem (r := ⟨r.fields, false⟩) nodup hmem).trans decoded
  have text : ∀ name value, textField name value ∈ r.fields →
      (Record.mk r.fields false).required name Json.text = some value :=
      fun _ _ hmem => required hmem rfl
  have struct : ∀ name s, (name, StructRecord.toJson s) ∈ r.fields →
      (Record.mk r.fields false).required name StructRecord.ofJson? = some s := fun _ s hmem =>
    required hmem s.ofJson?_toJson
  have structs : ∀ name ss, (name, .array (ss.map StructRecord.toJson)) ∈ r.fields →
      (Record.mk r.fields false).required name (list StructRecord.ofJson?) = some ss :=
      fun _ ss hmem =>
    required hmem (list_map StructRecord.ofJson?_toJson ss)
  have comment : (Record.mk r.fields false).omittable "fullComment" Json.text
      = some r.fullComment := by
    refine Record.omittable_of_mem_iff nodup .string (fun j => ?_) fun a _ => ⟨nofun, rfl⟩
    simp [fields, textField, mem_fieldIfAny, eq_comm]
  have shape : ∀ name v, (∀ j, (name, j) ∈ r.fields ↔ v = some j) →
    (∀ j, v = some j → IsShape j) →
      (Record.mk r.fields false).omittable name any = some v := by
    intro name v there shapes
    refine Record.omittable_of_mem_iff nodup id (fun j => ?_) fun j hj => ?_
    · simp [there, Option.mem_def]
    · exact ⟨(shapes j hj).nonnull, congrArg some (merged_of_isMerged (shapes j hj).merged)⟩
  show ofJson? (.object r.fields) = some r
  rw [ofJson?, record, Option.bind_eq_bind, Option.bind_some,
    text "name" r.name (by simp [fields]), comment,
    text "description" r.description (by simp [fields]),
    text "verification" r.verification (by simp [fields]),
    text "lut" r.lut (by simp [fields]),
    struct "proof" r.proof (by simp [fields]),
    struct "request" r.request (by simp [fields]),
    struct "response" r.response (by simp [fields]),
    struct "requestBody" r.requestBody (by simp [fields]),
    struct "responseBody" r.responseBody (by simp [fields]),
    structs "requestStructs" r.requestStructs (by simp [fields]),
    structs "responseStructs" r.responseStructs (by simp [fields]),
    shape "requestAbi" r.requestAbi (by simp [fields, textField, mem_fieldIfAny])
      fun j hj => shapes j (.inl hj),
    shape "responseAbi" r.responseAbi (by simp [fields, textField, mem_fieldIfAny])
      fun j hj => shapes j (.inr (.inl hj)),
    shape "proofAbi" r.proofAbi (by simp [fields, textField, mem_fieldIfAny])
      fun j hj => shapes j (.inr (.inr hj))]
  rfl

theorem fits_toJson {r : TypeRecord} (shapes : r.HasShapes) : Fits maxDepth r.toJson := by
  have struct : ∀ s : StructRecord, Fits (maxDepth - 1) s.toJson :=
    fun s => s.fits_toJson.mono (by decide)
  have structs : ∀ ss : List StructRecord,
    Fits (maxDepth - 1) (.array (ss.map StructRecord.toJson)) := fun ss =>
    Fits.mono (.array (List.forall_mem_map.mpr fun s _ => s.fits_toJson)) (by decide)
  have all : ∀ field ∈ r.fields, Fits (maxDepth - 1) field.2 := by
    refine List.forall_mem_append.mpr ⟨List.forall_mem_append.mpr ⟨List.forall_mem_append.mpr
      ⟨List.forall_mem_append.mpr ⟨List.forall_mem_append.mpr ⟨?_,
        fits_fieldIfAny fits_textIfAny⟩, ?_⟩,
        fits_fieldIfAny fun j hj => (shapes j (.inl hj)).fits⟩,
      fits_fieldIfAny fun j hj => (shapes j (.inr (.inl hj))).fits⟩,
      fits_fieldIfAny fun j hj => (shapes j (.inr (.inr hj))).fits⟩
    · simp [textField]
    · simp [textField, struct, structs]
  exact .object all

/-- **A record is read from the text that is written for it.** -/
theorem parse_render {r : TypeRecord} (shapes : r.HasShapes) : parse r.render = some r := by
  rw [parse, render, parse_pretty (fits_toJson shapes)]
  exact ofJson?_toJson shapes

end TypeRecord

end Attestation
