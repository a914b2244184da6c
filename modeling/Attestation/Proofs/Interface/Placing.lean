import Attestation.Interface.Extraction
import Attestation.Proofs.Except

/-!
# The places of structs

The structs of a contract are read one after the other, and each gets a place.  A struct with a
required name has its own place, wherever it is declared; the place of a further struct depends
on the bodies before it.

* `StructDefinition.reading`, `ContractDefinition.placed`: what is read of a struct, and the
  structs of a contract with their places.
* `Extraction.ofContract_eq_ok_iff`: when a contract is read, and what is found in it.
* `structsAt_required`: the structs at a required place are those of its name.

## Design notes

The reader goes through the structs with a state and with errors; `placed` is the same as two
maps and has neither, for documentations that name their parameters.  With it the order of the
structs shows in one place alone, the names before a further struct, and moving the required
ones about leaves it as it is.
-/

namespace Attestation

open Text

/-! ## Reading a struct -/

namespace StructDefinition

/-- The documented parameters with their comments, as far as they can be read. -/
def documented (s : StructDefinition) : List (String × String) :=
  ((Doc.params s.documentation).toOption).getD []

/-- The names of the documented parameters, in the order of the documentation. -/
def paramNames (s : StructDefinition) : List String := s.documented.map (·.1)

/-- The names of the members, in the order of their declaration. -/
def memberNames (s : StructDefinition) : List String := s.members.map (·.name)

/-- Every parameter documentation names a parameter.  A reading fails on the first one that
does not. -/
def Named (s : StructDefinition) : Prop := ∃ params, Doc.params s.documentation = .ok params

theorem named_iff {s : StructDefinition} : s.Named ↔
    (Doc.params s.documentation).toOption.isSome = true := by
  unfold Named
  cases Doc.params s.documentation <;> simp [Except.toOption]

instance (s : StructDefinition) : Decidable s.Named := decidable_of_iff _ named_iff.symm

theorem Named.eq {s : StructDefinition} (h : s.Named) :
    Doc.params s.documentation = .ok s.documented := by
  obtain ⟨params, hp⟩ := h
  rw [documented, hp]
  rfl

/-- The record of a struct. -/
def record (s : StructDefinition) : StructRecord where
  name := trimString s.name
  description := Doc.tag "notice" s.documentation
  above := Doc.tag "custom:above" s.documentation
  below := Doc.tag "custom:below" s.documentation
  fullComment := s.documentation
  params := s.members.map (memberRecord s.documented)

/-- What is read of a struct whose parameter documentations name parameters. -/
def reading (interface : String) (s : StructDefinition) : StructReading where
  record := s.record
  issues :=
    (if Doc.hasText s.documentation then [] else [.undocumentedStruct interface s.name])
    ++ paramIssues interface s [] s.paramNames
    ++ memberIssues interface s s.documented

@[simp]
theorem record_name (s : StructDefinition) : s.record.name = trimString s.name := rfl

@[simp]
theorem reading_record (interface : String) (s : StructDefinition) :
    (s.reading interface).record = s.record := rfl

theorem ofDefinition_eq_ok {interface : String} {s : StructDefinition} (h : s.Named) :
    StructReading.ofDefinition interface s = .ok (s.reading interface) := by
  rw [StructReading.ofDefinition, h.eq]
  rfl

theorem ofDefinition_eq_error {interface line : String} {s : StructDefinition}
    (h : Doc.params s.documentation = .error line) :
    StructReading.ofDefinition interface s
      = .error (.unparsableParam (interface ++ "." ++ s.name) line) := by
  rw [StructReading.ofDefinition, h]

end StructDefinition

namespace ContractDefinition

/-- What is read of the structs of a contract. -/
def readings (c : ContractDefinition) : List StructReading := c.structs.map (·.reading c.name)

/-- The names of the structs. -/
def structNames (c : ContractDefinition) : List String := c.structs.map (trimString ·.name)

theorem names_readings (c : ContractDefinition) :
    c.readings.map (·.record.name) = c.structNames := by
  simp only [readings, structNames, List.map_map, Function.comp_def,
    StructDefinition.reading_record,
    StructDefinition.record_name]

/-- The structs with their places. -/
def placed (c : ContractDefinition) : List (Slot × StructReading) := place none c.readings

end ContractDefinition

namespace Extraction

variable {c : ContractDefinition} {e : Extraction}

/-- What is found in a contract whose parameter documentations name parameters. -/
def ofPlaced (c : ContractDefinition) (placed : List (Slot × StructReading)) : Extraction where
  interface := c.name
  record := recordOf c placed
  issues :=
    (if Doc.hasText c.documentation then [] else [.undocumentedInterface c.name])
    ++ placed.flatMap (placedIssues c.name)
    ++ missing c.name placed

theorem ofContract_eq_ok (h : ∀ s ∈ c.structs, s.Named) :
    ofContract c = .ok (ofPlaced c c.placed) := by
  have read : c.structs.mapM (StructReading.ofDefinition c.name) = .ok c.readings :=
    mapM_eq_ok fun s hs => StructDefinition.ofDefinition_eq_ok (h s hs)
  rw [ofContract, read]
  rfl

theorem ofContract_eq_error {before after : List StructDefinition} {s : StructDefinition}
    {line : String}
    (hc : c.structs = before ++ s :: after) (good : ∀ t ∈ before, t.Named)
    (bad : Doc.params s.documentation = .error line) :
    ofContract c = .error (.unparsableParam (c.name ++ "." ++ s.name) line) := by
  have failed : c.structs.mapM (StructReading.ofDefinition c.name)
      = .error (.unparsableParam (c.name ++ "." ++ s.name) line) := by
    rw [hc]
    exact mapM_eq_error (fun t ht => ⟨_, StructDefinition.ofDefinition_eq_ok (good t ht)⟩)
      (StructDefinition.ofDefinition_eq_error bad)
  rw [ofContract, failed]
  rfl

theorem ofContract_eq_ok_iff : ofContract c = .ok e ↔
    (∀ s ∈ c.structs, s.Named) ∧ e = ofPlaced c c.placed := by
  constructor
  · intro h
    by_cases named : ∀ s ∈ c.structs, s.Named
    · rw [ofContract_eq_ok named] at h
      exact ⟨named, (Except.ok.inj h).symm⟩
    · have unreadable : ¬ ∀ s ∈ c.structs, ∃ params,
        Doc.params (StructDefinition.documentation s) = .ok params :=
        named
      obtain ⟨before, s, after, line, hc, good, bad⟩ := exists_first_error unreadable
      rw [ofContract_eq_error hc good bad] at h
      cases h
  · rintro ⟨named, rfl⟩
    exact ofContract_eq_ok named

end Extraction

/-! ## Placing the structs -/

@[simp] theorem map_place (side : Option Side) (rs : List StructReading) :
    (place side rs).map (·.2) = rs := by
  induction rs generalizing side with
  | nil => rfl
  | cons r rs ih => rw [place, List.map_cons, ih]

/-- The names of the required structs. -/
def requiredNames : List String := Slot.required.map (·.1)

/-- Different required structs have different places. -/
theorem slot_eq_iff : ∀ e ∈ Slot.required, ∀ e' ∈ Slot.required, e.2 = e'.2 ↔ e.1 = e'.1 := by
  decide

theorem ofName_of_mem {side : Option Side} {name : String} {slot : Slot}
    (h : (name, slot) ∈ Slot.required) : Slot.ofName side name = slot := by
  cases hf : Slot.required.find? (·.1 = name) with
  | none =>
      rw [List.find?_eq_none] at hf
      exact absurd (hf _ h) (by simp)
  | some entry =>
      have same : entry.1 = name := by simpa using List.find?_some hf
      rw [Slot.ofName, hf]
      exact (slot_eq_iff _ (List.mem_of_find?_eq_some hf) _ h).mpr same

theorem ofName_of_not_mem {side : Option Side} {name : String} (h : name ∉ requiredNames) :
    Slot.ofName side name = .further side := by
  have nowhere : Slot.required.find? (·.1 = name) = none := by
    rw [List.find?_eq_none]
    intro entry hentry
    simp only [decide_eq_true_eq]
    rintro rfl
    exact h (List.mem_map_of_mem hentry)
  rw [Slot.ofName, nowhere]

theorem slot_ne_further : ∀ e ∈ Slot.required, ∀ side, e.2 ≠ .further side := by
  simp [Slot.required]

/-- A required place is that of its name. -/
theorem ofName_eq_iff {side : Option Side} {name x : String} {slot : Slot}
    (h : (name, slot) ∈ Slot.required) : Slot.ofName side x = slot ↔ x = name := by
  constructor
  · intro hx
    by_cases listed : x ∈ requiredNames
    · obtain ⟨⟨x, other⟩, hentry, rfl⟩ := List.mem_map.mp listed
      rw [ofName_of_mem hentry] at hx
      exact (slot_eq_iff _ hentry _ h).mp hx
    · rw [ofName_of_not_mem listed] at hx
      exact absurd hx.symm (slot_ne_further _ h side)
  · rintro rfl
    exact ofName_of_mem h

/-- **The structs at a required place** are those of its name. -/
theorem structsAt_required {side : Option Side} {name : String} {slot : Slot}
    (h : (name, slot) ∈ Slot.required) (rs : List StructReading) :
    structsAt slot (place side rs) = (rs.filter (·.record.name = name)).map (·.record) := by
  induction rs generalizing side with
  | nil => rfl
  | cons r rs ih =>
      have tail := @ih ((Slot.ofName side r.record.name).sideAfter side)
      simp only [structsAt] at tail ⊢
      simp only [place, List.filter_cons, decide_eq_true_eq, ofName_eq_iff h]
      split
      · rw [List.map_cons, List.map_cons, tail]
      · exact tail

end Attestation
