import Attestation.Proofs.Dto.SameSchema
import Attestation.Proofs.Interface.Classification

/-!
# When classes come out in dependency order

The DTO classes of an attestation type stand in a fixed order: the further structs of the
request and then those of the response, each side last declared first, then the bodies, the
request, the response and the proof.  A class may refer to the classes of other structs.  The
order respects these references exactly when every emitted struct refers only to structs that
come before it in that fixed order (`SourceUnit.inDependencyOrder_iff`); it is not a sort by
references.

## Main definitions

* `Dto.Class.Refers`, `StructDefinition.Refers`: the references of a class, and of the struct
  it is made of.
* `Dto.InDependencyOrder`: every class stands behind the classes it refers to.
* `ContractDefinition.Emits`, `ContractDefinition.EmittedBefore`: which declared structs have
  classes, and in which order these stand.

## Design notes

References are read off the properties of a class, as a script engine would meet them, and off
the member types of a declaration, as an author of an interface writes them.  The criterion is
stated with the declarations, positions included: of two structs with one required name only
the later one has a class.
-/

namespace Attestation

open Text SourceUnit

/-! ## References -/

/-- A member type is made of the struct with the given simple name, directly or through
arrays. -/
def MemberType.MadeOf (type name : String) : Prop :=
  ∃ t, MemberType.parse type = .ok t ∧ t.innermost.structName = some name

/-- A member of the struct is made of the struct with the given name. -/
def StructDefinition.Refers (s : StructDefinition) (name : String) : Prop :=
  ∃ v ∈ s.members, MemberType.MadeOf v.type name

/-- A member of the recorded struct is made of the struct with the given name. -/
def StructRecord.Refers (s : StructRecord) (name : String) : Prop :=
  ∃ m ∈ s.params, MemberType.MadeOf m.type name

theorem StructDefinition.refers_record {s : StructDefinition} {name : String} :
    s.record.Refers name ↔ s.Refers name := by
  simp only [StructRecord.Refers, StructDefinition.Refers,
    StructDefinition.record, List.mem_map]
  constructor
  · rintro ⟨_, ⟨v, hv, rfl⟩, made⟩
    exact ⟨v, hv, made⟩
  · rintro ⟨v, hv, made⟩
    exact ⟨_, ⟨v, hv, rfl⟩, made⟩

namespace Dto

/-- A type, read from its end, without the brackets there. -/
def withoutBrackets : List Char → List Char
  | ']' :: '[' :: r => withoutBrackets r
  | r => r

/-- The type of the innermost items of a list. -/
def itemType (type : String) : String :=
  String.ofList (withoutBrackets type.toList.reverse).reverse

/-- The types of properties that are no classes. -/
def basicTypes : List String := ["string", "boolean"]

/-- A property of the class holds an object of the class with the given name, or a list of
them. -/
def Class.Refers (c : Class) (name : String) : Prop :=
  ∃ f ∈ c.fields, itemType f.type = name ∧ name ∉ basicTypes

/-- **Dependency order**: every class stands behind all classes that it refers to.  Names that
are no class of the record make it fail as well. -/
def InDependencyOrder (cs : List Class) : Prop :=
  ∀ before c after, cs = before ++ c :: after → ∀ name, c.Refers name →
  ∃ c' ∈ before, c'.name = name

theorem itemType_list (type : String) : itemType (type ++ "[]") = itemType type := by
  have brackets : (type ++ "[]").toList.reverse = ']' :: '[' :: type.toList.reverse := by
    rw [String.toList_append, List.reverse_append]
    rfl
  rw [itemType, brackets, withoutBrackets, itemType]

theorem itemType_eq_self {type : String} (h : ∀ cs, type.toList ≠ cs ++ [']']) :
    itemType type = type := by
  have same : withoutBrackets type.toList.reverse = type.toList.reverse := by
    unfold withoutBrackets
    split
    · next r hr =>
        have := congrArg List.reverse hr
        rw [List.reverse_reverse, List.reverse_cons] at this
        exact absurd this (h _)
    · rfl
  rw [itemType, same, List.reverse_reverse, String.ofList_toList]

section Types

variable {attestationType : String} {t : MemberType}

/-- The items of a type that is made of a struct are objects of the class of that struct. -/
theorem itemType_of_struct (names : t.NamesStruct) {x : String}
    (hx : t.innermost.structName = some x) :
    itemType (t.dtoType attestationType) = attestationType ++ "_" ++ x := by
  have closed : isWord ']' = false := by decide
  induction t with
  | array element length ih => rw [MemberType.dtoType, itemType_list, ih names hx]
  | struct path =>
      cases hx
      refine itemType_eq_self fun cs hcs => ?_
      have last : (attestationType ++ "_" ++ lastPiece '.' path).toList.getLast?
          = some ']' := by
        rw [MemberType.dtoType] at hcs
        rw [hcs, List.getLast?_concat]
      rw [String.toList_append, List.getLast?_append] at last
      cases hlast : (lastPiece '.' path).toList.getLast? with
      | none =>
          rw [hlast, String.toList_append] at last
          simp at last
      | some c =>
          rw [hlast] at last
          obtain rfl : c = ']' := by simpa using last
          simpa [closed] using names _ rfl _ (List.mem_of_getLast? hlast)
  | _ => cases hx

theorem itemType_of_other (h : t.innermost.structName = none) :
    itemType (t.dtoType attestationType) ∈ basicTypes := by
  have word : itemType "string" ∈ basicTypes := by decide
  have truth : itemType "boolean" ∈ basicTypes := by decide
  induction t with
  | array element length ih =>
      rw [MemberType.dtoType, itemType_list]
      exact ih h
  | struct path => cases h
  | bool => exact truth
  | _ => exact word

end Types

/-- A name with an underscore is that of a class. -/
theorem not_mem_basicTypes (a x : String) : a ++ "_" ++ x ∉ basicTypes := by
  have bare : ∀ name ∈ basicTypes, '_' ∉ name.toList := by decide
  intro h
  refine bare _ h ?_
  rw [String.toList_append, String.toList_append]
  exact List.mem_append_left _ (List.mem_append_right _ (List.mem_singleton.mpr rfl))

section Classes

variable {attestationType : String}

/-- The class of a struct refers to the classes of the structs that the struct refers to. -/
theorem Class.refers_iff {s : StructRecord} {c : Class}
    (made : Class.ofStruct attestationType s = .ok c)
    {name : String} : c.Refers name ↔
    ∃ x, s.Refers x ∧ name = attestationType ++ "_" ++ x := by
  obtain ⟨-, fields⟩ := Class.ofStruct_eq_ok_iff.mp made
  constructor
  · rintro ⟨f, hf, rfl, object⟩
    obtain ⟨m, hm, read⟩ := exists_of_mem_mapM (mapM_eq_ok_iff.mpr fields) f hf
    obtain ⟨t, ht, -, type⟩ := Field.exists_of_ofMember read
    rw [type] at object ⊢
    cases hx : t.innermost.structName with
    | none => exact absurd (itemType_of_other hx) object
    | some x =>
        exact ⟨x, ⟨m, hm, t, ht, hx⟩,
          itemType_of_struct (MemberType.namesStruct_of_parse ht) hx⟩
  · rintro ⟨x, ⟨m, hm, t, ht, hx⟩, rfl⟩
    obtain ⟨f, hf, read⟩ := exists_right_of_forall₂ fields m hm
    obtain ⟨t', ht', -, type⟩ := Field.exists_of_ofMember read
    rw [ht] at ht'
    cases ht'
    refine ⟨f, hf, ?_, not_mem_basicTypes _ _⟩
    rw [type]
    exact itemType_of_struct (MemberType.namesStruct_of_parse ht) hx

/-- The structs of some classes refer only to structs before them. -/
def RefersBack (ss : List StructRecord) : Prop :=
  ∀ before s after, ss = before ++ s :: after → ∀ x, s.Refers x → ∃ s' ∈ before, s'.name = x

/-- Classes are in dependency order if the structs that they are made of refer back. -/
theorem inDependencyOrder_iff_refersBack {ss : List StructRecord} {cs : List Class}
    (made : ss.mapM (Class.ofStruct attestationType) = .ok cs) : InDependencyOrder cs ↔
    RefersBack ss := by
  obtain ⟨classOf, rfl, of⟩ := exists_map_of_mapM made
  clear made
  have name : ∀ s ∈ ss, (classOf s).name = attestationType ++ "_" ++ s.name := fun s hs =>
    (Class.ofStruct_eq_ok_iff.mp (of s hs)).1
  constructor
  · rintro ordered before s after rfl x hx
    obtain ⟨c', hc', same⟩ :=
      ordered (before.map classOf) (classOf s) (after.map classOf) (by simp)
      (attestationType ++ "_" ++ x) ((Class.refers_iff (of s (by simp))).mpr ⟨x, hx, rfl⟩)
    obtain ⟨s', hs', rfl⟩ := List.mem_map.mp hc'
    rw [name s' (by simp [hs'])] at same
    exact ⟨s', hs', String.append_right_inj _ |>.mp same⟩
  · intro back before c after split name' hname'
    obtain ⟨before, rest, rfl, rfl, tail⟩ := List.map_eq_append_iff.mp split
    obtain ⟨s, after, rfl, rfl, rfl⟩ := List.map_eq_cons_iff.mp tail
    obtain ⟨x, hx, rfl⟩ := (Class.refers_iff (of s (by simp))).mp hname'
    obtain ⟨s', hs', rfl⟩ := back before s after rfl x hx
    exact ⟨classOf s', List.mem_map_of_mem hs', name s' (by simp [hs'])⟩

end Classes

end Dto

/-! ## The order of emission -/

/-- The places of the structs that have classes, in the order in which the classes stand:
further structs before the bodies that use them, and these before requests and responses. -/
def Slot.emitted : List Slot :=
  [.further (some .request), .further (some .response), .responseBody, .requestBody, .request,
    .response, .proof]

theorem Slot.idxOf_emitted : Slot.emitted.Pairwise fun a b =>
    Slot.emitted.idxOf a < Slot.emitted.idxOf b := by
  decide

/-- The place of a further struct, where structs are collected. -/
def Slot.Collects (slot : Slot) : Prop := ∃ side, slot = .further side

namespace ContractDefinition

variable (c : ContractDefinition)

/-- The place of a struct that is declared at a position. -/
def slotOf (p : StructDefinition × Nat) : Slot :=
  Slot.ofName (lastBody (c.structNames.take p.2)) (trimString p.1.name)

/-- A struct of the contract, with its position, for which there is a class: it has a place
among the classes, and no later struct replaces it there. -/
structure Emits (p : StructDefinition × Nat) : Prop where
  declared : p ∈ c.structs.zipIdx
  placed : c.slotOf p ∈ Slot.emitted
  kept : ¬ (c.slotOf p).Collects → ∀ q ∈ c.structs.zipIdx, c.slotOf q = c.slotOf p → q.2 ≤ p.2

instance (slot : Slot) : Decidable slot.Collects :=
  match slot with
  | .further side => isTrue ⟨side, rfl⟩
  | .request | .response | .proof | .requestBody | .responseBody => isFalse nofun

instance (p : StructDefinition × Nat) : Decidable (c.Emits p) :=
  decidable_of_iff (p ∈ c.structs.zipIdx ∧ c.slotOf p ∈ Slot.emitted ∧
      (¬ (c.slotOf p).Collects → ∀ q ∈ c.structs.zipIdx, c.slotOf q = c.slotOf p → q.2 ≤ p.2))
    ⟨fun ⟨declared, placed, kept⟩ => ⟨declared, placed, kept⟩,
      fun ⟨declared, placed, kept⟩ => ⟨declared, placed, kept⟩⟩

/-- The class of one struct stands before that of another: its place comes first, or both are
further structs of one side and it is declared later. -/
def EmittedBefore (q p : StructDefinition × Nat) : Prop :=
  Slot.emitted.idxOf (c.slotOf q) < Slot.emitted.idxOf (c.slotOf p) ∨
  c.slotOf q = c.slotOf p ∧ p.2 < q.2

instance (q p : StructDefinition × Nat) : Decidable (c.EmittedBefore q p) :=
  inferInstanceAs (Decidable (_ ∨ _))

theorem EmittedBefore.asymm {q p : StructDefinition × Nat} (h : c.EmittedBefore q p) :
    ¬ c.EmittedBefore p q := by
  rintro (h' | ⟨same', h'⟩) <;> rcases h with h | ⟨same, h⟩
  · omega
  · rw [same] at h'
    omega
  · rw [same'] at h
    omega
  · omega

/-- The structs at a place with their positions, in the order of their declaration. -/
def declaredAt (slot : Slot) : List (StructDefinition × Nat) :=
  c.structs.zipIdx.filter (c.slotOf · = slot)

/-- The structs at a place for which there are classes, in the order of these. -/
def emittedAt (slot : Slot) : List (StructDefinition × Nat) :=
  match slot with
  | .further _ => (c.declaredAt slot).reverse
  | _ => (c.declaredAt slot).getLast?.toList

/-- The structs for which there are classes, in the order of these. -/
def emission : List (StructDefinition × Nat) := Slot.emitted.flatMap c.emittedAt

variable {c}

theorem structsAt_placed (slot : Slot) :
    structsAt slot c.placed = (c.declaredAt slot).map (·.1.record) := by
  have start : lastBody [] = none := rfl
  rw [placed, ← start, place_eq, List.nil_append, names_readings, readings, List.length_nil,
    List.zipIdx_map,
    structsAt, List.filter_map, List.map_map, List.filter_map, List.map_map, declaredAt]
  refine congrArg₂ List.map rfl (List.filter_congr fun p _ => ?_)
  rw [Bool.eq_iff_iff, Function.comp_apply, Function.comp_apply, decide_eq_true_iff,
    decide_eq_true_iff]
  simp only [Prod.map_fst, Prod.map_snd, id_eq, slotOf, StructDefinition.reading_record,
    StructDefinition.record_name]

theorem pairwise_declaredAt (slot : Slot) :
    (c.declaredAt slot).Pairwise (fun p q => p.2 < q.2) := by
  refine List.Pairwise.filter _ ?_
  rw [← List.pairwise_map (f := Prod.snd) (R := (· < ·)), List.zipIdx_map_snd]
  exact List.pairwise_lt_range' _

theorem mem_declaredAt {slot : Slot} {p : StructDefinition × Nat} :
    p ∈ c.declaredAt slot ↔ p ∈ c.structs.zipIdx ∧ c.slotOf p = slot := by
  rw [declaredAt, List.mem_filter, decide_eq_true_eq]

/-- The last of some positions in ascending order. -/
theorem getLast?_eq_some_iff {ps : List (StructDefinition × Nat)}
    (ascending : ps.Pairwise fun p q => p.2 < q.2)
    {p : StructDefinition × Nat} : ps.getLast? = some p ↔ p ∈ ps ∧ ∀ q ∈ ps, q.2 ≤ p.2 := by
  rcases List.eq_nil_or_concat ps with rfl | ⟨front, last, rfl⟩
  · simp
  · rw [List.concat_eq_append] at ascending ⊢
    have before : ∀ q ∈ front, q.2 < last.2 := fun q hq =>
      (List.pairwise_append.mp ascending).2.2 q hq last List.mem_cons_self
    rw [List.getLast?_concat, Option.some.injEq]
    constructor
    · rintro rfl
      refine ⟨by simp, fun q hq => ?_⟩
      rcases List.mem_append.mp hq with hq | hq
      · exact (before q hq).le
      · rw [List.mem_singleton.mp hq]
    · rintro ⟨hp, max⟩
      rcases List.mem_append.mp hp with hp | hp
      · have below := max last (by simp)
        have above := before p hp
        omega
      · exact (List.mem_singleton.mp hp).symm

theorem mem_emittedAt {slot : Slot} {p : StructDefinition × Nat} :
    p ∈ c.emittedAt slot ↔ p ∈ c.structs.zipIdx ∧ c.slotOf p = slot ∧
      (¬ slot.Collects → ∀ q ∈ c.structs.zipIdx, c.slotOf q = slot → q.2 ≤ p.2) := by
  unfold emittedAt
  split
  · next side =>
      have collects : (Slot.further side).Collects := ⟨side, rfl⟩
      rw [List.mem_reverse, mem_declaredAt]
      simp [collects]
  · next single =>
      have required : ¬ slot.Collects := fun ⟨side, h⟩ => single side h
      rw [Option.mem_toList, getLast?_eq_some_iff (c.pairwise_declaredAt slot),
        mem_declaredAt, and_assoc]
      simp [required, mem_declaredAt]

theorem mem_emission {p : StructDefinition × Nat} : p ∈ c.emission ↔ c.Emits p := by
  simp only [emission, List.mem_flatMap, mem_emittedAt]
  constructor
  · rintro ⟨_, placed, declared, rfl, kept⟩
    exact ⟨declared, placed, kept⟩
  · rintro ⟨declared, placed, kept⟩
    exact ⟨_, placed, declared, rfl, kept⟩

/-- The structs are emitted in their order. -/
theorem pairwise_emission : c.emission.Pairwise c.EmittedBefore := by
  refine List.pairwise_flatMap.mpr ⟨fun slot _ => ?_,
    Slot.idxOf_emitted.imp fun before q hq p hp => .inl ?_⟩
  · unfold emittedAt
    split
    · next side =>
        rw [List.pairwise_reverse]
        refine (c.pairwise_declaredAt _).imp_of_mem fun hp hq later => .inr ⟨?_, later⟩
        rw [(mem_declaredAt.mp hp).2, (mem_declaredAt.mp hq).2]
    · cases (c.declaredAt slot).getLast? with
      | none => exact .nil
      | some p => exact List.pairwise_singleton _ _
  · rw [(mem_emittedAt.mp hq).2.1, (mem_emittedAt.mp hp).2.1]
    exact before

/-- **The structs of a record**, as the classes are made of them, are the emitted structs in
their order. -/
theorem structsInOrder_eq {r : TypeRecord} (record : Extraction.recordOf c c.placed = some r) :
    Dto.structsInOrder r = c.emission.map (·.1.record) := by
  obtain ⟨request, response, proof, requestBody, responseBody, furtherQ, furtherR⟩ :=
    Extraction.eq_of_recordOf record
  have last : ∀ {slot found}, ¬ slot.Collects → structAt slot c.placed = some found →
      (c.emittedAt slot).map (·.1.record) = [found] := by
    intro slot found required h
    rw [structAt, structsAt_placed, List.getLast?_map] at h
    obtain ⟨p, hp, rfl⟩ := Option.map_eq_some_iff.mp h
    unfold emittedAt
    split
    · next side => exact absurd ⟨side, rfl⟩ required
    · rw [hp]
      rfl
  have further : ∀ side, (c.emittedAt (.further side)).map (·.1.record)
      = (structsAt (.further side) c.placed).reverse := by
    intro side
    rw [structsAt_placed, emittedAt, List.map_reverse]
  rw [emission, List.map_flatMap]
  simp only [Slot.emitted, List.flatMap_cons, List.flatMap_nil, further]
  rw [last (by nofun) request, last (by nofun) response, last (by nofun) proof,
    last (by nofun) requestBody,
    last (by nofun) responseBody, ← furtherQ, ← furtherR]
  simp [Dto.structsInOrder]

/-- The structs of the record refer back if each of them refers only to structs emitted before
it. -/
theorem refersBack_emission_iff : Dto.RefersBack (c.emission.map (·.1.record)) ↔
    ∀ p, c.Emits p → ∀ x, p.1.Refers x → ∃ q, c.Emits q ∧ trimString q.1.name = x ∧
      c.EmittedBefore q p := by
  constructor
  · intro back p hp x hx
    obtain ⟨before, after, split⟩ := List.append_of_mem (mem_emission.mpr hp)
    obtain ⟨s, hs, rfl⟩ := back (before.map (·.1.record)) p.1.record (after.map (·.1.record))
      (by simp [split]) x
      (StructDefinition.refers_record.mpr hx)
    obtain ⟨q, hq, rfl⟩ := List.mem_map.mp hs
    have order := c.pairwise_emission
    rw [split, List.pairwise_append] at order
    exact ⟨q, mem_emission.mp (by simp [split, hq]), rfl, order.2.2 q hq p List.mem_cons_self⟩
  · intro earlier before s after split x hx
    obtain ⟨before, rest, emission, rfl, tail⟩ := List.map_eq_append_iff.mp split
    obtain ⟨p, after, rfl, rfl, rfl⟩ := List.map_eq_cons_iff.mp tail
    obtain ⟨q, hq, rfl, first⟩ := earlier p (mem_emission.mp (by simp [emission])) x
      (StructDefinition.refers_record.mp hx)
    refine ⟨q.1.record, List.mem_map_of_mem ?_, rfl⟩
    have order := c.pairwise_emission
    have emitted := mem_emission.mpr hq
    rw [emission] at order emitted
    -- A struct behind `p`, or `p` itself, does not come before `p`.
    rcases List.mem_append.mp emitted with hq | hq
    · exact hq
    · rcases List.mem_cons.mp hq with rfl | hq
      · exact absurd first first.asymm
      · exact absurd first ((List.pairwise_cons.mp (List.pairwise_append.mp order).2.1).1 q
          hq).asymm

end ContractDefinition

/-- Every struct-typed member refers to a struct of the contract. -/
def ContractDefinition.SelfContained (c : ContractDefinition) : Prop :=
  ∀ s ∈ c.structs, ∀ x, s.Refers x → x ∈ c.structNames

/-- No struct refers to itself, not even through others. -/
def ContractDefinition.Acyclic (c : ContractDefinition) : Prop :=
  ∃ rank : String → Nat, ∀ s ∈ c.structs, ∀ x, s.Refers x → rank x < rank (trimString s.name)

/-- An accepted contract has a record. -/
theorem SourceUnit.recordOf_of_checkedRecord {u : SourceUnit} {c : ContractDefinition}
    {r : TypeRecord}
    (only : u.contracts = [c]) (accepted : u.checkedRecord = .ok r) :
    Extraction.recordOf c c.placed = some r := by
  obtain ⟨e, read, checked⟩ := bind_eq_ok_iff.mp accepted
  rw [Extraction.ofUnit, only] at read
  obtain ⟨-, rfl⟩ := Extraction.ofContract_eq_ok_iff.mp read
  unfold Extraction.checked at checked
  split at checked
  · next record found =>
      split at checked
      · cases checked
        exact found
      · cases checked
  · cases checked

/-- **When the classes are in dependency order.**  The classes of an accepted interface are in
dependency order exactly when every struct that has a class refers only to structs whose
classes are emitted before it.  Further structs of one side are emitted from the last one
declared to the first. -/
theorem SourceUnit.inDependencyOrder_iff {u : SourceUnit} {c : ContractDefinition}
    {r : TypeRecord}
    {attestationType : String} {cs : List Dto.Class} (only : u.contracts = [c])
    (accepted : u.checkedRecord = .ok r)
    (made : Dto.classes attestationType r = .ok cs) :
    Dto.InDependencyOrder cs ↔
      ∀ p, c.Emits p → ∀ x, p.1.Refers x → ∃ q, c.Emits q ∧ trimString q.1.name = x ∧
        c.EmittedBefore q p := by
  have record := u.recordOf_of_checkedRecord only accepted
  rw [Dto.inDependencyOrder_iff_refersBack made, ContractDefinition.structsInOrder_eq record]
  exact ContractDefinition.refersBack_emission_iff

/-! ### Declared inside out, and outside in -/

/-- A struct with one member, which is of the given type. -/
def holder (name type : String) : StructDefinition :=
  ⟨name, some "@param held what is held", [⟨"held", some type⟩]⟩

/-- Structs of which the body of the request holds `Outer`, and `Outer` holds `Inner`, with the
further structs in the given order. -/
def holderStructs (further : List StructDefinition) : List StructDefinition :=
  [sampleStruct "Request" "" [], sampleStruct "Response" "" [], sampleStruct "Proof" "" [],
    sampleStruct "ResponseBody" "" [], holder "RequestBody" "struct IPayment.Outer[]"]
      ++ further

/-- `Inner` is declared before `Outer`, which holds it. -/
def insideOut : List StructDefinition :=
  holderStructs [sampleStruct "Inner" "" [], holder "Outer" "struct IPayment.Inner"]

/-- `Inner` is declared behind `Outer`. -/
def outsideIn : List StructDefinition :=
  holderStructs [holder "Outer" "struct IPayment.Inner", sampleStruct "Inner" "" []]

theorem MemberType.madeOf_iff {type name : String} {t : MemberType}
    (h : MemberType.read type.toList = some t) :
    MemberType.MadeOf type name ↔ t.innermost.structName = some name := by
  constructor
  · rintro ⟨t', ht', made⟩
    rw [MemberType.parse_eq_ok_iff.mp ht', Option.some.injEq] at h
    exact h ▸ made
  · exact fun made => ⟨t, MemberType.parse_eq_ok_iff.mpr h, made⟩

theorem read_outer : MemberType.read "struct IPayment.Outer[]".toList
    = some (.array (.struct "IPayment.Outer") none) := by
  have item : MemberType.read "struct IPayment.Outer".toList
      = some (.struct "IPayment.Outer") :=
    MemberType.read_of_no_suffix (by decide)
  rw [MemberType.read_of_suffix (show MemberType.arraySuffix?
    (trim "struct IPayment.Outer[]".toList)
    = some ("struct IPayment.Outer".toList, []) by decide), item]
  rfl

theorem read_inner : MemberType.read "struct IPayment.Inner".toList
      = some (.struct "IPayment.Inner") :=
  MemberType.read_of_no_suffix (by decide)

theorem refers_holder {name type x : String} :
    (holder name type).Refers x ↔ MemberType.MadeOf (trimString type) x := by
  simp [StructDefinition.Refers, holder, VariableDeclaration.type]

theorem refers_sampleStruct {name x : String} : ¬ (sampleStruct name "" []).Refers x := by
  simp [StructDefinition.Refers, sampleStruct]

theorem refers_requestBody {x : String} :
    (holder "RequestBody" "struct IPayment.Outer[]").Refers x ↔ x = "Outer" := by
  have bare : trimString "struct IPayment.Outer[]" = "struct IPayment.Outer[]" := by decide
  have name : lastPiece '.' "IPayment.Outer" = "Outer" := by decide
  rw [refers_holder, bare, MemberType.madeOf_iff read_outer]
  simp [MemberType.innermost, MemberType.structName, name, eq_comm]

theorem refers_outer {x : String} : (holder "Outer" "struct IPayment.Inner").Refers x ↔
    x = "Inner" := by
  have bare : trimString "struct IPayment.Inner" = "struct IPayment.Inner" := by decide
  have name : lastPiece '.' "IPayment.Inner" = "Inner" := by decide
  rw [refers_holder, bare, MemberType.madeOf_iff read_inner]
  simp [MemberType.innermost, MemberType.structName, name, eq_comm]

/-- Which of the structs refer to others. -/
theorem refers_of_mem {further : List StructDefinition}
    (known : ∀ s ∈ further, s = sampleStruct "Inner" "" [] ∨
      s = holder "Outer" "struct IPayment.Inner")
    {s : StructDefinition} (hs : s ∈ holderStructs further) {x : String} (h : s.Refers x) :
    s = holder "RequestBody" "struct IPayment.Outer[]" ∧ x = "Outer" ∨
      s = holder "Outer" "struct IPayment.Inner" ∧ x = "Inner" := by
  rw [holderStructs, List.mem_append] at hs
  rcases hs with hs | hs
  · simp only [List.mem_cons, List.not_mem_nil, or_false] at hs
    rcases hs with rfl | rfl | rfl | rfl | rfl
    · exact absurd h refers_sampleStruct
    · exact absurd h refers_sampleStruct
    · exact absurd h refers_sampleStruct
    · exact absurd h refers_sampleStruct
    · exact .inl ⟨rfl, refers_requestBody.mp h⟩
  · rcases known s hs with rfl | rfl
    · exact absurd h refers_sampleStruct
    · exact .inr ⟨rfl, refers_outer.mp h⟩

/-- An interface without faults is accepted, and there are classes if its members have
types. -/
theorem exists_classes {u : SourceUnit} {c : ContractDefinition} {attestationType : String}
    (only : u.contracts = [c])
    (named : ∀ s ∈ c.structs, s.Named) (faultless : c.faults = 0)
    (fits : utf8Size attestationType.toList ≤ Bytes32.size)
    (typed : ∀ s ∈ c.structs, ∀ v ∈ s.members, ∃ t, MemberType.read v.type.toList = some t) :
    ∃ r cs, u.checkedRecord = .ok r ∧ Dto.classes attestationType r = .ok cs := by
  obtain ⟨r, hr⟩ := (Extraction.checked_ofPlaced c).1 faultless
  have accepted : u.checkedRecord = .ok r := by
    rw [checkedRecord, Extraction.ofUnit, only]
    exact bind_eq_ok_iff.mpr ⟨_, Extraction.ofContract_eq_ok named, hr⟩
  have all : ∀ s ∈ Dto.structsInOrder r, ∃ cl, Dto.Class.ofStruct attestationType s
      = .ok cl := by
    intro s hs
    rw [ContractDefinition.structsInOrder_eq (recordOf_of_checkedRecord only accepted)] at hs
    obtain ⟨p, hp, rfl⟩ := List.mem_map.mp hs
    have declared := List.fst_mem_of_mem_zipIdx
      (ContractDefinition.mem_emission.mp hp).declared
    refine (Dto.Class.exists_ofStruct_iff fits).mpr fun m hm => ?_
    obtain ⟨v, hv, rfl⟩ := List.mem_map.mp hm
    obtain ⟨t, ht⟩ := typed p.1 declared v hv
    exact ⟨t, MemberType.parse_eq_ok_iff.mpr ht⟩
  obtain ⟨cs, hcs⟩ := exists_mapM_eq_ok_iff.mpr all
  exact ⟨r, cs, accepted, hcs⟩

section Holders

variable {further : List StructDefinition}

theorem structs_sampleContract (structs : List StructDefinition) :
    (sampleContract structs).structs = structs := by
  simp [ContractDefinition.structs, sampleContract]

/-- The members of the structs have types. -/
theorem exists_read_of_mem
    (known : ∀ s ∈ further, s = sampleStruct "Inner" "" [] ∨
      s = holder "Outer" "struct IPayment.Inner") :
    ∀ s ∈ holderStructs further, ∀ v ∈ s.members, ∃ t, MemberType.read v.type.toList
      = some t := by
  have bare : ∀ name, ∀ v ∈ (sampleStruct name "" []).members, ∃ t,
    MemberType.read v.type.toList = some t :=
    fun name v hv => absurd hv List.not_mem_nil
  have held : ∀ name type t, trimString type = type → MemberType.read type.toList = some t →
      ∀ v ∈ (holder name type).members, ∃ t, MemberType.read v.type.toList = some t := by
    intro name type t trimmed ht v hv
    rw [List.mem_singleton.mp hv]
    refine ⟨t, ?_⟩
    rw [VariableDeclaration.type, Option.getD_some, trimmed, ht]
  have outer := held "RequestBody" "struct IPayment.Outer[]" _ (by decide) read_outer
  have inner := held "Outer" "struct IPayment.Inner" _ (by decide) read_inner
  rw [holderStructs, List.forall_mem_append]
  refine ⟨?_, fun s hs => ?_⟩
  · simp only [List.forall_mem_cons, List.not_mem_nil, false_implies, implies_true, and_true]
    exact ⟨bare _, bare _, bare _, bare _, outer⟩
  · rcases known s hs with rfl | rfl
    · exact bare _
    · exact inner

theorem exists_classes_holderStructs
    (known : ∀ s ∈ further, s = sampleStruct "Inner" "" [] ∨
      s = holder "Outer" "struct IPayment.Inner")
    (named : ∀ s ∈ (sampleContract (holderStructs further)).structs, s.Named)
    (faultless : (sampleContract (holderStructs further)).faults = 0) :
    ∃ r cs, (sampleUnit (holderStructs further)).checkedRecord = .ok r ∧
      Dto.classes "Payment" r = .ok cs := by
  have fits : utf8Size "Payment".toList ≤ Bytes32.size := by decide
  refine exists_classes rfl named faultless fits ?_
  rw [structs_sampleContract]
  exact exists_read_of_mem known

end Holders

/-- Structs that are declared outside in have their classes in dependency order. -/
theorem SourceUnit.inDependencyOrder_outsideIn :
    ∃ r cs, (sampleUnit outsideIn).checkedRecord = .ok r ∧
    Dto.classes "Payment" r = .ok cs ∧ Dto.InDependencyOrder cs := by
  obtain ⟨r, cs, accepted, made⟩ := @exists_classes_holderStructs
    [holder "Outer" "struct IPayment.Inner", sampleStruct "Inner" "" []] (by simp)
    (by decide +kernel)
    (by decide +kernel)
  refine ⟨r, cs, accepted, made,
    (inDependencyOrder_iff (c := sampleContract outsideIn) rfl accepted made).mpr ?_⟩
  have emitted : ∀ p, (sampleContract outsideIn).Emits p → p ∈ outsideIn.zipIdx :=
    fun p hp => by
    rw [← structs_sampleContract outsideIn]
    exact hp.declared
  have body : (sampleContract outsideIn).Emits
    (holder "RequestBody" "struct IPayment.Outer[]", 4) := by decide +kernel
  have outer : (sampleContract outsideIn).Emits
    (holder "Outer" "struct IPayment.Inner", 5) := by decide +kernel
  have inner : (sampleContract outsideIn).Emits (sampleStruct "Inner" "" [], 6) := by
    decide +kernel
  intro p hp x hx
  have at_ : ∀ p ∈ outsideIn.zipIdx, (p.1 = holder "RequestBody" "struct IPayment.Outer[]" →
    p.2 = 4) ∧
      (p.1 = holder "Outer" "struct IPayment.Inner" → p.2 = 5) := by decide +kernel
  obtain ⟨s, i⟩ := p
  rcases refers_of_mem (by simp) (List.fst_mem_of_mem_zipIdx (emitted _ hp))
    hx with ⟨rfl, rfl⟩ | ⟨rfl, rfl⟩
  · obtain rfl := (at_ _ (emitted _ hp)).1 rfl
    exact ⟨_, outer, by decide, by decide +kernel⟩
  · obtain rfl := (at_ _ (emitted _ hp)).2 rfl
    exact ⟨_, inner, by decide, by decide +kernel⟩

/-- **Declared inside out**, the structs of an interface without cycles have classes of which
one stands before the class that it refers to: the reversal puts the outer struct first. -/
theorem SourceUnit.exists_not_inDependencyOrder :
    ∃ r cs, (sampleUnit insideOut).checkedRecord = .ok r ∧
    (sampleContract insideOut).SelfContained ∧ (sampleContract insideOut).Acyclic ∧
    Dto.classes "Payment" r = .ok cs ∧ ¬ Dto.InDependencyOrder cs := by
  obtain ⟨r, cs, accepted, made⟩ := @exists_classes_holderStructs
    [sampleStruct "Inner" "" [], holder "Outer" "struct IPayment.Inner"] (by simp)
    (by decide +kernel)
    (by decide +kernel)
  refine ⟨r, cs, accepted, ?_,
    ⟨fun name => if name = "RequestBody" then 2 else if name = "Outer" then 1 else 0, ?_⟩,
    made, ?_⟩
  · rw [ContractDefinition.SelfContained, structs_sampleContract]
    intro s hs x hx
    rcases refers_of_mem (by simp) hs hx with ⟨rfl, rfl⟩ | ⟨rfl, rfl⟩ <;> decide
  · rw [structs_sampleContract]
    intro s hs x hx
    rcases refers_of_mem (by simp) hs hx with ⟨rfl, rfl⟩ | ⟨rfl, rfl⟩ <;> decide
  · rw [Dto.inDependencyOrder_iff_refersBack made,
      ContractDefinition.structsInOrder_eq
        (recordOf_of_checkedRecord (c := sampleContract insideOut) rfl accepted),
      ContractDefinition.refersBack_emission_iff]
    intro earlier
    obtain ⟨q, hq, name, before⟩ :=
      earlier (holder "Outer" "struct IPayment.Inner", 6) (by decide +kernel) "Inner"
      (refers_outer.mpr rfl)
    have only : ∀ q ∈ insideOut.zipIdx, trimString q.1.name = "Inner" →
        ¬ (sampleContract insideOut).EmittedBefore q
          (holder "Outer" "struct IPayment.Inner", 6) := by
      decide +kernel
    have declared := hq.declared
    rw [structs_sampleContract] at declared
    exact only q declared name before

end Attestation
