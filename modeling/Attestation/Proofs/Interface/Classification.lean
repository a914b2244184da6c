import Attestation.Proofs.Interface.Acceptance

/-!
# Where the structs of an interface go

Each struct of an interface goes to one place of its record: a required struct to the place of
its name, a further struct to the side of the body that is declared last before it, and it is
ignored with a warning if there is no such body (`SourceUnit.ofUnit_classifies`).

## Main definitions

* `ContractDefinition.assigned`: the further structs of a side, read off the declarations.
* `SourceUnit.Classified`: what the record and the warnings say of the declarations.

## Main results

* `structsAt_further`: the further structs of a side are what is found at its place.
* `structsAt_further_filter`: the places of requests, responses and proofs do not matter.

## Design notes

The reader carries the current side along.  `assigned` does without a state: a struct belongs
to a side if the last body in front of it is the body of that side.  The induction that relates
the two generalises the side that the reader starts with.
-/

namespace Attestation

open Text SourceUnit

/-! ## Bodies -/

/-- The side of a body. -/
def bodySide (name : String) : Option Side :=
  if name = "RequestBody" then some .request
  else if name = "ResponseBody" then some .response
  else none

/-- The side of the last body among structs of the given names. -/
def lastBody (names : List String) : Option Side := (names.filterMap bodySide).getLast?

theorem sideAfter_ofName (names : List String) (name : String) :
    (Slot.ofName (lastBody names) name).sideAfter (lastBody names)
      = lastBody (names ++ [name]) := by
  have last : lastBody (names ++ [name]) = (bodySide name).or (lastBody names) := by
    rw [lastBody, lastBody, List.filterMap_append]
    cases h : bodySide name <;> simp [h]
  rw [last]
  by_cases listed : name ∈ requiredNames
  · obtain ⟨⟨name, slot⟩, hentry, rfl⟩ := List.mem_map.mp listed
    rw [ofName_of_mem hentry]
    generalize lastBody names = side
    simp only [Slot.required, List.mem_cons, List.not_mem_nil, or_false,
      Prod.mk.injEq] at hentry
    rcases hentry with ⟨rfl, rfl⟩ | ⟨rfl, rfl⟩ | ⟨rfl, rfl⟩ | ⟨rfl, rfl⟩ | ⟨rfl, rfl⟩ <;> rfl
  · have none : bodySide name = none := by
      have hq : name ≠ "RequestBody" := by rintro rfl; exact listed (by decide)
      have hr : name ≠ "ResponseBody" := by rintro rfl; exact listed (by decide)
      rw [bodySide, if_neg hq, if_neg hr]
    rw [ofName_of_not_mem listed, none]
    rfl

/-- The place of a struct depends on the names before it. -/
theorem place_eq (before : List String) (rs : List StructReading) :
    place (lastBody before) rs = (rs.zipIdx before.length).map fun (r, i) =>
      (Slot.ofName (lastBody ((before ++ rs.map (·.record.name)).take i)) r.record.name,
        r) := by
  induction rs generalizing before with
  | nil => rfl
  | cons r rs ih =>
      have rest := ih (before ++ [r.record.name])
      rw [List.length_append, List.length_singleton, List.append_assoc,
        List.singleton_append] at rest
      simp only [place, sideAfter_ofName, rest, List.zipIdx_cons, List.map_cons,
        List.take_left']

theorem ofName_eq_further_iff {side side' : Option Side} {name : String} :
    Slot.ofName side name = .further side' ↔ name ∉ requiredNames ∧ side = side' := by
  by_cases listed : name ∈ requiredNames
  · obtain ⟨⟨name, slot⟩, hentry, rfl⟩ := List.mem_map.mp listed
    rw [ofName_of_mem hentry]
    simp [listed, slot_ne_further _ hentry]
  · rw [ofName_of_not_mem listed]
    simp [listed]

/-! ## The structs of a contract -/

namespace ContractDefinition

variable (c : ContractDefinition)

/-- The further structs for which the last body before is that of a side, in the order of their
declaration.  It looks back from each struct, where the reading keeps a side as it goes. -/
def assigned (side : Option Side) : List StructDefinition :=
  (c.structs.zipIdx.filter fun (s, i) =>
    trimString s.name ∉ requiredNames ∧ lastBody (c.structNames.take i) = side).map (·.1)

/-- **The further structs of a side** are those for which its body is the last one before. -/
theorem structsAt_further (side : Option Side) :
    structsAt (.further side) c.placed = (c.assigned side).map (·.record) := by
  have start : lastBody [] = none := rfl
  rw [placed, ← start, place_eq, List.nil_append, names_readings, readings, List.length_nil,
    List.zipIdx_map,
    structsAt, List.filter_map, List.map_map, List.filter_map, List.map_map, assigned,
    List.map_map]
  refine congrArg₂ List.map rfl (List.filter_congr fun p _ => ?_)
  rw [Bool.eq_iff_iff]
  simp only [Function.comp_apply, decide_eq_true_eq, Prod.map_fst, Prod.map_snd, id_eq,
    ofName_eq_further_iff]
  rfl

end ContractDefinition

/-! ## Nothing is lost -/

/-- All places, those of the required structs first. -/
def Slot.all : List Slot :=
  [.request, .response, .proof, .requestBody, .responseBody, .further (some .request),
    .further (some .response), .further none]

theorem Slot.required_or_further (slot : Slot) :
    (∃ name, (name, slot) ∈ Slot.required) ∨ ∃ side, slot = .further side := by
  cases slot with
  | request => exact .inl ⟨"Request", by decide⟩
  | response => exact .inl ⟨"Response", by decide⟩
  | proof => exact .inl ⟨"Proof", by decide⟩
  | requestBody => exact .inl ⟨"RequestBody", by decide⟩
  | responseBody => exact .inl ⟨"ResponseBody", by decide⟩
  | further side => exact .inr ⟨side, rfl⟩

theorem Slot.nodup_all : Slot.all.Nodup := by decide

theorem Slot.mem_all (slot : Slot) : slot ∈ Slot.all := by
  rcases slot with _ | _ | _ | _ | _ | _ | _ | _ <;> decide

/-- The structs at all places are the structs that have been placed. -/
theorem structsAt_perm (placed : List (Slot × StructReading)) :
    (Slot.all.flatMap (structsAt · placed)).Perm (placed.map (·.2.record)) := by
  have parts : (Slot.all.flatMap fun slot => placed.filter (·.1 = slot)).Perm placed :=
    perm_flatMap_filter Slot.nodup_all fun p _ => Slot.mem_all p.1
  simpa only [structsAt, List.map_flatMap] using parts.map (·.2.record)

/-! ## What does not matter -/

/-- The structs that have their place wherever they are declared, and are no bodies. -/
def movable : List String := ["Request", "Response", "Proof"]

/-- The structs of which the order matters: the bodies, since they say where the further
structs go, and the further structs themselves. -/
def ContractDefinition.fixed (c : ContractDefinition) : List StructDefinition :=
  c.structs.filter (trimString ·.name ∉ movable)

/-- The place of a movable struct is not that of a further one, and it leaves the side as it
is. -/
theorem ofName_movable {side : Option Side} {name : String} (h : name ∈ movable) :
    (Slot.ofName side name).sideAfter side = side ∧
    ∀ side', Slot.ofName side name ≠ .further side' := by
  obtain ⟨slot, hslot, stays⟩ : ∃ slot, (name, slot) ∈ Slot.required ∧ ∀ side,
    slot.sideAfter side = side := by
    simp only [movable, List.mem_cons, List.not_mem_nil, or_false] at h
    rcases h with rfl | rfl | rfl
    · exact ⟨.request, by decide, fun _ => rfl⟩
    · exact ⟨.response, by decide, fun _ => rfl⟩
    · exact ⟨.proof, by decide, fun _ => rfl⟩
  rw [ofName_of_mem hslot]
  exact ⟨stays side, slot_ne_further _ hslot⟩

/-- Movable structs do not change the place of further ones. -/
theorem structsAt_further_filter (side side' : Option Side) (rs : List StructReading) :
    structsAt (.further side') (place side (rs.filter (·.record.name ∉ movable)))
      = structsAt (.further side') (place side rs) := by
  induction rs generalizing side with
  | nil => rfl
  | cons r rs ih =>
      by_cases h : r.record.name ∈ movable
      · obtain ⟨stays, nowhere⟩ := @ofName_movable side _ h
        have drop : structsAt (.further side') (place side (r :: rs))
            = structsAt (.further side') (place side rs) := by
          rw [place, stays, structsAt,
            List.filter_cons_of_neg (by simpa using nowhere side'), structsAt]
        rw [List.filter_cons_of_neg (by simpa using h), ih, drop]
      · have rest := ih ((Slot.ofName side r.record.name).sideAfter side)
        rw [List.filter_cons_of_pos (by simpa using h)]
        simp only [structsAt] at rest ⊢
        simp only [place, List.filter_cons]
        split
        · rw [List.map_cons, List.map_cons, rest]
        · exact rest

namespace ContractDefinition

variable {c c' : ContractDefinition}

/-- The structs at a required place are those with its name. -/
theorem structsAt_eq_filter (c : ContractDefinition) {name : String} {slot : Slot}
    (h : (name, slot) ∈ Slot.required) :
    structsAt slot c.placed = (c.structs.filter (trimString ·.name = name)).map
      (·.record) := by
  rw [placed, structsAt_required h, readings, List.filter_map, List.map_map]
  refine congrArg₂ List.map rfl (List.filter_congr fun s _ => ?_)
  rw [Bool.eq_iff_iff, Function.comp_apply, decide_eq_true_iff, decide_eq_true_iff,
    StructDefinition.reading_record, StructDefinition.record_name]

theorem readings_filter (c : ContractDefinition) :
    c.readings.filter (·.record.name ∉ movable) = c.fixed.map (·.reading c.name) := by
  rw [readings, List.filter_map, fixed]
  refine congrArg₂ List.map rfl (List.filter_congr fun s _ => ?_)
  rw [Bool.eq_iff_iff, Function.comp_apply, decide_eq_true_iff, decide_eq_true_iff,
    StructDefinition.reading_record, StructDefinition.record_name]

/-- What is found at a place does not depend on where the movable structs are declared. -/
theorem structsAt_congr (distinct : c.structNames.Nodup) (name : c'.name = c.name)
    (perm : c'.structs.Perm c.structs) (fixed : c'.fixed = c.fixed) (slot : Slot) :
    structsAt slot c'.placed = structsAt slot c.placed := by
  by_cases required : ∃ x, (x, slot) ∈ Slot.required
  · obtain ⟨x, hslot⟩ := required
    rw [structsAt_eq_filter c hslot, structsAt_eq_filter c' hslot]
    refine congrArg (List.map StructDefinition.record) ?_
    have parts := perm.filter (trimString ·.name = x)
    by_cases there : ∃ s ∈ c.structs, trimString s.name = x
    · obtain ⟨s, hs, rfl⟩ := there
      rw [filter_eq_singleton distinct hs] at parts ⊢
      exact List.perm_singleton.mp parts
    · have empty : c.structs.filter (trimString ·.name = x) = [] := by
        rw [List.filter_eq_nil_iff]
        exact fun s hs same => there ⟨s, hs, by simpa using same⟩
      rw [empty] at parts ⊢
      exact parts.eq_nil
  · obtain ⟨side, rfl⟩ := (Slot.required_or_further slot).resolve_left required
    rw [placed, placed, ← structsAt_further_filter,
      ← structsAt_further_filter none side c.readings,
      readings_filter, readings_filter, fixed, name]

/-- The record is that of the struct with the given name. -/
def Has (c : ContractDefinition) (name : String) (record : StructRecord) : Prop :=
  ∃ s ∈ c.structs, trimString s.name = name ∧ record = s.record

theorem has_of_structAt {name : String} {slot : Slot} (h : (name, slot) ∈ Slot.required)
    {record : StructRecord}
    (found : structAt slot c.placed = some record) : c.Has name record := by
  have member := List.mem_of_getLast? found
  rw [structsAt_eq_filter c h] at member
  obtain ⟨s, hs, rfl⟩ := List.mem_map.mp member
  obtain ⟨hs, same⟩ := List.mem_filter.mp hs
  exact ⟨s, hs, by simpa using same, rfl⟩

/-- Only one struct is found at a required place. -/
theorem structsAt_eq_singleton (distinct : c.structNames.Nodup) {name : String} {slot : Slot}
    (h : (name, slot) ∈ Slot.required) {record : StructRecord}
    (found : structAt slot c.placed = some record) :
    structsAt slot c.placed = [record] := by
  obtain ⟨s, hs, rfl, rfl⟩ := has_of_structAt h found
  rw [structsAt_eq_filter c h, filter_eq_singleton distinct hs]
  rfl

end ContractDefinition

namespace Extraction

variable {c : ContractDefinition} {placed : List (Slot × StructReading)} {r : TypeRecord}

theorem eq_of_recordOf (h : recordOf c placed = some r) :
    structAt .request placed = some r.request ∧ structAt .response placed = some r.response ∧
      structAt .proof placed = some r.proof ∧
      structAt .requestBody placed = some r.requestBody ∧
      structAt .responseBody placed = some r.responseBody ∧
      r.requestStructs = structsAt (.further (some .request)) placed ∧
      r.responseStructs = structsAt (.further (some .response)) placed := by
  simp only [recordOf, Option.pure_def, Option.bind_eq_bind, Option.bind_eq_some_iff,
    Option.some.injEq] at h
  obtain ⟨proof, hp, request, hq, response, hr, requestBody, hqb, responseBody, hrb, rfl⟩ := h
  exact ⟨hq, hr, hp, hqb, hrb, rfl, rfl⟩

/-- Records are made of what is found at the places. -/
theorem recordOf_congr {c' : ContractDefinition} {placed' : List (Slot × StructReading)}
    (documentation : c'.documentation = c.documentation)
    (same : ∀ slot, structsAt slot placed' = structsAt slot placed) :
    recordOf c' placed' = recordOf c placed := by
  have last : ∀ slot, structAt slot placed' = structAt slot placed := fun slot => by
    rw [structAt, same, structAt]
  simp only [recordOf, documentation, last, same]

/-- The warnings about structs without a place. -/
def warnings (e : Extraction) : List Issue := e.issues.filter (·.kind = "unassigned_struct")

/-- No other problem is such a warning. -/
theorem filter_kind_placedIssues (p : Slot × StructReading)
    (hp : ∃ s, p.2 = StructDefinition.reading c.name s) :
    (placedIssues c.name p).filter (·.kind = "unassigned_struct")
      = if p.1 = .further none then [.unassignedStruct c.name p.2.record.name] else [] := by
  obtain ⟨slot, reading⟩ := p
  obtain ⟨s, hs⟩ := hp
  obtain rfl : reading = s.reading c.name := hs
  have undocumented : (if Doc.hasText s.documentation then []
      else [Issue.undocumentedStruct c.name s.name]).filter (·.kind = "unassigned_struct")
          = [] := by
    split <;> simp [Issue.kind]
  have params : ∀ seen names,
      (paramIssues c.name s seen names).filter (·.kind = "unassigned_struct") = [] := by
    intro seen names
    induction names generalizing seen with
    | nil => rfl
    | cons name names ih =>
        rw [paramIssues, List.filter_append, ih, List.append_nil]
        split
        · simp [Issue.kind]
        · split <;> simp [Issue.kind]
  have members : (memberIssues c.name s s.documented).filter (·.kind = "unassigned_struct")
      = [] := by
    rw [List.filter_eq_nil_iff]
    intro issue hi
    obtain ⟨v, -, rfl⟩ := List.mem_map.mp hi
    simp [Issue.kind]
  have own : (s.reading c.name).issues.filter (·.kind = "unassigned_struct") = [] := by
    rw [StructDefinition.reading, List.filter_append, List.filter_append, undocumented,
      params, members]
    rfl
  -- The warning is not one of the issues of the struct itself, so it can only come from its
  -- slot.
  by_cases h : slot = .further none
  · subst h
    rw [if_pos rfl, placedIssues, List.filter_append, own]
    simp [Issue.kind]
  · have plain : placedIssues c.name (slot, s.reading c.name) = (s.reading c.name).issues := by
      unfold placedIssues
      split
      · next heq =>
          rw [Prod.mk.injEq] at heq
          exact absurd heq.1 h
      · next heq =>
          rw [Prod.mk.injEq] at heq
          rw [heq.2]
    rw [if_neg h, plain, own]

/-- **The ignored structs** are warned about, each once and in order.  These are the ones
before both bodies. -/
theorem warnings_ofPlaced (c : ContractDefinition) :
    (ofPlaced c c.placed).warnings = (c.assigned none).map fun s => .unassignedStruct c.name
      (trimString s.name) := by
  have undocumented : (if Doc.hasText c.documentation then []
      else [Issue.undocumentedInterface c.name]).filter (·.kind = "unassigned_struct")
          = [] := by
    split <;> simp [Issue.kind]
  have lost : (missing c.name c.placed).filter (·.kind = "unassigned_struct") = [] := by
    rw [List.filter_eq_nil_iff]
    intro issue hi
    obtain ⟨v, -, rfl⟩ := List.mem_map.mp hi
    simp [Issue.kind]
  have origin : ∀ p ∈ c.placed, ∃ s, p.2 = StructDefinition.reading c.name s := by
    intro p hp
    have read : p.2 ∈ c.readings := map_place none c.readings ▸ List.mem_map_of_mem hp
    obtain ⟨s, -, hs⟩ := List.mem_map.mp read
    exact ⟨s, hs.symm⟩
  have structs : (c.placed.flatMap (placedIssues c.name)).filter (·.kind = "unassigned_struct")
      = (structsAt (.further none) c.placed).map fun record =>
      .unassignedStruct c.name record.name := by
    rw [structsAt, List.map_map]
    generalize c.placed = placed at origin
    induction placed with
    | nil => rfl
    | cons p placed ih =>
        rw [List.forall_mem_cons] at origin
        rw [List.flatMap_cons, List.filter_append,
          filter_kind_placedIssues p origin.1, ih origin.2,
          List.filter_cons]
        by_cases h : p.1 = .further none <;> simp [h]
  rw [warnings, ofPlaced, List.filter_append, List.filter_append, undocumented, lost, structs,
    c.structsAt_further, List.map_map, List.nil_append, List.append_nil]
  rfl

end Extraction

/-! ## Where the structs go -/

/-- Every struct of the contract has its place in the record, or is ignored with a warning.
The fields name the places, and the last ones say that nothing else is in the record and that
no struct has two places. -/
structure Classified (c : ContractDefinition) (e : Extraction) (r : TypeRecord) : Prop where
  request : c.Has "Request" r.request
  response : c.Has "Response" r.response
  proof : c.Has "Proof" r.proof
  requestBody : c.Has "RequestBody" r.requestBody
  responseBody : c.Has "ResponseBody" r.responseBody
  requestStructs : r.requestStructs = (c.assigned (some .request)).map (·.record)
  responseStructs : r.responseStructs = (c.assigned (some .response)).map (·.record)
  /-- The warnings name the structs that stand before both bodies. -/
  ignored : e.warnings = (c.assigned none).map fun s =>
  .unassignedStruct c.name (trimString s.name)
  /-- Each of them is named once. -/
  once : ∀ s ∈ c.assigned none, e.warnings.count (.unassignedStruct c.name (trimString s.name))
    = 1
  /-- Nothing is lost or doubled. -/
  all : (c.structs.map (·.record)).Perm ([r.request, r.response, r.proof, r.requestBody,
    r.responseBody]
    ++ r.requestStructs ++ r.responseStructs ++ (c.assigned none).map (·.record))
  /-- The members keep their order. -/
  params : ∀ s ∈ c.structs, s.record.params.map (fun m => (m.name, m.type))
    = s.members.map fun v => (trimString v.name, v.type)

theorem nodup_assigned {c : ContractDefinition} (distinct : c.structNames.Nodup)
    (side : Option Side) :
    ((c.assigned side).map (trimString ·.name)).Nodup := by
  have part : (c.assigned side).Sublist c.structs := by
    have items := (List.filter_sublist (p := fun (s, i) =>
      decide (trimString s.name ∉ requiredNames ∧
      lastBody (c.structNames.take i) = side)) (l := c.structs.zipIdx)).map Prod.fst
    rwa [List.zipIdx_map_fst] at items
  exact distinct.sublist (part.map _)

/-- A contract with a record has its structs classified. -/
theorem classified_ofPlaced {c : ContractDefinition} {r : TypeRecord}
    (distinct : c.structNames.Nodup)
    (record : Extraction.recordOf c c.placed = some r) :
    Classified c (Extraction.ofPlaced c c.placed) r := by
  obtain ⟨hq, hr, hp, hqb, hrb, furtherQ, furtherR⟩ := Extraction.eq_of_recordOf record
  have warned := Extraction.warnings_ofPlaced c
  have q : ("Request", .request) ∈ Slot.required := by decide
  have r : ("Response", .response) ∈ Slot.required := by decide
  have p : ("Proof", .proof) ∈ Slot.required := by decide
  have qb : ("RequestBody", .requestBody) ∈ Slot.required := by decide
  have rb : ("ResponseBody", .responseBody) ∈ Slot.required := by decide
  refine ⟨c.has_of_structAt q hq, c.has_of_structAt r hr, c.has_of_structAt p hp,
    c.has_of_structAt qb hqb,
    c.has_of_structAt rb hrb, furtherQ.trans (c.structsAt_further _),
    furtherR.trans (c.structsAt_further _),
    warned, ?_, ?_, ?_⟩
  · intro s hs
    rw [warned]
    have single : ((c.assigned none).map fun s =>
      Issue.unassignedStruct c.name (trimString s.name)).Nodup := by
      have injective : Function.Injective (Issue.unassignedStruct c.name) := fun a b h =>
        (Issue.unassignedStruct.inj h).2
      have single := (nodup_assigned distinct none).map injective
      rwa [List.map_map] at single
    exact List.count_eq_one_of_mem single (List.mem_map_of_mem hs)
  · have records : c.placed.map (·.2.record) = c.structs.map (·.record) := by
      have readings := congrArg (List.map StructReading.record) (map_place none c.readings)
      rw [List.map_map, ContractDefinition.readings, List.map_map] at readings
      exact readings
    have parts := structsAt_perm c.placed
    rw [records] at parts
    refine parts.symm.trans (.of_eq ?_)
    simp only [Slot.all, List.flatMap_cons, List.flatMap_nil, List.append_nil]
    rw [c.structsAt_eq_singleton distinct q hq, c.structsAt_eq_singleton distinct r hr,
      c.structsAt_eq_singleton distinct p hp, c.structsAt_eq_singleton distinct qb hqb,
      c.structsAt_eq_singleton distinct rb hrb, ← furtherQ, ← furtherR, c.structsAt_further]
    simp
  · intro s _
    rw [StructDefinition.record, List.map_map]
    rfl

/-- **Where the structs of an interface go**, and that it does not matter where requests,
responses and proofs are declared: an interface with the same structs in another order has the
same record, as long as its bodies and further structs keep theirs. -/
theorem SourceUnit.ofUnit_classifies {u : SourceUnit} {c : ContractDefinition} {e : Extraction}
    {r : TypeRecord}
    (only : u.contracts = [c]) (distinct : c.structNames.Nodup)
    (read : Extraction.ofUnit u = .ok e)
    (record : e.record = some r) :
    Classified c e r ∧
      ∀ u' c', u'.contracts = [c'] → c'.name = c.name → c'.documentation = c.documentation →
        c'.structs.Perm c.structs → c'.fixed = c.fixed →
        ∃ e', Extraction.ofUnit u' = .ok e' ∧ e'.record = some r := by
  rw [Extraction.ofUnit, only] at read
  obtain ⟨named, rfl⟩ := Extraction.ofContract_eq_ok_iff.mp read
  refine ⟨classified_ofPlaced distinct record, fun u' c' only' name documentation perm fixed =>
    ?_⟩
  refine ⟨Extraction.ofPlaced c' c'.placed, ?_, ?_⟩
  · rw [Extraction.ofUnit, only']
    exact Extraction.ofContract_eq_ok fun s hs => named s (perm.subset hs)
  · have same := Extraction.recordOf_congr documentation
      (ContractDefinition.structsAt_congr distinct name perm fixed)
    exact same.trans record

/-- Structs with the body of the response first, and further structs before, between and behind
the bodies. -/
def mixedStructs : List StructDefinition :=
  [sampleStruct "Head" "" [], sampleStruct "ResponseBody" "" [], sampleStruct "A" "" [],
    sampleStruct "Request" "" [], sampleStruct " B" "" [], sampleStruct "RequestBody" "" [],
    sampleStruct "Proof" "" [], sampleStruct "C" "@param x text" ["x"],
    sampleStruct "Response" "" []]

/-- The same structs with some of them moved. -/
def movedStructs : List StructDefinition :=
  [sampleStruct "Proof" "" [], sampleStruct "Head" "" [], sampleStruct "Response" "" [],
    sampleStruct "ResponseBody" "" [], sampleStruct "A" "" [], sampleStruct " B" "" [],
    sampleStruct "RequestBody" "" [], sampleStruct "C" "@param x text" ["x"],
    sampleStruct "Request" "" []]

/-- Structs before, between and behind the bodies, where the body of the response comes first,
and the same interface with three structs moved. -/
theorem SourceUnit.ofUnit_classifies_mixed :
    ∃ e r, Extraction.ofUnit (sampleUnit mixedStructs) = .ok e ∧
    e.record = some r ∧ e.warnings = [.unassignedStruct "IPayment" "Head"] ∧
    r.responseStructs.map (·.name) = ["A", "B"] ∧ r.requestStructs.map (·.name) = ["C"] ∧
    ∃ e', Extraction.ofUnit (sampleUnit movedStructs) = .ok e' ∧ e'.record = some r := by
  have read : Extraction.ofUnit (sampleUnit mixedStructs)
      = .ok (.ofPlaced (sampleContract mixedStructs) (sampleContract mixedStructs).placed) :=
    Extraction.ofContract_eq_ok (by decide +kernel)
  obtain ⟨r, hr⟩ := Option.isSome_iff_exists.mp
    ((Extraction.isSome_recordOf_iff (sampleContract mixedStructs)).mpr (by decide +kernel))
  obtain ⟨classified, moved⟩ :=
    ofUnit_classifies (u := sampleUnit mixedStructs) rfl (by decide +kernel) read hr
  refine ⟨_, r, read, hr, ?_, ?_, ?_,
    moved (sampleUnit movedStructs) (sampleContract movedStructs) rfl rfl rfl
    (by decide +kernel) (by decide +kernel)⟩
  · rw [classified.ignored]
    decide +kernel
  · rw [classified.responseStructs]
    decide +kernel
  · rw [classified.requestStructs]
    decide +kernel

end Attestation
