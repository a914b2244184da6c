import Attestation.Declaration.Source
import Attestation.Dto.Source
import Attestation.Proofs.Compiler.Loading
import Attestation.Proofs.MemberType.Grammar

/-!
# Classes and interfaces of one schema

The DTO classes and the plain interfaces of an attestation type are made by two recursions over
its structs and their member types.  They can be made of the same records, and then they
describe the same structs with the same properties (`classes_describe_interfaces`).

## Main definitions

* `MemberType.SameType`: how the two forms of a type are related.
* `SameField`, `SameSchema`: a property, and a class, that describes the same as one of an
  interface.

## Design notes

The two sides differ in the prefix of struct names, in the parentheses around the elements of
arrays and in the order of the structs.  The first two are taken off by functions on the texts
(`withoutParens` and the prefix), so that sameness is an equation and not a matter of
judgement; the order is taken off by a permutation.  Success is part of the statement: one side
can be made exactly if the other one can.
-/

namespace Attestation

open Text
open scoped List

/-- A relation that holds at each position of three lists of the same length. -/
inductive Forall₃ {α β γ : Type} (R : α → β → γ → Prop) : List α → List β → List γ → Prop
  | nil : Forall₃ R [] [] []
  | cons {a : α} {b : β} {c : γ} {as : List α} {bs : List β} {cs : List γ} (head : R a b c)
      (tail : Forall₃ R as bs cs) : Forall₃ R (a :: as) (b :: bs) (c :: cs)

/-- Two lists that follow one list follow each other. -/
theorem Forall₃.of_forall₂ {α β γ : Type} {P : α → β → Prop} {Q : α → γ → Prop}
    {R : α → β → γ → Prop}
    {as : List α} {bs : List β} {cs : List γ} (hb : List.Forall₂ P as bs)
    (hc : List.Forall₂ Q as cs)
    (h : ∀ a b c, P a b → Q a c → R a b c) : Forall₃ R as bs cs := by
  induction hb generalizing cs with
  | nil =>
      cases hc
      exact .nil
  | cons first _ ih =>
      cases hc with
      | cons first' rest => exact .cons (h _ _ _ first first') (ih rest)

/-! ## Types -/

namespace MemberType

/-- A type without parentheses. -/
def withoutParens (type : String) : String :=
  String.ofList (type.toList.filter fun c => c != '(' && c != ')')

/-- The brackets behind the innermost element. -/
def brackets : MemberType → String
  | .array element _ => element.brackets ++ "[]"
  | _ => ""

/-- The struct that a type is made of has a name of word characters and dots. -/
def NamesStruct (t : MemberType) : Prop :=
  ∀ x, t.innermost.structName = some x → ∀ c ∈ x.toList, isWord c = true ∨ c = '.'

/-- **The DTO form of a type and its plain form** are the same up to parentheses, unless the
innermost element is a struct; then the name of the attestation type stands in front. -/
structure SameType (attestationType : String) (t : MemberType) (dto plain : String) :
    Prop where
  struct : ∀ x, t.innermost.structName = some x →
    withoutParens plain = x ++ t.brackets ∧ dto = attestationType ++ "_" ++ x ++ t.brackets
  other : t.innermost.structName = none → dto = withoutParens plain

theorem withoutParens_append (a b : String) :
    withoutParens (a ++ b) = withoutParens a ++ withoutParens b := by
  simp [withoutParens]

theorem withoutParens_eq_self {s : String} (h : ∀ c ∈ s.toList, c ≠ '(' ∧ c ≠ ')') :
    withoutParens s = s := by
  have all : s.toList.filter (fun c => c != '(' && c != ')') = s.toList := by
    rw [List.filter_eq_self]
    intro c hc
    simp [h c hc]
  rw [withoutParens, all, String.ofList_toList]

theorem NamesStruct.withoutParens_eq {t : MemberType} (names : t.NamesStruct) {x : String}
    (hx : t.innermost.structName = some x) : withoutParens x = x := by
  have opened : isWord '(' = false := by decide
  have closed : isWord ')' = false := by decide
  refine withoutParens_eq_self fun c hc => ⟨?_, ?_⟩
  · rintro rfl
    simpa [opened] using names x hx _ hc
  · rintro rfl
    simpa [closed] using names x hx _ hc

/-- The plain form of an array without parentheses. -/
theorem withoutParens_plainType_array (element : MemberType) (length : Option Nat) :
    withoutParens (array element length).plainType
      = withoutParens element.plainType ++ "[]" := by
  have opened : withoutParens "(" = "" := by decide
  have closed : withoutParens ")[]" = "[]" := by decide
  rw [plainType, withoutParens_append, withoutParens_append, opened, closed,
    String.empty_append]

theorem withoutParens_plainType_of_struct {t : MemberType} (names : t.NamesStruct) {x : String}
    (hx : t.innermost.structName = some x) : withoutParens t.plainType = x ++ t.brackets := by
  induction t with
  | array element length ih =>
      rw [withoutParens_plainType_array, ih names hx, brackets, String.append_assoc]
  | struct path =>
      cases hx
      exact (names.withoutParens_eq rfl).trans (String.append_empty).symm
  | _ => cases hx

theorem dtoType_of_struct {attestationType : String} {t : MemberType} {x : String}
    (hx : t.innermost.structName = some x) :
    t.dtoType attestationType = attestationType ++ "_" ++ x ++ t.brackets := by
  induction t with
  | array element length ih => rw [dtoType, ih hx, brackets, String.append_assoc]
  | struct path =>
      cases hx
      exact (String.append_empty).symm
  | _ => cases hx

theorem dtoType_of_other {attestationType : String} {t : MemberType}
    (h : t.innermost.structName = none) :
    t.dtoType attestationType = withoutParens t.plainType := by
  have word : withoutParens "string" = "string" := by decide
  have truth : withoutParens "boolean" = "boolean" := by decide
  induction t with
  | array element length ih => rw [withoutParens_plainType_array, dtoType, ih h]
  | struct path => cases h
  | bool => exact truth.symm
  | _ => exact word.symm

theorem sameType {attestationType : String} {t : MemberType} (names : t.NamesStruct) :
    SameType attestationType t (t.dtoType attestationType) t.plainType where
  struct _ hx := ⟨withoutParens_plainType_of_struct names hx, dtoType_of_struct hx⟩
  other := dtoType_of_other

/-! ### Types that are read -/

theorem namesStruct_of_structName {t : MemberType} (h : t.innermost.structName = none) :
    t.NamesStruct := by
  intro x hx
  rw [h] at hx
  cases hx

theorem namesStruct_of_path {path : List Char} (h : ∀ c ∈ path, isWord c = true ∨ c = '.') :
    (struct (String.ofList path)).NamesStruct := by
  intro x hx c hc
  cases hx
  rw [lastPiece, String.toList_ofList, List.mem_reverse] at hc
  have inPath := List.mem_reverse.mp ((List.takeWhile_sublist _).subset hc)
  rw [String.toList_ofList] at inPath
  exact h c inPath

theorem namesStruct_of_simple {cs : List Char} {t : MemberType} (h : Simple cs t) :
    t.NamesStruct := by
  cases h with
  | struct _ chars => exact namesStruct_of_path chars
  | _ => exact namesStruct_of_structName rfl

theorem namesStruct_of_written {cs : List Char} {t : MemberType} (h : Written cs t) :
    t.NamesStruct := by
  induction h with
  | simple simple => exact namesStruct_of_simple simple
  | array _ _ _ _ ih => exact ih

theorem namesStruct_of_parse {text : String} {t : MemberType} (h : parse text = .ok t) :
    t.NamesStruct :=
  namesStruct_of_written (read_eq_some_iff.mp (parse_eq_ok_iff.mp h))

end MemberType

/-! ## Members -/

/-- A property of a DTO class and one of an interface are those of the same member. -/
structure SameField (attestationType : String) (m : Member) (d : Dto.Field)
    (p : Declaration.Field) : Prop where
  name : d.name = p.name
  type : ∃ t, MemberType.parse m.type = .ok t ∧
    MemberType.SameType attestationType t d.type p.type

/-- A DTO class and an interface describe the same struct. -/
structure SameSchema (attestationType : String) (s : StructRecord) (c : Dto.Class)
    (i : Declaration.Interface) :
    Prop where
  struct : i.name = s.name
  name : c.name = attestationType ++ "_" ++ i.name
  fields : Forall₃ (SameField attestationType) s.params c.fields i.fields

section Emitters

variable {attestationType : String}

theorem Bytes32.exists_encode {name : String} (h : utf8Size name.toList ≤ Bytes32.size) :
    ∃ word, Bytes32.encode name = .ok word := by
  refine ⟨_, if_pos ?_⟩
  rw [length_utf8Bytes]
  exact h

/-- A member has an example, as far as its example is not the word of a name that is too
long. -/
theorem Dto.exists_memberExample? (h : utf8Size attestationType.toList ≤ Bytes32.size)
    (memberName : String)
    (type : MemberType) : ∃ shown, memberExample? attestationType memberName type
      = .ok shown := by
  unfold memberExample?
  split
  · exact ⟨_, rfl⟩
  · split
    · next name hname =>
        have fits : utf8Size name.toList ≤ Bytes32.size := by
          unfold identifiedName? at hname
          split at hname
          · cases hname
            exact h
          · split at hname
            · cases hname
              decide
            · cases hname
        obtain ⟨word, hword⟩ := Bytes32.exists_encode fits
        exact ⟨_, by rw [hword]; rfl⟩
    · exact ⟨_, rfl⟩
  · exact ⟨_, rfl⟩

theorem Dto.Field.exists_of_ofMember {m : Member} {d : Dto.Field}
    (h : Dto.Field.ofMember attestationType m = .ok d) :
    ∃ t, MemberType.parse m.type = .ok t ∧ d.name = m.name ∧
      d.type = t.dtoType attestationType := by
  obtain ⟨t, ht, h⟩ := bind_eq_ok_iff.mp h
  obtain ⟨shown, -, h⟩ := bind_eq_ok_iff.mp h
  cases h
  exact ⟨t, orFail_eq_ok_iff.mp (inContext_eq_ok_iff.mp ht), rfl, rfl⟩

theorem Dto.Field.exists_ofMember_iff (h : utf8Size attestationType.toList ≤ Bytes32.size)
    {m : Member} :
    (∃ d, Dto.Field.ofMember attestationType m = .ok d) ↔
    ∃ t, MemberType.parse m.type = .ok t := by
  constructor
  · rintro ⟨d, hd⟩
    obtain ⟨t, ht, -⟩ := exists_of_ofMember hd
    exact ⟨t, ht⟩
  · rintro ⟨t, ht⟩
    obtain ⟨shown, hshown⟩ := Dto.exists_memberExample? h m.name t
    exact ⟨_, bind_eq_ok_iff.mpr ⟨t, inContext_eq_ok_iff.mpr (orFail_eq_ok_iff.mpr ht),
      bind_eq_ok_iff.mpr ⟨shown, orFail_eq_ok_iff.mpr hshown, rfl⟩⟩⟩

theorem Declaration.Field.ofMember_eq_ok_iff {m : Member} {p : Declaration.Field} :
    Declaration.Field.ofMember m = .ok p ↔
      ∃ t, MemberType.parse m.type = .ok t ∧
        p = { doc := docLines m.comment, name := m.name, type := t.plainType } := by
  rw [Declaration.Field.ofMember, bind_eq_ok_iff]
  refine exists_congr fun t => and_congr_right fun _ => ?_
  exact ⟨fun h => (Except.ok.inj h).symm, fun h => congrArg Except.ok h.symm⟩

/-- A member is read by both, with the same result. -/
theorem sameField {m : Member} {d : Dto.Field} {p : Declaration.Field}
    (hd : Dto.Field.ofMember attestationType m = .ok d)
    (hp : Declaration.Field.ofMember m = .ok p) :
    SameField attestationType m d p := by
  obtain ⟨t, ht, name, type⟩ := Dto.Field.exists_of_ofMember hd
  obtain ⟨t', ht', rfl⟩ := Declaration.Field.ofMember_eq_ok_iff.mp hp
  rw [ht] at ht'
  cases ht'
  refine ⟨name, t, ht, ?_⟩
  rw [type]
  exact MemberType.sameType (MemberType.namesStruct_of_parse ht)

/-! ## Structs -/

theorem Dto.Class.ofStruct_eq_ok_iff {s : StructRecord} {c : Dto.Class} :
    Dto.Class.ofStruct attestationType s = .ok c ↔
      c.name = attestationType ++ "_" ++ s.name ∧
        List.Forall₂ (fun m d => Dto.Field.ofMember attestationType m = .ok d) s.params
          c.fields := by
  rw [Dto.Class.ofStruct, bind_eq_ok_iff]
  constructor
  · rintro ⟨fields, hfields, h⟩
    cases h
    exact ⟨rfl, mapM_eq_ok_iff.mp (inContext_eq_ok_iff.mp hfields)⟩
  · obtain ⟨name, fields⟩ := c
    rintro ⟨rfl, hfields⟩
    exact ⟨fields, inContext_eq_ok_iff.mpr (mapM_eq_ok_iff.mpr hfields), rfl⟩

theorem Declaration.Interface.ofStruct_eq_ok_iff {s : StructRecord}
    {i : Declaration.Interface} :
    Declaration.Interface.ofStruct s = .ok i ↔
      i.doc = docLines s.description ∧ i.name = s.name ∧
        List.Forall₂ (fun m p => Declaration.Field.ofMember m = .ok p) s.params i.fields := by
  rw [Declaration.Interface.ofStruct, bind_eq_ok_iff]
  constructor
  · rintro ⟨fields, hfields, h⟩
    cases h
    exact ⟨rfl, rfl, mapM_eq_ok_iff.mp hfields⟩
  · obtain ⟨doc, name, fields⟩ := i
    rintro ⟨rfl, rfl, hfields⟩
    exact ⟨fields, mapM_eq_ok_iff.mpr hfields, rfl⟩

/-- A struct has a class when each of its members has a type. -/
theorem Dto.Class.exists_ofStruct_iff (h : utf8Size attestationType.toList ≤ Bytes32.size)
    {s : StructRecord} :
    (∃ c, Dto.Class.ofStruct attestationType s = .ok c) ↔
    ∀ m ∈ s.params, ∃ t, MemberType.parse m.type = .ok t := by
  simp only [← Dto.Field.exists_ofMember_iff h, ← exists_mapM_eq_ok_iff, mapM_eq_ok_iff,
    Dto.Class.ofStruct_eq_ok_iff]
  exact ⟨fun ⟨c, _, hc⟩ => ⟨c.fields, hc⟩, fun ⟨fields, hf⟩ => ⟨⟨_, fields⟩, rfl, hf⟩⟩

/-- A struct has an interface when each of its members has a type. -/
theorem Declaration.Interface.exists_ofStruct_iff {s : StructRecord} :
    (∃ i, Declaration.Interface.ofStruct s = .ok i) ↔
    ∀ m ∈ s.params, ∃ t, MemberType.parse m.type = .ok t := by
  have field : ∀ m, (∃ p, Declaration.Field.ofMember m = .ok p) ↔
    ∃ t, MemberType.parse m.type = .ok t := by
    intro m
    simp only [Declaration.Field.ofMember_eq_ok_iff]
    exact ⟨fun ⟨_, t, ht, _⟩ => ⟨t, ht⟩, fun ⟨t, ht⟩ => ⟨_, t, ht, rfl⟩⟩
  simp only [← field, ← exists_mapM_eq_ok_iff, mapM_eq_ok_iff,
    Declaration.Interface.ofStruct_eq_ok_iff]
  exact ⟨fun ⟨i, _, _, hi⟩ => ⟨i.fields, hi⟩, fun ⟨fields, hf⟩ =>
    ⟨⟨_, _, fields⟩, rfl, rfl, hf⟩⟩

theorem sameSchema {s : StructRecord} {c : Dto.Class} {i : Declaration.Interface}
    (hc : Dto.Class.ofStruct attestationType s = .ok c)
    (hi : Declaration.Interface.ofStruct s = .ok i) :
    SameSchema attestationType s c i := by
  obtain ⟨name, fields⟩ := Dto.Class.ofStruct_eq_ok_iff.mp hc
  obtain ⟨-, name', fields'⟩ := Declaration.Interface.ofStruct_eq_ok_iff.mp hi
  refine ⟨name', ?_, .of_forall₂ fields fields' fun _ _ _ => sameField⟩
  rw [name, name']

/-! ## Records -/

/-- Both emitters visit the same structs. -/
theorem perm_structsInOrder (r : TypeRecord) :
    (Dto.structsInOrder r).Perm (Declaration.structsInOrder r) := by
  have further : (r.requestStructs.reverse ++ r.responseStructs.reverse).Perm
    (r.requestStructs ++ r.responseStructs) :=
    r.requestStructs.reverse_perm.append r.responseStructs.reverse_perm
  have last : [r.requestBody, r.request, r.response, r.proof].Perm [r.request, r.response,
    r.proof, r.requestBody] :=
    @List.perm_append_comm _ [r.requestBody] _
  calc Dto.structsInOrder r
    _ ~ r.responseBody :: [r.requestBody, r.request, r.response, r.proof]
          ++ (r.requestStructs.reverse ++ r.responseStructs.reverse) := List.perm_append_comm
    _ ~ r.responseBody :: [r.request, r.response, r.proof, r.requestBody]
          ++ (r.requestStructs ++ r.responseStructs) := (last.cons _).append further
    _ ~ [r.request, r.response, r.proof, r.requestBody] ++ r.requestStructs
      ++ r.responseBody :: r.responseStructs := by
          rw [List.cons_append, ← List.append_assoc]
          exact List.perm_middle.symm

/-- **The classes and the interfaces of a record.**  There are classes exactly when there are
interfaces.  The interfaces, in another order, then describe the same structs as the classes,
one by one: the same names and fields, with types that differ in parentheses and in the prefix
of struct names only. -/
theorem classes_describe_interfaces (r : TypeRecord)
    (h : utf8Size attestationType.toList ≤ 32) :
    ((∃ cs, Dto.classes attestationType r = .ok cs) ↔
      ∃ is, Declaration.interfaces r = .ok is) ∧
      ∀ cs is, Dto.classes attestationType r = .ok cs → Declaration.interfaces r = .ok is →
        ∃ is', is'.Perm is ∧ Forall₃ (SameSchema attestationType) (Dto.structsInOrder r) cs
          is' := by
  constructor
  · rw [Dto.classes, Declaration.interfaces, exists_mapM_eq_ok_iff, exists_mapM_eq_ok_iff]
    constructor
    · intro all s hs
      exact Declaration.Interface.exists_ofStruct_iff.mpr
        ((Dto.Class.exists_ofStruct_iff h).mp (all s ((perm_structsInOrder r).mem_iff.mpr hs)))
    · intro all s hs
      exact (Dto.Class.exists_ofStruct_iff h).mpr
        (Declaration.Interface.exists_ofStruct_iff.mp
          (all s ((perm_structsInOrder r).mem_iff.mp hs)))
  · intro cs is hcs his
    obtain ⟨is', made, perm⟩ :=
      List.perm_comp_forall₂ (perm_structsInOrder r) (mapM_eq_ok_iff.mp his)
    exact ⟨is', perm, .of_forall₂ (mapM_eq_ok_iff.mp hcs) made fun _ _ _ => sameSchema⟩

end Emitters

/-- A record whose request body has a list of lists of a further struct. -/
def nestedRecord : TypeRecord :=
  { (default : TypeRecord) with
    name := "Payment"
    requestBody :=
      { (default : StructRecord) with
        name := "RequestBody"
        params := [⟨"entries", "struct IPayment.Entry[][2]", "Entry[][2]", ""⟩] }
    requestStructs :=
      [{ (default : StructRecord) with
          name := "Entry"
          params := [⟨"known", "bool", "bool", ""⟩] }] }

/-- The classes and the interfaces of that record. -/
theorem classes_describe_nestedRecord :
    utf8Size "Payment".toList ≤ 32 ∧ ∃ cs is is', Dto.classes "Payment" nestedRecord = .ok cs ∧
      Declaration.interfaces nestedRecord = .ok is ∧ is'.Perm is ∧
      Forall₃ (SameSchema "Payment") (Dto.structsInOrder nestedRecord) cs is' := by
  have fits : utf8Size "Payment".toList ≤ 32 := by decide
  have known : MemberType.read "bool".toList = some .bool :=
    MemberType.read_of_no_suffix (by decide)
  have entry : MemberType.read "struct IPayment.Entry".toList
      = some (.struct "IPayment.Entry") :=
    MemberType.read_of_no_suffix (by decide)
  have list : MemberType.read "struct IPayment.Entry[]".toList
      = some (.array (.struct "IPayment.Entry") none) := by
    rw [MemberType.read_of_suffix
      (show MemberType.arraySuffix? (trim "struct IPayment.Entry[]".toList)
        = some ("struct IPayment.Entry".toList, [])
        by decide), entry]
    rfl
  have entries : MemberType.read "struct IPayment.Entry[][2]".toList
      = some (.array (.array (.struct "IPayment.Entry") none) (some 2)) := by
    rw [MemberType.read_of_suffix
      (show MemberType.arraySuffix? (trim "struct IPayment.Entry[][2]".toList)
        = some ("struct IPayment.Entry[]".toList, "2".toList) by decide), list]
    rfl
  have typed : ∃ is, Declaration.interfaces nestedRecord = .ok is := by
    rw [Declaration.interfaces, exists_mapM_eq_ok_iff]
    simp only [Declaration.Interface.exists_ofStruct_iff, MemberType.parse_eq_ok_iff]
    intro s hs m hm
    have members : (Declaration.structsInOrder nestedRecord).flatMap (·.params)
        = [⟨"entries", "struct IPayment.Entry[][2]", "Entry[][2]", ""⟩,
          ⟨"known", "bool", "bool", ""⟩] := rfl
    have member := List.mem_flatMap.mpr ⟨s, hs, hm⟩
    rw [members, List.mem_pair] at member
    rcases member with rfl | rfl
    · exact ⟨_, entries⟩
    · exact ⟨_, known⟩
  obtain ⟨both, each⟩ := classes_describe_interfaces nestedRecord fits
  obtain ⟨cs, hcs⟩ := both.mpr typed
  obtain ⟨is, his⟩ := typed
  obtain ⟨is', perm, same⟩ := each cs is hcs his
  exact ⟨fits, cs, is, is', hcs, his, perm, same⟩

end Attestation
