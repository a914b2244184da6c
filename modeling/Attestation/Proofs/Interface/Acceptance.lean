import Attestation.Proofs.Interface.Placing
import Mathlib.Algebra.GroupWithZero.Nat
import Mathlib.Data.Finset.Card

/-!
# When an interface is accepted

An interface is accepted when it has all required structs and each of its structs documents its
members, every one of them once and nothing else.  Otherwise it is refused with the number of
its faults (`SourceUnit.checkedRecord_cases`).

## Main definitions

* `StructDefinition.faults`, `ContractDefinition.faults`: the faults, counted on the
  declarations.
* `SourceUnit.checkedRecord`: the record of a file, or why there is none.

## Design notes

The reader reports issues while it goes along the structs, and counts the severe ones in the
end.  The faults are counted without it: how many required structs are missing, and for each
struct how many members are undocumented and how many documented names are repeated or unknown.
Both counts agree struct by struct (`StructDefinition.countP_reading`), so that the number in
the message is a fact about the declarations.
-/

namespace Attestation

open Text

/-! ## Faults -/

namespace StructDefinition

/-- How many members are not documented.  A member whose name occurs twice counts twice, as it
is reported twice. -/
def undocumented (s : StructDefinition) : Nat :=
  (s.memberNames.filter (· ∉ s.paramNames)).length

/-- How many parameter documentations repeat an earlier one. -/
def repeated (s : StructDefinition) : Nat := s.paramNames.length - s.paramNames.toFinset.card

/-- How many names are documented that no member has. -/
def unknown (s : StructDefinition) : Nat :=
  (s.paramNames.toFinset \ s.memberNames.toFinset).card

/-- How many faults the documentation of the members has. -/
def faults (s : StructDefinition) : Nat := s.undocumented + s.repeated + s.unknown

/-- The members are documented, each once and nothing else.  It compares sets of names, in no
order, while the checks go through lists and count. -/
def Complete (s : StructDefinition) : Prop :=
  s.paramNames.Nodup ∧ s.paramNames.toFinset = s.memberNames.toFinset

theorem faults_eq_zero_iff (s : StructDefinition) : s.faults = 0 ↔ s.Complete := by
  have known : s.unknown = 0 ↔ s.paramNames.toFinset ⊆ s.memberNames.toFinset := by
    rw [unknown, Finset.card_eq_zero, Finset.sdiff_eq_empty_iff_subset]
  have documented : s.undocumented = 0 ↔ s.memberNames.toFinset ⊆ s.paramNames.toFinset := by
    rw [undocumented, List.length_eq_zero_iff, List.filter_eq_nil_iff]
    simp [Finset.subset_iff]
  have once : s.repeated = 0 ↔ s.paramNames.Nodup := by
    rw [repeated, Nat.sub_eq_zero_iff_le]
    constructor
    · exact fun h => Multiset.coe_nodup.mp (Multiset.toFinset_card_eq_card_iff_nodup.mp
        (Nat.le_antisymm (List.toFinset_card_le _) h))
    · exact fun h => (List.toFinset_card_of_nodup h).ge
  rw [faults, Nat.add_eq_zero_iff, Nat.add_eq_zero_iff, known, documented, once, Complete]
  constructor
  · rintro ⟨⟨h, nodup⟩, h'⟩
    exact ⟨nodup, Finset.Subset.antisymm h' h⟩
  · rintro ⟨nodup, same⟩
    exact ⟨⟨same.ge, nodup⟩, same.le⟩

end StructDefinition

namespace ContractDefinition

/-- How many required structs are missing. -/
def missing (c : ContractDefinition) : Nat := (requiredNames.filter (· ∉ c.structNames)).length

/-- How many faults the contract has. -/
def faults (c : ContractDefinition) : Nat :=
  c.missing + (c.structs.map StructDefinition.faults).sum

/-- The contract has all required structs, and all its structs document their members. -/
def Acceptable (c : ContractDefinition) : Prop :=
  (∀ name ∈ requiredNames, name ∈ c.structNames) ∧ ∀ s ∈ c.structs, s.Complete

theorem missing_eq_zero_iff (c : ContractDefinition) :
    c.missing = 0 ↔ ∀ name ∈ requiredNames, name ∈ c.structNames := by
  rw [missing, List.length_eq_zero_iff, List.filter_eq_nil_iff]
  simp

theorem faults_eq_zero_iff (c : ContractDefinition) : c.faults = 0 ↔ c.Acceptable := by
  have sum : (c.structs.map StructDefinition.faults).sum = 0 ↔
    ∀ s ∈ c.structs, s.Complete := by
    simp [List.sum_eq_zero_iff_forall_eq_nat, StructDefinition.faults_eq_zero_iff]
  rw [faults, Nat.add_eq_zero_iff, missing_eq_zero_iff, sum, Acceptable]

end ContractDefinition

/-- The record of a file, if its interface is accepted.  It is what the commands compute: an
interface is read, and then refused if an error has been found. -/
def SourceUnit.checkedRecord (u : SourceUnit) : Except SchemaError TypeRecord :=
  Extraction.ofUnit u >>= Extraction.checked

instance (s : StructDefinition) : Decidable s.Complete := inferInstanceAs (Decidable (_ ∧ _))

instance (c : ContractDefinition) : Decidable c.Acceptable :=
  inferInstanceAs (Decidable (_ ∧ _))

/-! ## The errors of a struct -/

/-- The errors of the parameter documentations, given the names that came before. -/
theorem countP_paramIssues (interface : String) (s : StructDefinition)
    (seen names : List String) :
    (paramIssues interface s seen names).countP Issue.isError +
      (names.toFinset \ seen.toFinset).card
      = names.length + ((names.toFinset \ seen.toFinset) \ s.memberNames.toFinset).card := by
  induction names generalizing seen with
  | nil => simp [paramIssues]
  | cons name names ih =>
      have rest := ih (name :: seen)
      have member : s.members.any (·.name = name) = true ↔ name ∈ s.memberNames.toFinset := by
        simp [StructDefinition.memberNames]
      rw [paramIssues, List.countP_append, List.length_cons]
      -- A repeated name counts once itself and adds nothing to the names; a new one is counted
      -- if it is no member.
      by_cases old : name ∈ seen
      · have same : (name :: names).toFinset \ seen.toFinset
            = names.toFinset \ (name :: seen).toFinset := by
          ext x
          by_cases hx : x = name <;> simp [hx, old]
        have error : (if seen.contains name then [Issue.repeatedParam interface s.name name]
            else if s.members.any (·.name = name) then []
            else [.unknownParam interface s.name name]).countP Issue.isError = 1 := by
          simp [old, Issue.isError, Issue.severity]
        rw [same, error]
        omega
      · have fresh : name ∉ names.toFinset \ (name :: seen).toFinset := by simp
        have more : (name :: names).toFinset \ seen.toFinset
            = insert name (names.toFinset \ (name :: seen).toFinset) := by
          ext x
          by_cases hx : x = name <;> simp [hx, old]
        rw [more, Finset.card_insert_of_notMem fresh]
        by_cases known : name ∈ s.memberNames.toFinset
        · have error : (if seen.contains name then [Issue.repeatedParam interface s.name name]
              else if s.members.any (·.name = name) then []
              else [.unknownParam interface s.name name]).countP Issue.isError = 0 := by
            rw [if_neg (by simpa using old), if_pos (member.mpr known)]
            rfl
          rw [error, Finset.insert_sdiff_of_mem _ known]
          omega
        · have error : (if seen.contains name then [Issue.repeatedParam interface s.name name]
              else if s.members.any (·.name = name) then []
              else [.unknownParam interface s.name name]).countP Issue.isError = 1 := by
            rw [if_neg (by simpa using old), if_neg (fun h => known (member.mp h))]
            rfl
          have fresh' : name ∉ (names.toFinset \ (name :: seen).toFinset) \
            s.memberNames.toFinset :=
            fun h => fresh (Finset.mem_sdiff.mp h).1
          rw [error, Finset.insert_sdiff_of_notMem _ known,
            Finset.card_insert_of_notMem fresh']
          omega

theorem commentOf_eq_none_iff {documented : List (String × String)} {name : String} :
    commentOf documented name = none ↔ name ∉ documented.map (·.1) := by
  rw [commentOf, Option.map_eq_none_iff, List.find?_eq_none, List.mem_map, not_exists]
  simp

/-- The errors of the members. -/
theorem countP_memberIssues (interface : String) (s : StructDefinition) :
    (memberIssues interface s s.documented).countP Issue.isError = s.undocumented := by
  have all : ∀ issue ∈ memberIssues interface s s.documented, issue.isError = true := by
    intro issue h
    obtain ⟨v, -, rfl⟩ := List.mem_map.mp h
    rfl
  rw [List.countP_eq_length.mpr all, memberIssues, List.length_map,
    StructDefinition.undocumented,
    StructDefinition.memberNames, List.filter_map, List.length_map]
  congr 1
  refine List.filter_congr fun v _ => ?_
  rw [Bool.eq_iff_iff, Option.isNone_iff_eq_none, commentOf_eq_none_iff, Function.comp_apply,
    decide_eq_true_iff]
  rfl

/-- **The errors of a struct** are the faults of its documentation.  The other issues of a
reading are warnings, which do not count. -/
theorem StructDefinition.countP_reading (interface : String) (s : StructDefinition) :
    (s.reading interface).issues.countP Issue.isError = s.faults := by
  have warning : (if Doc.hasText s.documentation then []
      else [Issue.undocumentedStruct interface s.name]).countP Issue.isError = 0 := by
    split <;> rfl
  have params := countP_paramIssues interface s [] s.paramNames
  simp only [List.toFinset_nil, Finset.sdiff_empty] at params
  have bound := List.toFinset_card_le s.paramNames
  rw [reading, List.countP_append, List.countP_append, warning, countP_memberIssues, faults,
    repeated, unknown]
  omega

/-! ## The errors of a contract -/

namespace Extraction

variable (c : ContractDefinition)

/-- A required struct is there if one has its name. -/
theorem isNone_structAt_iff {name : String} {slot : Slot}
    (hslot : (name, slot) ∈ Slot.required) :
    (structAt slot c.placed).isNone = true ↔ name ∉ c.structNames := by
  rw [structAt, ContractDefinition.placed, structsAt_required hslot, Option.isNone_iff_eq_none,
    List.getLast?_eq_none_iff, List.map_eq_nil_iff, List.filter_eq_nil_iff, ← c.names_readings]
  simp

theorem length_missing : (missing c.name c.placed).length = c.missing := by
  rw [missing, List.length_map, ContractDefinition.missing, requiredNames, List.filter_map,
    List.length_map]
  congr 1
  refine List.filter_congr fun entry hentry => ?_
  rw [Bool.eq_iff_iff, isNone_structAt_iff c
    (show (entry.1, entry.2) ∈ Slot.required from hentry)]
  simp

/-- A record is made if no required struct is missing. -/
theorem isSome_recordOf_iff : (recordOf c c.placed).isSome = true ↔ c.missing = 0 := by
  have found : ∀ {name slot}, (name, slot) ∈ Slot.required →
      ((structAt slot c.placed).isSome = true ↔ name ∈ c.structNames) := by
    intro name slot hslot
    rw [Option.isSome_iff_ne_none, ne_eq, ← Option.isNone_iff_eq_none,
      isNone_structAt_iff c hslot, not_not]
  rw [ContractDefinition.missing_eq_zero_iff]
  simp only [requiredNames, Slot.required, List.map_cons, List.map_nil, List.forall_mem_cons,
    List.not_mem_nil, false_implies, implies_true, and_true]
  rw [← found (show ("Request", .request) ∈ Slot.required by decide),
    ← found (show ("Response", .response) ∈ Slot.required by decide),
    ← found (show ("Proof", .proof) ∈ Slot.required by decide),
    ← found (show ("RequestBody", .requestBody) ∈ Slot.required by decide),
    ← found (show ("ResponseBody", .responseBody) ∈ Slot.required by decide)]
  simp only [recordOf, Option.bind_eq_bind, Option.pure_def]
  cases structAt .proof c.placed <;> cases structAt .request c.placed <;>
    cases structAt .response c.placed <;> cases structAt .requestBody c.placed <;>
    cases structAt .responseBody c.placed <;> simp

theorem countP_placedIssues (p : Slot × StructReading) :
    (placedIssues c.name p).countP Issue.isError = p.2.issues.countP Issue.isError := by
  unfold placedIssues
  split
  · rw [List.countP_append]
    rfl
  · rfl

theorem countP_structs : (c.placed.flatMap (placedIssues c.name)).countP Issue.isError
    = (c.structs.map StructDefinition.faults).sum := by
  have each : List.countP Issue.isError ∘ placedIssues c.name
      = (fun r : StructReading => r.issues.countP Issue.isError) ∘ (·.2) :=
    funext (countP_placedIssues c)
  have faults : (fun r : StructReading => r.issues.countP Issue.isError) ∘
    (StructDefinition.reading c.name)
      = StructDefinition.faults :=
    funext (StructDefinition.countP_reading c.name)
  rw [List.countP_flatMap, each, ← List.map_map, ContractDefinition.placed, map_place,
    ContractDefinition.readings, List.map_map, faults]

/-- **The errors of a contract** are its faults: one for each required struct that is missing,
and those of each struct, whatever place it is given. -/
theorem errorCount_ofPlaced : (ofPlaced c c.placed).errorCount = c.faults := by
  have warning : (if Doc.hasText c.documentation then []
      else [Issue.undocumentedInterface c.name]).countP Issue.isError = 0 := by
    split <;> rfl
  have allErrors : ∀ issue ∈ missing c.name c.placed, issue.isError = true := by
    intro issue hi
    obtain ⟨_, -, rfl⟩ := List.mem_map.mp hi
    rfl
  rw [errorCount, ofPlaced, List.countP_append, List.countP_append, warning, countP_structs,
    List.countP_eq_length.mpr allErrors, length_missing, ContractDefinition.faults]
  omega

theorem hasErrors_eq_false_iff {e : Extraction} : e.hasErrors = false ↔ e.errorCount = 0 := by
  rw [hasErrors, errorCount, List.any_eq_false, List.countP_eq_zero]

/-- The record is given out if there is one and none of the problems is an error. -/
theorem checked_eq_ok_iff {e : Extraction} {r : TypeRecord} :
    e.checked = .ok r ↔ e.record = some r ∧ e.hasErrors = false := by
  rw [hasErrors_eq_false_iff, checked]
  cases e.record with
  | none => exact ⟨nofun, nofun⟩
  | some record =>
      dsimp only
      split <;> simp_all

/-- A contract without faults has a record, and any other one is refused. -/
theorem checked_ofPlaced : (c.faults = 0 → ∃ r, (ofPlaced c c.placed).checked = .ok r) ∧
    (c.faults ≠ 0 → (ofPlaced c c.placed).checked
      = .error (.inconsistent c.name c.faults)) := by
  constructor
  · intro none
    have all : c.missing = 0 := by
      rw [ContractDefinition.faults] at none
      omega
    obtain ⟨r, hrec⟩ := Option.isSome_iff_exists.mp ((isSome_recordOf_iff c).mpr all)
    exact ⟨r, checked_eq_ok_iff.mpr ⟨hrec,
      hasErrors_eq_false_iff.mpr ((errorCount_ofPlaced c).trans none)⟩⟩
  · intro some
    have interface : (ofPlaced c c.placed).interface = c.name := rfl
    rw [checked, interface, errorCount_ofPlaced]
    cases (ofPlaced c c.placed).record with
    | none => rfl
    | some r => simp [some]

end Extraction

/-! ## The verdict -/

namespace SourceUnit

/-- **When an interface is accepted**, and otherwise why not.  A file without a contract or
with several ones has an error that says so, and a parameter without a name is told with the
struct that it was found in.  In all other cases the interface is accepted exactly if it is
acceptable, and the error tells how many faults it has. -/
theorem checkedRecord_cases (u : SourceUnit) :
    (u.contracts = [] → u.checkedRecord = .error .noInterface) ∧
    (∀ first second more, u.contracts = first :: second :: more →
      u.checkedRecord = .error (.multipleContracts first.name second.name)) ∧
    ∀ c, u.contracts = [c] →
      (∀ before s after line, c.structs = before ++ s :: after → (∀ t ∈ before, t.Named) →
        Doc.params s.documentation = .error line →
        u.checkedRecord = .error (.unparsableParam (c.name ++ "." ++ s.name) line)) ∧
      ((∀ s ∈ c.structs, s.Named) →
        ((∃ r, u.checkedRecord = .ok r) ↔ c.Acceptable) ∧
        (¬ c.Acceptable → u.checkedRecord = .error (.inconsistent c.name c.faults))) := by
  refine ⟨fun hu => ?_, fun first second more hu => ?_, fun c hu => ?_⟩
  · rw [checkedRecord, Extraction.ofUnit, hu]
    rfl
  · rw [checkedRecord, Extraction.ofUnit, hu]
    rfl
  · have only : u.checkedRecord = Extraction.ofContract c >>= Extraction.checked := by
      rw [checkedRecord, Extraction.ofUnit, hu]
    refine ⟨fun before s after line hc good bad => ?_, fun named => ?_⟩
    · rw [only, Extraction.ofContract_eq_error hc good bad]
      rfl
    · obtain ⟨accepted, refused⟩ := Extraction.checked_ofPlaced c
      have only : u.checkedRecord = (Extraction.ofPlaced c c.placed).checked := by
        rw [only, Extraction.ofContract_eq_ok named]
        rfl
      simp only [only, ← ContractDefinition.faults_eq_zero_iff]
      refine ⟨⟨fun ⟨r, hr⟩ => ?_, accepted⟩, refused⟩
      by_contra some
      rw [refused some] at hr
      cases hr

/-- A struct with the given documentation and members. -/
def sampleStruct (name documentation : String) (members : List String) : StructDefinition :=
  ⟨name, some documentation, members.map fun m => ⟨m, some "uint256"⟩⟩

/-- A contract with the given structs. -/
def sampleContract (structs : List StructDefinition) : ContractDefinition :=
  ⟨"IPayment", some "interface", none, structs.map some⟩

/-- A file with one contract that has the given structs. -/
def sampleUnit (structs : List StructDefinition) : SourceUnit :=
  ⟨none, [none, some (sampleContract structs)]⟩

/-- The five required structs. -/
def sampleStructs : List StructDefinition :=
  [sampleStruct "Request" "@param a first @param b second" ["b", "a"],
    sampleStruct "Response" "" [],
    sampleStruct "Proof" "" [], sampleStruct "RequestBody" "" [],
    sampleStruct "ResponseBody " "" []]

/-- Structs with seven faults: four required ones are missing, a parameter is documented twice,
another one is no member, and a member is not documented. -/
def faultyStructs : List StructDefinition :=
  [sampleStruct "Leaf" "@param x @param x again @param y" ["x", "z"],
    sampleStruct "Proof" "" []]

/-- An interface with the required structs is accepted, one with seven faults is refused with
their number, and a nameless parameter is quoted. -/
theorem checkedRecord_samples :
    checkedRecord ⟨none, [none]⟩ = .error .noInterface ∧
    checkedRecord ⟨none, [some ⟨"A", none, none, []⟩, none, some ⟨"B", none, none, []⟩]⟩
      = .error (.multipleContracts "A" "B") ∧
    checkedRecord (sampleUnit [sampleStruct "Proof" "" [],
      sampleStruct "Leaf" "@param x @param  @param" []])
      = .error (.unparsableParam "IPayment.Leaf" "") ∧
    (∃ r, checkedRecord (sampleUnit sampleStructs) = .ok r) ∧
    checkedRecord (sampleUnit faultyStructs) = .error (.inconsistent "IPayment" 7) := by
  refine ⟨?_, ?_, ?_, ?_, ?_⟩
  · exact (checkedRecord_cases _).1 rfl
  · refine (checkedRecord_cases _).2.1 ⟨"A", none, none, []⟩ ⟨"B", none, none, []⟩ [] ?_
    rfl
  · have nameless := ((checkedRecord_cases (sampleUnit [sampleStruct "Proof" "" [],
      sampleStruct "Leaf" "@param x @param  @param" []])).2.2 _ rfl).1
        [sampleStruct "Proof" "" []]
    refine nameless (sampleStruct "Leaf" "@param x @param  @param" []) [] "" rfl ?_ ?_
    · decide +kernel
    · decide +kernel
  · have verdict := ((checkedRecord_cases (sampleUnit sampleStructs)).2.2
      (sampleContract sampleStructs) rfl).2
    refine (verdict ?_).1.mpr ?_
    · decide +kernel
    · decide +kernel
  · have verdict := ((checkedRecord_cases (sampleUnit faultyStructs)).2.2
      (sampleContract faultyStructs) rfl).2
    have count : (sampleContract faultyStructs).faults = 7 := by decide +kernel
    rw [← count]
    refine (verdict ?_).2 ?_
    · decide +kernel
    · rw [← ContractDefinition.faults_eq_zero_iff, count]
      decide

end SourceUnit

end Attestation
