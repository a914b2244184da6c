import Attestation.Compiler.Abi
import Attestation.Compiler.TypeUnit
import Attestation.Proofs.Failure
import Attestation.Proofs.Interface.Acceptance
import Attestation.Proofs.NameMap
import Attestation.Proofs.Record.Codec
import Attestation.Proofs.Workspace.Run

/-!
# What is loaded from a project

Loading only looks at files.  A type that has been loaded belongs to a file of the interface
directory (`TypeUnit.exists_file_of_loadAll`), and the shapes of messages that have been loaded
can be kept with a record (`Abi.isFound_of_loadAll`).

## Design notes

Loading fails in many places and changes nothing in any of them, so the frame comes first: a
lemma for each step says that the files stay as they are.  What a successful load tells is then
read off the steps one by one, and only as far as a later command depends on it: where a type
lies, and that a shape can be written and read again.
-/

namespace Attestation

open Json FileTree Plan

variable {s : Settings} {w w' : Workspace}

/-! ## Types -/

theorem keepsFiles_buildInfo (s : Settings) : (BuildInfo.load s).KeepsFiles := by
  refine keepsFiles_bind (keepsFiles_list _ _) fun entries => ?_
  split
  · refine keepsFiles_bind (keepsFiles_readText _ _) fun text => ?_
    split
    · exact keepsFiles_pure _
    · exact keepsFiles_fail _
  · exact keepsFiles_fail _

namespace TypeUnit

theorem keepsFiles_loadAll (s : Settings) : (loadAll s).KeepsFiles :=
  keepsFiles_bind (keepsFiles_buildInfo s) fun _ =>
  keepsFiles_bind (keepsFiles_filesEnding _ _) fun _ =>
    keepsFiles_bind (keepsFiles_ofExcept _) fun _ => keepsFiles_pure _

theorem keepsFiles_record (t : TypeUnit) : t.record.KeepsFiles :=
  keepsFiles_bind (keepsFiles_ofExcept _) fun _ =>
  keepsFiles_bind (keepsFiles_logAll _) fun _ =>
    keepsFiles_ofExcept _

/-- The types that are loaded stand in the order of their names, and each belongs to a file. -/
theorem exists_file_of_loadAll {units : List TypeUnit}
    (h : (loadAll s).runIn w = (.ok units, w')) :
    units.Pairwise (fun a b => a.name ≤ b.name) ∧
      ∀ t ∈ units, t.name = TypeName.ofFile t.file ∧
        ∃ content, w.files.get? (placeOf (s.resolve s.locations.typeInterfaceDefinitions)
          ++ [t.file])
          = some (.file content) := by
  obtain ⟨build, v, hbuild, h⟩ := runIn_bind_ok_iff.mp h
  obtain ⟨files, v', listed, h⟩ := runIn_bind_ok_iff.mp h
  obtain ⟨found, v'', hfound, h⟩ := runIn_bind_ok_iff.mp h
  obtain ⟨rfl, -⟩ := runIn_pure_ok_iff.mp h
  obtain ⟨hfound, -⟩ := runIn_ofExcept_ok_iff.mp hfound
  refine ⟨?_, fun t ht => ?_⟩
  · have ordered : (sorted found).Pairwise fun a b => decide (a.name ≤ b.name) = true :=
      List.pairwise_mergeSort
        (fun a b c hab hbc => by
          rw [decide_eq_true_eq] at hab hbc ⊢
          exact String.le_trans hab hbc)
        (fun a b => by
          rw [Bool.or_eq_true, decide_eq_true_eq, decide_eq_true_eq]
          exact String.le_total a.name b.name) found
    exact ordered.imp fun h => of_decide_eq_true h
  · have hmem : t ∈ found := (List.mergeSort_perm _ _).mem_iff.mp ht
    obtain ⟨file, hfile, made⟩ := exists_of_mem_mapM (orFail_eq_ok_iff.mp hfound) t hmem
    unfold find at made
    dsimp only at made
    split at made
    · cases made
      rw [runIn_filesEnding_ok listed] at hfile
      have there := (mem_fileNames_entriesAt_iff.mp hfile).1
      rw [(keepsFiles_buildInfo s).files_eq hbuild] at there
      exact ⟨rfl, there⟩
    · cases made

/-- A type has a record when its interface is accepted. -/
theorem checkedRecord_of_record {t : TypeUnit} {r : TypeRecord}
    (h : t.record.runIn w = (.ok r, w')) :
    t.tree.checkedRecord = .ok r := by
  obtain ⟨extraction, v, read, h⟩ := runIn_bind_ok_iff.mp h
  obtain ⟨_, v', -, h⟩ := runIn_bind_ok_iff.mp h
  have read := orFail_eq_ok_iff.mp (inContext_eq_ok_iff.mp (runIn_ofExcept_ok_iff.mp read).1)
  have accepted := orFail_eq_ok_iff.mp (inContext_eq_ok_iff.mp (runIn_ofExcept_ok_iff.mp h).1)
  rw [SourceUnit.checkedRecord, read]
  exact accepted

end TypeUnit

/-! ## Shapes -/

namespace Abi

theorem keepsFiles_load (path : Path) (contract : String) :
    (load path contract).KeepsFiles := by
  refine keepsFiles_bind (keepsFiles_readText _ _) fun text => ?_
  split
  · exact keepsFiles_ofExcept _
  · exact keepsFiles_fail _

theorem keepsFiles_addFile (compiled : Path) (found : NameMap AbiDefinitions) (file : String) :
    (addFile compiled found file).KeepsFiles := by
  unfold addFile
  dsimp only
  split
  · exact keepsFiles_bind (keepsFiles_log _) fun _ => keepsFiles_pure _
  · exact keepsFiles_bind (keepsFiles_load _ _) fun _ => keepsFiles_pure _

theorem keepsFiles_loadAll (s : Settings) : (loadAll s).KeepsFiles :=
  keepsFiles_bind (keepsFiles_filesEnding _ _) fun files =>
    keepsFiles_foldlM (keepsFiles_addFile
      (s.resolve s.locations.temporaryContractsCompilation)) files .empty

/-- Values as they are found in compiler output: no object repeats a field, and a record has
room around them. -/
structure IsFound (j : Json) : Prop where
  merged : IsMerged j
  fits : Fits (maxDepth - 1) j

theorem isFound_of_entriesOf {text : String} {entries : List Json}
    (h : (Json.parse text).bind entriesOf = some entries) : ∀ e ∈ entries, IsFound e := by
  obtain ⟨j, parsed, h⟩ := Option.bind_eq_some_iff.mp h
  obtain ⟨r, hr, h⟩ := Option.bind_eq_some_iff.mp h
  obtain ⟨v, hv, listed⟩ := Record.exists_of_required h
  have fits := (fits_of_parse parsed).of_record hr _ hv
  unfold Json.list at listed
  split at listed
  · next items =>
      have each : ∀ items : List Json, items.mapM any = some (items.map merged) := by
        intro items
        induction items with
        | nil => rfl
        | cons item more ih => simp [any, ih]
      rw [each, Option.some.injEq] at listed
      subst listed
      cases fits with
      | array parts =>
          refine List.forall_mem_map.mpr fun item hitem => ⟨isMerged_merged item, ?_⟩
          exact (parts item hitem).merged.mono (Nat.le_succ _)
  · cases listed

theorem isFound_of_firstInput {entries : List Json} {contract function : String} {j : Json}
    (found : ∀ e ∈ entries, IsFound e) (h : firstInput entries contract function = .ok j) :
    IsFound j := by
  unfold firstInput at h
  dsimp only at h
  split at h
  · next input =>
      cases h
      obtain ⟨e, he, input⟩ := Option.bind_eq_some_iff.mp input
      obtain ⟨inputs, hinputs, item⟩ := Option.bind_eq_some_iff.mp input
      have entry := found e (List.mem_of_find?_eq_some he)
      exact ⟨(entry.merged.of_field? hinputs).of_item? item,
        (entry.fits.of_field? hinputs).of_item? item⟩
  · cases h

/-- The shapes of the messages are the first parameters of three functions. -/
theorem ofEntries_eq_ok_iff {entries : List Json} {contract : String} {abi : AbiDefinitions} :
    ofEntries entries contract = .ok abi ↔
    firstInput entries contract "request" = .ok abi.request ∧
      firstInput entries contract "response" = .ok abi.response ∧
      firstInput entries contract "proof" = .ok abi.proof := by
  constructor
  · intro h
    obtain ⟨request, hrequest, h⟩ := bind_eq_ok_iff.mp h
    obtain ⟨response, hresponse, h⟩ := bind_eq_ok_iff.mp h
    obtain ⟨proof, hproof, h⟩ := bind_eq_ok_iff.mp h
    cases h
    exact ⟨hrequest, hresponse, hproof⟩
  · rintro ⟨request, response, proof⟩
    exact bind_eq_ok_iff.mpr ⟨_, request, bind_eq_ok_iff.mpr ⟨_, response,
      bind_eq_ok_iff.mpr ⟨_, proof, rfl⟩⟩⟩

theorem isFound_of_load {path : Path} {contract : String} {abi : AbiDefinitions}
    (h : (load path contract).runIn w = (.ok abi, w')) :
    IsFound abi.request ∧ IsFound abi.response ∧ IsFound abi.proof := by
  obtain ⟨text, v, -, h⟩ := runIn_bind_ok_iff.mp h
  split at h
  · next entries hentries =>
      have found := isFound_of_entriesOf hentries
      have made := orFail_eq_ok_iff.mp (runIn_ofExcept_ok_iff.mp h).1
      obtain ⟨request, response, proof⟩ := ofEntries_eq_ok_iff.mp made
      exact ⟨isFound_of_firstInput found request, isFound_of_firstInput found response,
        isFound_of_firstInput found proof⟩
  · cases h

/-- The shapes that are loaded are values as they are found in compiler output. -/
theorem isFound_of_loadAll {abis : NameMap AbiDefinitions}
    (h : (loadAll s).runIn w = (.ok abis, w'))
    {name : String} {abi : AbiDefinitions} (habi : abis.get? name = some abi) :
    IsFound abi.request ∧ IsFound abi.response ∧ IsFound abi.proof := by
  obtain ⟨files, v, -, h⟩ := runIn_bind_ok_iff.mp h
  refine foldlM_runIn_induction
    (fun _ (m : NameMap AbiDefinitions) _ => ∀ {name abi}, m.get? name = some abi →
      IsFound abi.request ∧ IsFound abi.response ∧ IsFound abi.proof) ?_ ?_ h habi
  · intro _ found file found' v v' _ hfound run name abi habi
    unfold addFile at run
    dsimp only at run
    split at run
    · obtain ⟨_, v₁, -, run⟩ := runIn_bind_ok_iff.mp run
      obtain ⟨rfl, -⟩ := runIn_pure_ok_iff.mp run
      exact hfound habi
    · obtain ⟨loaded, v₁, load, run⟩ := runIn_bind_ok_iff.mp run
      obtain ⟨rfl, -⟩ := runIn_pure_ok_iff.mp run
      rw [NameMap.get?_insert] at habi
      split at habi
      · cases habi
        exact isFound_of_load load
      · exact hfound habi
  · intro name abi habi
    cases habi

end Abi

end Attestation
