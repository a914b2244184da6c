import Attestation.Proofs.Path.Joining

/-!
# The way undoes joining

The way from a directory to a place, joined to the directory, is a path of the place, whatever
the two paths look like (`normal_join_relative`).  It leads up first, and no further than to
where the two places part.

## Design notes

Paths are compared after normalisation, because the joined path still holds the parent steps of
the way.  The number of these steps is counted from the longest common prefix of the two places
(`exists_longest_common`), which makes the way the shortest one.  Only empty paths are
excluded: an empty text names no place for the operations involved.
-/

namespace Attestation.Path

open FileTree Text

section Way

variable (here : Path) {source target : Path}

/-- A step of the way is read back from its text, which is no dot. -/
theorem ofPiece?_of_mem_steps (hs : source.text ≠ "") (ht : target.text ≠ "") {c : Component}
    (hc : c ∈ steps here source target) :
    c.text.toList ≠ ['.'] ∧ Component.ofPiece? c.text.toList = some c := by
  obtain ⟨common, ups, downs, -, arrival, way⟩ := exists_way here hs ht
  rw [way, List.mem_append, List.mem_map, List.mem_map] at hc
  rcases hc with ⟨-, -, rfl⟩ | ⟨name, hname, rfl⟩
  · exact ⟨by decide, by decide⟩
  · have entry : IsEntryName name :=
      isEntryName_of_mem_names (arrival ▸ List.mem_append_right common hname)
    have dot : name.toList ≠ ['.'] := fun h => entry.ne_here (String.toList_inj.mp h)
    have up : name.toList ≠ ['.', '.'] := fun h => entry.ne_up (String.toList_inj.mp h)
    refine ⟨dot, ?_⟩
    rw [Component.text, Component.ofPiece?,
      if_neg (by simp [isIdle, entry.nonempty, dot]), if_neg up,
      String.ofList_toList]

theorem isAbsolute_relative (hs : source.text ≠ "") :
    (⟨relative here source target⟩ : Path).isAbsolute = false := by
  rw [isAbsolute, decide_eq_false_iff_not]
  by_cases nothing : steps here source target = []
  · rw [relative, nothing]
    decide
  · rw [relative_eq_join here nothing]
    refine head?_intercalate fun piece hpiece => ?_
    rw [List.map_map] at hpiece
    obtain ⟨c, hc, rfl⟩ := List.mem_map.mp hpiece
    exact isItem_of_mem_steps hs hc

/-- **The way is written as it is**: its text has no other components than its steps. -/
theorem components_relative (hs : source.text ≠ "") (ht : target.text ≠ "")
    (way : steps here source target ≠ []) :
    components ⟨relative here source target⟩ = steps here source target := by
  have cut : List.splitOn '/' (relative here source target).toList
      = ((steps here source target).map Component.text).map String.toList := by
    rw [relative_eq_join here way, List.splitOn_intercalate _ ?_ (by simpa using way)]
    intro piece hpiece
    rw [List.map_map] at hpiece
    obtain ⟨c, hc, rfl⟩ := List.mem_map.mp hpiece
    exact (isItem_of_mem_steps hs hc).2
  have start : startsHere (relative here source target).toList = false := by
    rw [startsHere, cut, decide_eq_false_iff_not, List.map_map]
    intro dot
    obtain ⟨c, hc, text⟩ := List.mem_map.mp (List.mem_of_mem_head? dot)
    exact (ofPiece?_of_mem_steps here hs ht hc).1 text
  have read : (List.splitOn '/' (relative here source target).toList).filterMap
    Component.ofPiece?
      = steps here source target := by
    rw [cut, List.map_map, List.filterMap_map]
    exact (List.filterMap_congr fun c hc => (ofPiece?_of_mem_steps here hs ht hc).2).trans
      List.filterMap_some
  rw [components, isAbsolute_relative here hs, start]
  exact read

/-- The way is a dot exactly if there is no step to make. -/
theorem relative_eq_dot_iff (hs : source.text ≠ "") (ht : target.text ≠ "") :
    relative here source target = "." ↔ steps here source target = [] := by
  constructor
  · intro dot
    by_contra way
    have same := components_relative here hs ht way
    have only : components ⟨relative here source target⟩ = [.here] := by
      rw [dot]
      decide
    have member : Component.here ∈ steps here source target := by
      rw [← same, only]
      exact List.mem_singleton.mpr rfl
    exact (ofPiece?_of_mem_steps here hs ht member).1 rfl
  · intro nothing
    rw [relative, nothing]

/-- The way has a parent step for each component that is left of the source, and then what is
left of the target. -/
theorem steps_eq : steps here source target
    = List.replicate (dropCommon (normal here source) (normal here target)).1.length .up
      ++ (dropCommon (normal here source) (normal here target)).2 := by
  rw [steps, ← List.map_const']

theorem steps_eq_nil_iff : steps here source target = [] ↔
    normal here source = normal here target := by
  obtain ⟨common, -, first, second⟩ :=
    exists_longest_common (normal here source) (normal here target)
  constructor
  · intro nothing
    rw [steps_eq, List.append_eq_nil_iff, List.replicate_eq_nil_iff,
      List.length_eq_zero_iff] at nothing
    exact (first.trans (by rw [nothing.1])).trans (second.trans (by rw [nothing.2])).symm
  · intro same
    have parted := dropCommon_append (normal here target) [] []
    rw [List.append_nil] at parted
    rw [steps, same, parted]
    rfl

/-- **The way to a place undoes joining.**  Joined to the directory that it starts from, it
names the place.  It is a dot exactly if the directory is the place, and its parent steps come
first, one for each component of the directory behind the longest common prefix.  The working
directory may be any, as both paths are taken from it. -/
theorem normal_join_relative (hs : source.text ≠ "") (ht : target.text ≠ "") :
    normal here (source.join ⟨relative here source target⟩) = normal here target ∧
      (relative here source target = "." ↔ normal here source = normal here target) ∧
      ∃ common downs, IsLongestCommonPrefix common (normal here source) (normal here target) ∧
        components ⟨relative here source target⟩
          = List.replicate ((normal here source).length - common.length) .up ++ downs ∧
          .up ∉ downs := by
  refine ⟨?_, (relative_eq_dot_iff here hs ht).trans (steps_eq_nil_iff here), ?_⟩
  · obtain ⟨common, ups, downs, departure, arrival, way⟩ := exists_way here hs ht
    have entries : ∀ name ∈ downs, IsEntryName name := fun name hname =>
      isEntryName_of_mem_names (arrival ▸ List.mem_append_right common hname)
    have arrives : names here (source.join ⟨relative here source target⟩)
        = names here target := by
      rw [names_join here source (isAbsolute_relative here hs), departure, arrival,
        climb_relative_of_steps here hs way entries]
    rw [normal, normal, if_neg (by simpa using join_ne_empty hs),
      if_neg (by simpa using ht), arrives]
  · obtain ⟨common, longest, first, second⟩ :=
      exists_longest_common (normal here source) (normal here target)
    have count : (normal here source).length - common.length
        = (dropCommon (normal here source) (normal here target)).1.length := by
      conv_lhs => rw [first, List.length_append, Nat.add_sub_cancel_left]
    -- No steps are written as the step that stays.
    by_cases nothing : steps here source target = []
    · refine ⟨common, [.here], longest, ?_, by decide⟩
      have short := nothing
      rw [steps_eq, List.append_eq_nil_iff, List.replicate_eq_nil_iff] at short
      rw [count, short.1, relative, nothing]
      decide
    · refine ⟨common, (dropCommon (normal here source) (normal here target)).2,
        longest, ?_, ?_⟩
      · rw [components_relative here hs ht nothing, count, steps_eq]
      · intro up
        have within : Component.up ∈ normal here target :=
          second ▸ List.mem_append_right common up
        rw [normal, if_neg (by simpa using ht)] at within
        simp at within

/-- Both paths have steps that lead nowhere, and the first one a parent step at the root. -/
theorem normal_join_relative_siblings :
    (⟨"../../a//./b"⟩ : Path).text ≠ "" ∧ (⟨"/a/c/../d"⟩ : Path).text ≠ "" ∧
      relative ⟨"/p"⟩ ⟨"../../a//./b"⟩ ⟨"/a/c/../d"⟩ = "../d" ∧
      normal ⟨"/p"⟩ ((⟨"../../a//./b"⟩ : Path).join ⟨"../d"⟩)
        = [.root, .item "a", .item "d"] := by
  have way : relative ⟨"/p"⟩ ⟨"../../a//./b"⟩ ⟨"/a/c/../d"⟩ = "../d" := by decide
  have place : normal ⟨"/p"⟩ ⟨"/a/c/../d"⟩ = [.root, .item "a", .item "d"] := by decide
  refine ⟨by decide, by decide, way, ?_⟩
  rw [← way, ← place]
  exact (normal_join_relative ⟨"/p"⟩ (by decide) (by decide)).1

end Way

end Attestation.Path
