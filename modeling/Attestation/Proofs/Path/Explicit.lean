import Attestation.Proofs.Path.Joining

/-!
# Explicit specifiers

A specifier shall start at the importing script.  Its text is the way to the target, with `./`
in front unless it starts with a dot.  This one character does not tell a parent step from an
entry with a leading dot, which is why a target that lies below such an entry of the own
directory has a specifier that reads as the name of a package
(`Path.isExplicit_specifier_iff`).

## Design notes

The criterion is stated with the places of the two paths and not with their texts: the
specifier is not explicit exactly if the first name on the way down is a hidden entry.  Since
the way is found lexically, no file tree is involved, and the statement holds for all paths and
every working directory.
-/

namespace Attestation.Path

open FileTree Text

variable (here : Path) {source target : Path}

/-- The way to a place below the own directory only leads down. -/
theorem steps_of_below (hs : source.text ≠ "") (ht : target.text ≠ "") {downs : List String}
    (below : names here target = names here source ++ downs) :
    steps here source target = downs.map .item := by
  rw [steps, normal, if_neg (by simpa using hs), normal, if_neg (by simpa using ht),
    dropCommon, if_pos rfl, below,
    List.map_append]
  have parted := dropCommon_append ((names here source).map Component.item) []
    (downs.map .item)
  rw [List.append_nil] at parted
  rw [parted]
  cases downs <;> rfl

/-- An explicit specifier starts with a dot or a parent step as a piece of its own. -/
theorem takeWhile_of_isExplicit {s : String} (h : IsExplicit s) :
    s.toList.takeWhile (· ≠ '/') = ['.'] ∨ s.toList.takeWhile (· ≠ '/') = ['.', '.'] := by
  rcases h with rfl | rfl | ⟨rest, text⟩ | ⟨rest, text⟩
  · exact .inl (by decide)
  · exact .inr (by decide)
  · exact .inl (by rw [← text]; rfl)
  · exact .inr (by rw [← text]; rfl)

/-- The piece in front of a way down is its first name. -/
theorem takeWhile_relative {name : String} {more : List String} (hname : IsEntryName name)
    (way : steps here source target = (name :: more).map .item) :
    (relative here source target).toList.takeWhile (· ≠ '/') = name.toList := by
  have inside : ∀ c ∈ name.toList, decide (c ≠ '/') = true := by
    intro c hc
    refine decide_eq_true fun same => hname.not_slash ?_
    exact same ▸ hc
  rw [relative_eq_join here (by simp [way]), way, List.map_cons, List.map_cons, List.map_cons]
  cases (more.map Component.item).map Component.text with
  | nil =>
      rw [List.map_nil, List.intercalate_singleton]
      exact List.takeWhile_eq_self_iff.mpr inside
  | cons next rest =>
      rw [List.map_cons, List.intercalate_cons_cons, List.append_assoc]
      refine takeWhile_front inside ?_
      rintro c ⟨⟩
      rfl

/-- **A specifier is explicit** exactly if its target does not lie below an entry of the source
directory whose name starts with a dot.  A way that starts with a dot is left as it is, in the
belief that it starts with a step. -/
theorem isExplicit_specifier_iff (hs : source.text ≠ "") (ht : target.text ≠ "") :
    IsExplicit (specifier here source target) ↔
      ∀ name more, names here target = names here source ++ name :: more →
      name.toList.head? ≠ some '.' := by
  constructor
  · intro explicit name more below dot
    have hname : IsEntryName name :=
      isEntryName_of_mem_names (below ▸ List.mem_append_right _ List.mem_cons_self)
    have way := steps_of_below here hs ht below
    have first := takeWhile_relative here hname way
    have kept : specifier here source target = relative here source target := by
      obtain ⟨rest, text⟩ := prefix_relative here way
      rw [specifier, dotted, if_pos]
      rw [← text, List.head?_append_of_ne_nil _ (by simpa using hname.nonempty), dot]
    rw [kept] at explicit
    rcases takeWhile_of_isExplicit explicit with only | only
    · exact hname.ne_here (String.toList_inj.mp (first.symm.trans only))
    · exact hname.ne_up (String.toList_inj.mp (first.symm.trans only))
  · intro plain
    obtain ⟨common, ups, downs, hsource, htarget, way⟩ := exists_way here hs ht
    refine isExplicit_of_steps here way fun alone name first => ?_
    obtain ⟨more, rfl⟩ := List.head?_eq_some_iff.mp first
    rw [alone, List.append_nil] at hsource
    rw [← hsource] at htarget
    have hname : IsEntryName name :=
      isEntryName_of_mem_names (htarget ▸ List.mem_append_right _ List.mem_cons_self)
    exact ⟨hname.nonempty, plain name more htarget⟩

/-- A hidden directory beside the own one is found by a parent step. -/
theorem isExplicit_specifier_iff_hidden :
    IsExplicit (specifier ⟨"/p"⟩ ⟨"src"⟩ ⟨".generated/types"⟩) := by
  refine (isExplicit_specifier_iff ⟨"/p"⟩ (by decide) (by decide)).mpr fun name more below =>
    ?_
  have beside : names ⟨"/p"⟩ ⟨".generated/types"⟩ = ["p", ".generated", "types"] := by decide
  have own : names ⟨"/p"⟩ ⟨"src"⟩ = ["p", "src"] := by decide
  rw [beside, own] at below
  exact absurd below (by simp)

/-- A hidden directory below the own one is found by its name, which reads as the name of a
package. -/
theorem exists_not_isExplicit : ∃ here source target :
    Path, source.text ≠ "" ∧ target.text ≠ "" ∧
    specifier here source target = ".generated/types" ∧
    ¬ IsExplicit (specifier here source target) := by
  have text : specifier ⟨"/p"⟩ ⟨"src"⟩ ⟨"src/.generated/types"⟩ = ".generated/types" := by
    decide
  refine ⟨⟨"/p"⟩, ⟨"src"⟩, ⟨"src/.generated/types"⟩, by decide, by decide, text, ?_⟩
  rw [text, IsExplicit]
  decide

end Attestation.Path
