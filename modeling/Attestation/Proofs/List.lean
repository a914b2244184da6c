import Mathlib.Data.List.Forall2
import Mathlib.Data.List.Nodup

/-!
# Lists

Facts about lists that are no part of the library.  They are about lists whose items have keys:
an item is found by its key (`filter_eq_singleton`), and sorting the items by their keys only
moves them (`perm_flatMap_filter`).

## Design notes

They are stated for any key and any items.  Slots of structs, names of records and files of
types use them alike.
-/

namespace Attestation

/-- What stands in one of two related lists is related to something in the other. -/
theorem exists_right_of_forall₂ {α β : Type} {R : α → β → Prop} {xs : List α} {ys : List β}
    (h : List.Forall₂ R xs ys) :
    ∀ x ∈ xs, ∃ y ∈ ys, R x y := by
  induction h with
  | nil => exact fun x hx => absurd hx List.not_mem_nil
  | cons first _ ih =>
      refine List.forall_mem_cons.mpr ⟨⟨_, List.mem_cons_self, first⟩, fun x hx => ?_⟩
      obtain ⟨y, hy, related⟩ := ih x hx
      exact ⟨y, List.mem_cons_of_mem _ hy, related⟩

section Filter

variable {α κ : Type} [DecidableEq κ] {key : α → κ}

/-- Only one item has the key of an item if the keys are distinct. -/
theorem filter_eq_singleton {xs : List α} (distinct : (xs.map key).Nodup) {x : α}
    (hx : x ∈ xs) :
    xs.filter (key · = key x) = [x] := by
  induction xs with
  | nil => cases hx
  | cons y xs ih =>
      rw [List.map_cons, List.nodup_cons] at distinct
      rcases List.mem_cons.mp hx with rfl | hx
      · have rest : xs.filter (key · = key x) = [] := by
          rw [List.filter_eq_nil_iff]
          intro z hz
          simp only [decide_eq_true_eq]
          intro same
          exact distinct.1 (same ▸ List.mem_map_of_mem hz)
        rw [List.filter_cons_of_pos (by simp), rest]
      · have other : key y ≠ key x := fun same => distinct.1 (same ▸ List.mem_map_of_mem hx)
        rw [List.filter_cons_of_neg (by simpa using other), ih distinct.2 hx]

/-- Sorting items by their keys loses and doubles nothing. -/
theorem perm_flatMap_filter {keys : List κ} (distinct : keys.Nodup) {xs : List α}
    (cover : ∀ x ∈ xs, key x ∈ keys) :
    (keys.flatMap fun k => xs.filter (key · = k)).Perm xs := by
  induction keys generalizing xs with
  | nil =>
      have empty : xs = [] := List.eq_nil_iff_forall_not_mem.mpr fun x hx =>
        List.not_mem_nil (cover x hx)
      rw [empty]
      exact .refl _
  | cons k keys ih =>
      obtain ⟨fresh, distinct⟩ := List.nodup_cons.mp distinct
      have rest : ∀ k' ∈ keys, xs.filter (key · = k')
          = (xs.filter fun x => !decide (key x = k)).filter (key · = k') := by
        intro k' hk'
        rw [List.filter_filter]
        refine List.filter_congr fun x _ => ?_
        by_cases hx : key x = k'
        · have other : key x ≠ k := by
            rintro rfl
            exact fresh (hx ▸ hk')
          simp [hx, hx ▸ other]
        · simp [hx]
      rw [List.flatMap_cons, List.flatMap_congr rest]
      refine ((ih distinct ?_).append_left _).trans (List.filter_append_perm _ xs)
      intro x hx
      obtain ⟨hx, other⟩ := List.mem_filter.mp hx
      rcases List.mem_cons.mp (cover x hx) with same | hk
      · simp [same] at other
      · exact hk

end Filter

end Attestation
