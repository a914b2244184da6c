import Attestation.Json.Decoder
import Attestation.Proofs.Json.Merged
import Attestation.Proofs.List

/-!
# Decoders

What a decoder finds in the fields of a record that has been written, where each field has a
name of its own.  A value that is decoded of a record nests less deep than the record
(`Json.Fits.of_record`).

## Design notes

A field is found by its name, and a record that repeats the field is refused.  The lemmas
therefore ask for distinct names once, and the encoder of each record shows that it writes them.
The depth is part of the statement because the parser refuses what nests too deeply.
-/

namespace Attestation

namespace Json

namespace Record

variable {α : Type} {r : Record} {name : String} {value : Decoder α} {j : Json}

theorem only?_of_mem (nodup : (r.fields.map (·.1)).Nodup) (h : (name, j) ∈ r.fields) :
    r.only? name = some (some j) := by
  rw [only?, filter_eq_singleton nodup h]

theorem only?_of_not_mem (h : ∀ j, (name, j) ∉ r.fields) : r.only? name = some none := by
  have found : r.fields.filter (·.1 = name) = [] := by
    rw [List.filter_eq_nil_iff]
    rintro ⟨other, j⟩ hmem same
    rw [decide_eq_true_eq] at same
    exact h j (same ▸ hmem)
  rw [only?, found]

theorem required_of_mem (nodup : (r.fields.map (·.1)).Nodup) (h : (name, j) ∈ r.fields) :
    r.required name value = value j := by
  rw [required, only?_of_mem nodup h]

/-- A value that is required is the value of a field. -/
theorem exists_of_required {a : α} (h : r.required name value = some a) :
    ∃ j, (name, j) ∈ r.fields ∧ value j = some a := by
  unfold required only? at h
  split at h
  · next j found =>
      split at found
      · cases found
      · next fields =>
          cases found
          have field := List.mem_filter.mp (fields ▸ List.mem_singleton_self _)
          have same := of_decide_eq_true field.2
          exact ⟨j, same ▸ field.1, h⟩
      · cases found
  · cases h

/-- A field that is left out when it has no value. -/
theorem omittable_of_mem_iff (nodup : (r.fields.map (·.1)).Nodup) (encode : α → Json)
    {v : Option α}
    (there : ∀ j, (name, j) ∈ r.fields ↔ ∃ a ∈ v, j = encode a)
    (back : ∀ a ∈ v, encode a ≠ .null ∧ value (encode a) = some a) :
    r.omittable name value = some v := by
  cases v with
  | none =>
      have missing : ∀ j, (name, j) ∉ r.fields := fun j hj => by
        obtain ⟨a, ha, -⟩ := (there j).mp hj
        cases ha
      rw [omittable, defaulted, only?_of_not_mem missing]
  | some a =>
      obtain ⟨nonnull, decoded⟩ := back a rfl
      rw [omittable, defaulted, only?_of_mem nodup ((there _).mpr ⟨a, rfl, rfl⟩)]
      show nullable value (encode a) = _
      rw [nullable, decoded, Option.map_some]
      exact nonnull

end Record

/-- The values of a record lie one level below it. -/
theorem Fits.of_record {depth : Nat} {names : List String} {j : Json} {r : Record}
    (h : Fits (depth + 1) j)
    (hr : record names j = some r) : ∀ field ∈ r.fields, Fits depth field.2 := by
  unfold record at hr
  split at hr
  · cases hr
    cases h with
    | object parts => exact parts
  · unfold Record.ofItems at hr
    split at hr
    · cases hr
      cases h with
      | array parts => exact fun field hfield => parts _ (List.of_mem_zip hfield).2
    · cases hr
  · cases hr

theorem list_map {α : Type} {item : Decoder α} {encode : α → Json}
    (back : ∀ a, item (encode a) = some a)
    (as : List α) : list item (.array (as.map encode)) = some as := by
  rw [list]
  induction as with
  | nil => rfl
  | cons a as ih => simp [back, ih]

end Json

end Attestation
