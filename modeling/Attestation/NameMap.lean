/-!
# Maps from names

A finite map from names, ordered by name.

## Main definitions

* `NameMap`: entries in strictly increasing order of their names.
* `NameMap.insert`, `NameMap.erase`, `NameMap.get?`: the operations.
* `NameMap.ofList`: the map of a list of entries, where a later entry takes the place of an
  earlier one.

## Design notes

The entries are kept sorted and the proof of it comes with them, so that two maps with the same
entries are equal, and a map is written in the order of its names without being sorted again.
-/

namespace Attestation

/-- A map from names. -/
structure NameMap (α : Type) where
  /-- The entries in order. -/
  entries : List (String × α)
  /-- Every name stands before all greater ones. -/
  sorted : (entries.map (·.1)).Pairwise (· < ·) := by simp

namespace NameMap

variable {α : Type}

/-- Puts an entry into its place in an ordered list, or in the place of the one with its
name. -/
def insertInto (name : String) (value : α) : List (String × α) → List (String × α)
  | [] => [(name, value)]
  | (other, old) :: more =>
      if name < other then (name, value) :: (other, old) :: more
      else if name = other then (name, value) :: more
      else (other, old) :: insertInto name value more

theorem mem_names_insertInto {x name : String} {value : α} {entries : List (String × α)} :
    x ∈ (insertInto name value entries).map (·.1) ↔ x = name ∨ x ∈ entries.map (·.1) := by
  induction entries with
  | nil => simp [insertInto]
  | cons entry more ih =>
      obtain ⟨other, old⟩ := entry
      simp only [insertInto]
      split
      · simp
      · split
        · next h => subst h; simp
        · simp only [List.map_cons, List.mem_cons, ih]
          constructor
          · rintro (h | h | h) <;> simp [h]
          · rintro (h | h | h) <;> simp [h]

theorem pairwise_insertInto {name : String} {value : α} {entries : List (String × α)}
    (sorted : (entries.map (·.1)).Pairwise (· < ·)) :
    ((insertInto name value entries).map (·.1)).Pairwise (· < ·) := by
  induction entries with
  | nil => simp [insertInto]
  | cons entry more ih =>
      obtain ⟨other, old⟩ := entry
      rw [List.map_cons, List.pairwise_cons] at sorted
      simp only [insertInto]
      split
      · next h =>
          simp only [List.map_cons]
          refine List.pairwise_cons.mpr ⟨?_, List.pairwise_cons.mpr sorted⟩
          intro x hx
          rcases List.mem_cons.mp hx with rfl | hx
          · exact h
          · exact String.lt_trans h (sorted.1 x hx)
      · next hlt =>
          split
          · next heq =>
              subst heq
              exact List.pairwise_cons.mpr sorted
          · next hne =>
              simp only [List.map_cons]
              refine List.pairwise_cons.mpr ⟨?_, ih sorted.2⟩
              intro x hx
              rcases mem_names_insertInto.mp hx with rfl | hx
              · apply String.not_le.mp
                intro hle
                exact hne (String.le_antisymm hle (String.not_lt.mp hlt))
              · exact sorted.1 x hx

/-- The map without entries. -/
def empty : NameMap α := ⟨[], .nil⟩

instance : Inhabited (NameMap α) := ⟨empty⟩

/-- The map with an entry, in the place of the one with its name. -/
def insert (m : NameMap α) (name : String) (value : α) : NameMap α :=
  ⟨insertInto name value m.entries, pairwise_insertInto m.sorted⟩

/-- The map without the entry of a name. -/
def erase (m : NameMap α) (name : String) : NameMap α :=
  ⟨m.entries.filter (·.1 ≠ name), m.sorted.sublist (List.filter_sublist.map _)⟩

/-- The value for a name. -/
def get? (m : NameMap α) (name : String) : Option α := (m.entries.find? (·.1 = name)).map (·.2)

/-- The map of a list of entries; of two with one name the later one counts. -/
def ofList (entries : List (String × α)) : NameMap α :=
  entries.foldl (fun m (name, value) => m.insert name value) empty

/-- The names in order. -/
def names (m : NameMap α) : List String := m.entries.map (·.1)

/-- Looking up a name in an ordered list with an inserted entry. -/
theorem find?_insertInto {x name : String} {value : α} {entries : List (String × α)} :
    ((insertInto name value entries).find? (·.1 = x)).map (·.2)
      = if name = x then some value else (entries.find? (·.1 = x)).map (·.2) := by
  induction entries with
  | nil => by_cases h : name = x <;> simp [insertInto, h]
  | cons entry more ih =>
      obtain ⟨other, old⟩ := entry
      simp only [insertInto]
      split
      · by_cases h : name = x <;> simp [h]
      · next hlt =>
          split
          · next heq =>
              subst heq
              by_cases h : name = x <;> simp [h]
          · next hne =>
              by_cases hox : other = x
              · subst hox
                simp [hne]
              · simpa [hox] using ih

/-- Looking up a name in the map with an inserted entry. -/
theorem get?_insert (m : NameMap α) (name x : String) (value : α) :
    (m.insert name value).get? x = if name = x then some value else m.get? x :=
  find?_insertInto

end NameMap

end Attestation
