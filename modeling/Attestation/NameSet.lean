/-!
# Sets of names

A finite set of names, kept in order.

## Main definitions

* `NameSet`: names in strictly increasing order.
* `NameSet.insert`, `NameSet.union`, `NameSet.ofList`: building sets.

The main statements are `NameSet.mem_insert` and `NameSet.mem_union`, which say what a set
holds, and `NameSet.eq_of_mem_iff`, by which sets with the same members are equal.

## Design notes

A sorted list without repetitions stands for a set, and the proof comes with it.  So equality
of sets is equality of terms, and decidable.
-/

namespace Attestation

/-- A set of names, in increasing order. -/
structure NameSet where
  /-- The members in order. -/
  toList : List String
  /-- Every member stands before all greater ones. -/
  sorted : toList.Pairwise (· < ·) := by simp
  deriving DecidableEq, Repr

namespace NameSet

/-- Puts a name into its place in an ordered list, unless it is there. -/
def insertInto (name : String) : List String → List String
  | [] => [name]
  | other :: more =>
      if name < other then name :: other :: more
      else if name = other then other :: more
      else other :: insertInto name more

theorem mem_insertInto {x name : String} {names : List String} :
    x ∈ insertInto name names ↔ x = name ∨ x ∈ names := by
  induction names with
  | nil => simp [insertInto]
  | cons other more ih =>
      simp only [insertInto]
      split
      · simp
      · split
        · next h => subst h; simp
        · simp only [List.mem_cons, ih]
          constructor
          · rintro (h | h | h) <;> simp [h]
          · rintro (h | h | h) <;> simp [h]

theorem pairwise_insertInto {name : String} {names : List String}
    (sorted : names.Pairwise (· < ·)) : (insertInto name names).Pairwise (· < ·) := by
  induction names with
  | nil => simp [insertInto]
  | cons other more ih =>
      rw [List.pairwise_cons] at sorted
      simp only [insertInto]
      split
      · next h =>
          refine List.pairwise_cons.mpr ⟨?_, List.pairwise_cons.mpr sorted⟩
          intro x hx
          rcases List.mem_cons.mp hx with rfl | hx
          · exact h
          · exact String.lt_trans h (sorted.1 x hx)
      · next hlt =>
          split
          · exact List.pairwise_cons.mpr sorted
          · next hne =>
              refine List.pairwise_cons.mpr ⟨?_, ih sorted.2⟩
              intro x hx
              rcases mem_insertInto.mp hx with rfl | hx
              · apply String.not_le.mp
                intro hle
                exact hne (String.le_antisymm hle (String.not_lt.mp hlt))
              · exact sorted.1 x hx

theorem pairwise_nil : ([] : List String).Pairwise (· < ·) := List.Pairwise.nil

/-- The set without members. -/
def empty : NameSet := ⟨[], pairwise_nil⟩

instance : Inhabited NameSet := ⟨empty⟩

/-- The set with a further member. -/
def insert (s : NameSet) (name : String) : NameSet :=
  ⟨insertInto name s.toList, pairwise_insertInto s.sorted⟩

/-- The set of the names in a list. -/
def ofList (names : List String) : NameSet := names.foldl insert empty

/-- The names of both sets. -/
def union (s t : NameSet) : NameSet := t.toList.foldl insert s

/-- Whether there is no member. -/
def isEmpty (s : NameSet) : Bool := s.toList.isEmpty

instance : Membership String NameSet := ⟨fun s name => name ∈ s.toList⟩

theorem mem_def {name : String} {s : NameSet} : name ∈ s ↔ name ∈ s.toList := Iff.rfl

@[simp] theorem mem_insert {x name : String} {s : NameSet} : x ∈ s.insert name ↔
  x = name ∨ x ∈ s :=
  mem_insertInto

theorem mem_foldl_insert {x : String} {names : List String} {s : NameSet} :
    x ∈ names.foldl insert s ↔ x ∈ s ∨ x ∈ names := by
  induction names generalizing s with
  | nil => simp
  | cons name more ih =>
      rw [List.foldl_cons, ih, mem_insert, List.mem_cons]
      constructor
      · rintro ((h | h) | h) <;> simp [h]
      · rintro (h | h | h) <;> simp [h]

@[simp] theorem mem_ofList {x : String} {names : List String} : x ∈ ofList names ↔
  x ∈ names := by
  rw [ofList, mem_foldl_insert]
  constructor
  · rintro (h | h)
    · exact absurd (mem_def.mp h) List.not_mem_nil
    · exact h
  · exact Or.inr

@[simp] theorem mem_union {x : String} {s t : NameSet} : x ∈ s.union t ↔ x ∈ s ∨ x ∈ t :=
  mem_foldl_insert

/-- Ordered lists with the same members are equal. -/
theorem eq_of_pairwise_of_mem_iff {a b : List String} (ha : a.Pairwise (· < ·))
    (hb : b.Pairwise (· < ·)) (h : ∀ x, x ∈ a ↔ x ∈ b) : a = b := by
  induction a generalizing b with
  | nil =>
      cases b with
      | nil => rfl
      | cons y ys => exact absurd ((h y).mpr (by simp)) (by simp)
  | cons x xs ih =>
      cases b with
      | nil => exact absurd ((h x).mp (by simp)) (by simp)
      | cons y ys =>
          rw [List.pairwise_cons] at ha hb
          have hxy : x = y := by
            rcases List.mem_cons.mp ((h x).mp (by simp)) with hx | hx
            · exact hx
            · rcases List.mem_cons.mp ((h y).mpr (by simp)) with hy | hy
              · exact hy.symm
              · exact absurd (String.lt_trans (hb.1 x hx) (ha.1 y hy)) (String.lt_irrefl y)
          subst hxy
          congr 1
          refine ih ha.2 hb.2 fun z => ?_
          constructor
          · intro hz
            rcases List.mem_cons.mp ((h z).mp (List.mem_cons_of_mem _ hz)) with rfl | hz'
            · exact absurd (ha.1 z hz) (String.lt_irrefl z)
            · exact hz'
          · intro hz
            rcases List.mem_cons.mp ((h z).mpr (List.mem_cons_of_mem _ hz)) with rfl | hz'
            · exact absurd (hb.1 z hz) (String.lt_irrefl z)
            · exact hz'

/-- A set is determined by its members. -/
theorem eq_of_mem_iff {s t : NameSet} (h : ∀ x, x ∈ s ↔ x ∈ t) : s = t := by
  obtain ⟨a, ha⟩ := s
  obtain ⟨b, hb⟩ := t
  have : a = b := eq_of_pairwise_of_mem_iff ha hb h
  subst this
  rfl

end NameSet

end Attestation
