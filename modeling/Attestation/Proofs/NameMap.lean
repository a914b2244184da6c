import Attestation.NameMap
import Attestation.NameSet
import Mathlib.Tactic.Common

/-!
# Maps from names: looking up

What is found in a map behind each of its operations.

## Design notes

The operations are told from each other by `get?` alone, so that later proofs look into no list
of entries.
-/

namespace Attestation.NameMap

variable {α : Type} {x : String} {a : α}

theorem get?_empty (x : String) : (empty : NameMap α).get? x = none := rfl

theorem mem_names_of_get? {m : NameMap α} (h : m.get? x = some a) : x ∈ m.names := by
  obtain ⟨entry, found, -⟩ := Option.map_eq_some_iff.mp h
  have same : entry.1 = x := by simpa using List.find?_some found
  exact List.mem_map.mpr ⟨entry, List.mem_of_find?_eq_some found, same⟩

/-- Looking up a name in a map from which a name has been taken. -/
theorem get?_erase (m : NameMap α) (name x : String) :
    (m.erase name).get? x = if name = x then none else m.get? x := by
  rw [get?, erase, List.find?_filter]
  split
  · next h =>
      subst h
      rw [List.find?_eq_none.mpr, Option.map_none]
      simp
  · next h =>
      rw [get?]
      congr 2
      funext entry
      by_cases hx : entry.1 = x
      · simp [hx, Ne.symm h]
      · simp [hx]

theorem mem_names_insert {m : NameMap α} {name : String} : x ∈ (m.insert name a).names ↔
    x = name ∨ x ∈ m.names :=
  mem_names_insertInto

/-- Entries that are put into a map one after the other: the names. -/
theorem mem_names_foldl {entries : List (String × α)} {m : NameMap α} :
    x ∈ (entries.foldl (fun m entry => m.insert entry.1 entry.2) m).names
      ↔ x ∈ entries.map (·.1) ∨ x ∈ m.names := by
  induction entries generalizing m with
  | nil => simp
  | cons entry more ih =>
      rw [List.foldl_cons, ih, mem_names_insert, List.map_cons, List.mem_cons]
      tauto

/-- Entries that are put into a map one after the other: a value on which all entries of its
name agree. -/
theorem get?_foldl {entries : List (String × α)} {m : NameMap α}
    (single : ∀ b, (x, b) ∈ entries → b = a)
    (h : (x, a) ∈ entries ∨ m.get? x = some a) :
    (entries.foldl (fun m entry => m.insert entry.1 entry.2) m).get? x = some a := by
  induction entries generalizing m with
  | nil => exact h.resolve_left List.not_mem_nil
  | cons entry more ih =>
      obtain ⟨name, b⟩ := entry
      rw [List.foldl_cons]
      refine ih (fun c hc => single c (List.mem_cons_of_mem _ hc)) ?_
      rw [get?_insert]
      by_cases same : name = x
      · subst same
        exact .inr (by rw [if_pos rfl, single b List.mem_cons_self])
      · rw [if_neg same]
        refine h.imp_left fun h => (List.mem_cons.mp h).resolve_left fun h => same ?_
        exact (Prod.mk.inj h).1.symm

theorem get?_ofList {entries : List (String × α)} (h : (x, a) ∈ entries)
    (single : ∀ b, (x, b) ∈ entries → b = a) : (ofList entries).get? x = some a :=
  get?_foldl single (.inl h)

theorem mem_names_ofList {entries : List (String × α)} : x ∈ (ofList entries).names ↔
    x ∈ entries.map (·.1) := by
  refine mem_names_foldl.trans (or_iff_left ?_)
  exact List.not_mem_nil

/-- The names of a map are determined by which names are in it. -/
theorem names_eq {m : NameMap α} {names : List String} (sorted : names.Pairwise (· < ·))
    (same : ∀ x, x ∈ m.names ↔ x ∈ names) : m.names = names :=
  NameSet.eq_of_pairwise_of_mem_iff m.sorted sorted same

end Attestation.NameMap
