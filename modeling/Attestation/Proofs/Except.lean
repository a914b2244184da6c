import Attestation.Proofs.List

/-!
# Results that may be errors

What it means that a computation in `Except` succeeds or fails, told from its steps.  A list
that is read item by item is read as a whole when each item is (`exists_mapM_eq_ok_iff`), and
otherwise fails as the first bad item does (`exists_first_error`, `mapM_eq_error`).

These are facts about `Except` alone, so that the modules about readers and loaders need not
open a bind of their own.

## Design notes

Success is stated as an equivalence and failure as far as it is used: a bind that fails does so
for one of two reasons, and the order of these matters only where the first bad item of a list
is asked for.
-/

namespace Attestation

variable {α β ε : Type} {f : α → Except ε β}

/-! ## Steps -/

/-- Two steps succeed when both do, the second with the result of the first. -/
theorem bind_eq_ok_iff {x : Except ε α} {g : α → Except ε β} {b : β} :
    x >>= g = .ok b ↔ ∃ a, x = .ok a ∧ g a = .ok b := by
  cases x with
  | error e => constructor <;> nofun
  | ok a =>
      constructor
      · exact fun h => ⟨a, rfl, h⟩
      · rintro ⟨_, ha, h⟩
        cases ha
        exact h

/-- Two steps fail when the first does, or the second with the result of the first. -/
theorem bind_eq_error {γ : Type} {x : Except ε γ} {g : γ → Except ε β} {error : ε}
    (h : x >>= g = .error error) :
    x = .error error ∨ ∃ a, x = .ok a ∧ g a = .error error := by
  cases x with
  | error e =>
      cases h
      exact .inl rfl
  | ok a => exact .inr ⟨a, rfl, h⟩

theorem map_eq_error_iff {g : α → β} {x : Except ε α} {error : ε} :
    x.map g = .error error ↔ x = .error error := by
  cases x <;> simp [Except.map]

theorem ok_of_toOption {e : Except ε α} {a : α} (h : e.toOption = some a) : e = .ok a := by
  cases e with
  | error e => cases h
  | ok b => cases h; rfl

/-! ## Lists -/

/-- A list is read item by item. -/
theorem mapM_eq_ok {g : α → β} {xs : List α} (h : ∀ x ∈ xs, f x = .ok (g x)) :
    xs.mapM f = .ok (xs.map g) := by
  induction xs with
  | nil => rfl
  | cons x xs ih =>
      rw [List.mapM_cons, h x List.mem_cons_self, ih fun y hy =>
        h y (List.mem_cons_of_mem _ hy)]
      rfl

/-- The first failure ends the reading. -/
theorem mapM_eq_error {before after : List α} {x : α} {e : ε}
    (good : ∀ y ∈ before, ∃ r, f y = .ok r) (bad : f x = .error e) :
    (before ++ x :: after).mapM f = .error e := by
  induction before with
  | nil =>
      rw [List.nil_append, List.mapM_cons, bad]
      rfl
  | cons y before ih =>
      obtain ⟨r, hr⟩ := good y List.mem_cons_self
      rw [List.cons_append, List.mapM_cons, hr, ih fun z hz =>
        good z (List.mem_cons_of_mem _ hz)]
      rfl

/-- A list has been read when each item has been read, in its order. -/
theorem mapM_eq_ok_iff {xs : List α} {ys : List β} :
    xs.mapM f = .ok ys ↔ List.Forall₂ (fun x y => f x = .ok y) xs ys := by
  induction xs generalizing ys with
  | nil =>
      rw [List.forall₂_nil_left_iff]
      exact ⟨fun h => (Except.ok.inj h).symm, fun h => congrArg Except.ok h.symm⟩
  | cons x xs ih =>
      rw [List.mapM_cons, List.forall₂_cons_left_iff, bind_eq_ok_iff]
      constructor
      · rintro ⟨y, hy, h⟩
        obtain ⟨more, hmore, h⟩ := bind_eq_ok_iff.mp h
        exact ⟨y, more, hy, ih.mp hmore, (Except.ok.inj h).symm⟩
      · rintro ⟨y, more, hy, hmore, rfl⟩
        exact ⟨y, hy, bind_eq_ok_iff.mpr ⟨more, ih.mpr hmore, rfl⟩⟩

/-- A list that has been read is the image of a function. -/
theorem exists_map_of_mapM [Inhabited β] {xs : List α} {ys : List β} (h : xs.mapM f = .ok ys) :
    ∃ g : α → β, ys = xs.map g ∧ ∀ x ∈ xs, f x = .ok (g x) := by
  have each : ∀ x ∈ xs, f x = .ok ((f x).toOption.getD default) := by
    intro x hx
    obtain ⟨y, -, hy⟩ := exists_right_of_forall₂ (mapM_eq_ok_iff.mp h) x hx
    rw [hy]
    rfl
  rw [mapM_eq_ok each] at h
  exact ⟨_, (Except.ok.inj h).symm, each⟩

/-- A list can be read when each item can. -/
theorem exists_mapM_eq_ok_iff {xs : List α} :
    (∃ ys, xs.mapM f = .ok ys) ↔ ∀ x ∈ xs, ∃ y, f x = .ok y := by
  simp only [mapM_eq_ok_iff]
  induction xs with
  | nil => simp
  | cons x xs ih =>
      rw [List.forall_mem_cons, ← ih]
      simp only [List.forall₂_cons_left_iff]
      constructor
      · rintro ⟨_, y, more, hy, hmore, rfl⟩
        exact ⟨⟨y, hy⟩, more, hmore⟩
      · rintro ⟨⟨y, hy⟩, more, hmore⟩
        exact ⟨y :: more, y, more, hy, hmore, rfl⟩

/-- A list of which one item cannot be read has a first such item. -/
theorem exists_first_error {xs : List α} (h : ¬ ∀ x ∈ xs, ∃ y, f x = .ok y) :
    ∃ before x after e, xs = before ++ x :: after ∧ (∀ y ∈ before, ∃ r, f y = .ok r) ∧
      f x = .error e := by
  induction xs with
  | nil => simp at h
  | cons x xs ih =>
      cases hx : f x with
      | error e => exact ⟨[], x, xs, e, rfl, by simp, hx⟩
      | ok y =>
          rw [List.forall_mem_cons, not_and] at h
          obtain ⟨before, z, after, e, rfl, good, bad⟩ := ih (h ⟨y, hx⟩)
          exact ⟨x :: before, z, after, e, rfl, List.forall_mem_cons.mpr ⟨⟨y, hx⟩, good⟩, bad⟩

/-- What is read of a list has been read item by item. -/
theorem exists_of_mem_mapM {xs : List α} {ys : List β} (h : xs.mapM f = .ok ys) :
    ∀ y ∈ ys, ∃ x ∈ xs, f x = .ok y :=
  exists_right_of_forall₂ (mapM_eq_ok_iff.mp h).flip

/-- A list fails for one of its items. -/
theorem exists_of_mapM_eq_error {xs : List α} {e : ε} (h : xs.mapM f = .error e) :
    ∃ x ∈ xs, f x = .error e := by
  have some_ : ¬ ∀ x ∈ xs, ∃ y, f x = .ok y := by
    intro all
    obtain ⟨ys, made⟩ := exists_mapM_eq_ok_iff.mpr all
    cases h.symm.trans made
  obtain ⟨before, x, after, e', rfl, good, bad⟩ := exists_first_error some_
  cases h.symm.trans (mapM_eq_error good bad)
  exact ⟨x, by simp, bad⟩

end Attestation
