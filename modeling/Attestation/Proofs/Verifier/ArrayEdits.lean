import Attestation.Proofs.Script.ArrayNesting
import Attestation.Proofs.Verifier.Layout

/-!
# Editing arrays

Wiring puts a class into each of two arrays, or takes it out.  An edit of an array undoes what
an earlier edit with the same class has done (`wireArray_again`), and edits of the two arrays
can be made in either order (`wireArray_comm`), even if one of them stands in an object of the
other.  So does editing both:

* `editArrays`: what wiring does to the arrays.
* `editArrays_again`: a second edit of both forgets the first one.
* `editArrays_append_eq_ok_iff`: a text in front that adds no anchor stays as it is.

## Design notes

A second wiring edits the arrays in the text that the first one has written, in the order
controllers, providers, controllers, providers.  That an edit forgets an earlier one of the
same array is only of use once the other edit between them has been moved away, so the edits
have to commute, also where one array lies inside of the other.
-/

namespace Attestation.Verifier

open Text ArrayLiteral ImportBlock

/-! ## Editing one array -/

section One

variable {name c : String} {x y : Bool} {u v t t' : List Char}

theorem wireArray_eq_ok_iff : wireArray name c x t = .ok t' ↔
    ∃ a, extract (.array name) t = .ok a ∧
    t' = a.before ++ '[' :: (join ", " (edit x c a.entries)).toList ++ ']' :: a.after := by
  constructor
  · intro h
    cases ha : extract (.array name) t with
    | error e =>
        rw [wireArray, ha] at h
        cases h
    | ok a =>
        rw [wireArray_of_extract ha, Except.ok.injEq] at h
        exact ⟨a, rfl, h.symm⟩
  · rintro ⟨a, ha, rfl⟩
    exact wireArray_of_extract ha

/-- What an edit makes of the entries are entries. -/
theorem isEntry_edit (hc : IsAlphanum c) {inner : List Char} {entries : List String}
    (h : Reads inner entries) :
    ∀ e ∈ edit x c entries, IsEntry e := by
  intro e he
  rcases mem_edit he with rfl | he
  · exact hc.isEntry
  · exact (h.isEntry e he).1

/-- No anchor comes into an array by an edit. -/
theorem not_occurs_edit {m : String} (hm : IsArrayName m) (hc : IsAlphanum c)
    {inner : List Char}
    {entries : List String} (h : Reads inner entries) (quiet : ¬ Occurs m inner) :
    ¬ Occurs m (join ", " (edit x c entries)).toList := by
  intro ho
  obtain ⟨e, he, inside⟩ := exists_of_occurs_join hm ho
  rcases mem_edit he with rfl | he
  · exact hc.not_occurs _ inside
  · exact quiet (inside.mono (h.isEntry e he).2)

/-- No statement comes into a text by an edit. -/
theorem peaceful_wireArray (hname : IsArrayName name) (hc : IsAlphanum c) (h : Peaceful t)
    (hu : wireArray name c x t = .ok u) : Peaceful u := by
  obtain ⟨a, ha, rfl⟩ := wireArray_eq_ok_iff.mp hu
  obtain ⟨rfl, -, reads⟩ := (extract_eq_ok_iff hname.unbracketed).mp ha
  rw [Peaceful.append_cons_iff (by decide), Peaceful.append_cons_iff (by decide)] at h ⊢
  refine ⟨⟨h.1.1, Peaceful.join fun e he => ?_⟩, h.2⟩
  rcases mem_edit he with rfl | he
  · exact peaceful_of_alphanum hc.alphanum
  · exact h.1.2.mono (reads.isEntry e he).2

/-- **An edit forgets an earlier one** with the same class. -/
theorem wireArray_again (hname : IsArrayName name) (hc : IsAlphanum c)
    (h : wireArray name c y t = .ok u) :
    wireArray name c x u = wireArray name c x t := by
  obtain ⟨a, ha, rfl⟩ := wireArray_eq_ok_iff.mp h
  obtain ⟨-, opens, reads⟩ := (extract_eq_ok_iff hname.unbracketed).mp ha
  have found : extract (.array name)
    (a.before ++ '[' :: (join ", " (edit y c a.entries)).toList ++ ']' :: a.after)
      = .ok ⟨a.before, (join ", " (edit y c a.entries)).toList, a.after, edit y c a.entries⟩ :=
    (extract_eq_ok_iff hname.unbracketed).mpr ⟨rfl, opens, reads_join (isEntry_edit hc reads)⟩
  rw [wireArray_of_extract found, wireArray_of_extract ha, edit_edit]

end One

/-! ## Editing two arrays -/

section Two

variable {n m c p : String} {x y : Bool} {t u v : List Char} {a b : ArrayLiteral}

section Apart

variable {f : Frame} {z r : List Char} {es : List String} (fits : f.Fits n m)
include fits

theorem wireArray_first (hn : IsArrayName n) (r : List Char) (reads : Reads z es) :
    wireArray n c x (f.plug z r) = .ok (f.plug (join ", " (edit x c es)).toList r) := by
  have found : extract (.array n) (f.plug z r) = .ok ⟨f.lead, z,
    f.between ++ '[' :: r ++ ']' :: f.rest, es⟩ := by
    simpa using Frame.extract_first (u := []) (y := r) hn fits (neutral_nil n) reads
  rw [wireArray_of_extract found]
  simp [Frame.plug]

theorem wireArray_second (hm : IsArrayName m) (quiet : ¬ Occurs m z) (reads : Reads r es) :
    wireArray m p y (f.plug z r) = .ok (f.plug z (join ", " (edit y p es)).toList) := by
  have found : extract (.array m) (f.plug z r) = .ok ⟨f.lead ++ '[' :: z ++ ']' :: f.between,
    r, f.rest, es⟩ := by
    simpa using Frame.extract_second (u := []) hm fits (neutral_nil m) quiet reads
  rw [wireArray_of_extract found]
  rfl

end Apart

/-- Arrays that lie apart. -/
theorem wireArray_comm_of_apart (hn : IsArrayName n) (hm : IsArrayName m) (hc : IsAlphanum c)
    (ha : extract (.array n) t = .ok a) (hb : extract (.array m) t = .ok b)
    (apart : a.stop < b.start)
    (hu : wireArray n c x t = .ok u) (hv : wireArray m p y t = .ok v) :
    ∃ w, wireArray m p y u = .ok w ∧ wireArray n c x v = .ok w := by
  obtain ⟨-, -, readsA⟩ := (extract_eq_ok_iff hn.unbracketed).mp ha
  obtain ⟨-, -, readsB⟩ := (extract_eq_ok_iff hm.unbracketed).mp hb
  obtain ⟨f, fits, rfl, -, -, -, quiet⟩ := exists_frame hm hn ha hb apart
  rw [wireArray_first fits hn b.inner readsA, Except.ok.injEq] at hu
  rw [wireArray_second fits hm quiet readsB, Except.ok.injEq] at hv
  rw [← hu, ← hv]
  exact ⟨_, wireArray_second fits hm (not_occurs_edit hm hc readsA quiet) readsB,
    wireArray_first fits hn _ readsA⟩

section Nested

variable {f : Nest} {z : List Char} {es : List String} (fits : f.Fits n m)
include fits

/-- An edit of the outer array lists the entries around the object anew. -/
theorem wireArray_outer (hn : IsArrayName n) (hc : IsAlphanum c) (hz : Balanced z) :
    wireArray n c x (f.plug z)
    = .ok ((f.relist (f.before.filter (· ≠ c)) (edit x c f.after)).plug z) := by
  -- An object is no class, so it stays among the entries.
  have other : f.object z ≠ c := by
    rintro rfl
    exact hc.ne_of_mem (c := '\x7b') (by simp [Nest.object]) (by decide) rfl
  rw [wireArray_of_extract (Nest.extract_outer hn fits hz), edit_append_cons x other,
    Nest.plug_relist]

theorem fits_relist (hm : IsArrayName m) (hc : IsAlphanum c) (hz : Balanced z) :
    (f.relist (f.before.filter (· ≠ c)) (edit x c f.after)).Fits n m := by
  have entries := (fits.reads z hz).isEntry
  refine fits.relist hm (fun e he => ?_) fun e he => ?_
  · have inside := (List.mem_filter.mp he).1
    exact ⟨(entries e (List.mem_append_left _ inside)).1, fits.quiet e inside⟩
  · rcases mem_edit he with rfl | he
    · exact hc.isEntry
    · exact (entries e (List.mem_append_right _ (List.mem_cons_of_mem _ he))).1

/-- An edit of the inner array stays in the object. -/
theorem wireArray_inner (hm : IsArrayName m) (reads : Reads z es) :
    wireArray m p y (f.plug z) = .ok (f.plug (join ", " (edit y p es)).toList) := by
  rw [wireArray_of_extract (Nest.extract_inner hm fits reads), Nest.plug_eq]

end Nested

/-- An array in an object of the other one. -/
theorem wireArray_comm_of_nested (hn : IsArrayName n) (hm : IsArrayName m) (hc : IsAlphanum c)
    (hp : IsAlphanum p)
    {f : Nest} (fits : f.Fits n m) (hb : extract (.array m) (f.plug b.inner) = .ok b)
    (hu : wireArray n c x (f.plug b.inner) = .ok u)
    (hv : wireArray m p y (f.plug b.inner) = .ok v) :
    ∃ w, wireArray m p y u = .ok w ∧ wireArray n c x v = .ok w := by
  obtain ⟨-, -, readsB⟩ := (extract_eq_ok_iff hm.unbracketed).mp hb
  have editedB := reads_join (isEntry_edit (x := y) hp readsB)
  rw [wireArray_outer fits hn hc readsB.balanced, Except.ok.injEq] at hu
  rw [wireArray_inner fits hm readsB, Except.ok.injEq] at hv
  rw [← hu, ← hv]
  exact ⟨_, wireArray_inner (fits_relist fits hm hc readsB.balanced) hm readsB,
    wireArray_outer fits hn hc editedB.balanced⟩

/-- **Edits of two arrays commute.** -/
theorem wireArray_comm (hn : IsArrayName n) (hm : IsArrayName m) (distinct : Distinct n m)
    (hc : IsAlphanum c)
    (hp : IsAlphanum p) (hu : wireArray n c x t = .ok u) (hv : wireArray m p y t = .ok v) :
    ∃ w, wireArray m p y u = .ok w ∧ wireArray n c x v = .ok w := by
  obtain ⟨a, ha, -⟩ := wireArray_eq_ok_iff.mp hu
  obtain ⟨b, hb, -⟩ := wireArray_eq_ok_iff.mp hv
  rcases distinct.apart_or_nested hn hm ha hb with (apart | apart) | ⟨f, fits, rfl⟩ |
    ⟨f, fits, rfl⟩
  · exact wireArray_comm_of_apart hn hm hc ha hb apart hu hv
  · obtain ⟨w, hw, hw'⟩ := wireArray_comm_of_apart hm hn hp hb ha apart hv hu
    exact ⟨w, hw', hw⟩
  · exact wireArray_comm_of_nested hn hm hc hp fits hb hu hv
  · obtain ⟨w, hw, hw'⟩ := wireArray_comm_of_nested hm hn hp hc fits ha hv hu
    exact ⟨w, hw', hw⟩

end Two

/-! ## Editing both arrays of a verifier -/

/-- What wiring does to the arrays. -/
def editArrays (n : Names) (clear : Bool) (content : List Char) :
    Except EditError (List Char) := do
  let content ← wireArray "controllers" n.controllerClass clear content
  wireArray "providers" n.serviceClass clear content

theorem wire_eq (here : Path) (o : Options) (n : Names) (clear : Bool) (content : List Char) :
    wire here o n clear content = wireImports here o n clear content >>= editArrays n clear :=
  rfl

theorem distinct_arrayNames : Distinct "controllers" "providers" := ⟨by decide, by decide⟩

section Both

variable {n : Names} {x y : Bool} {t u v : List Char}

theorem editArrays_eq_ok_iff : editArrays n x t = .ok v ↔
    ∃ u, wireArray "controllers" n.controllerClass x t = .ok u ∧
      wireArray "providers" n.serviceClass x u = .ok v := by
  rw [editArrays]
  cases wireArray "controllers" n.controllerClass x t with
  | error e => simp [bind, Except.bind]
  | ok u => simp [bind, Except.bind]

/-- **An edit of both arrays forgets an earlier one.** -/
theorem editArrays_again (hc : IsAlphanum n.controllerClass) (hp : IsAlphanum n.serviceClass)
    (hx : editArrays n x t = .ok u) (hy : editArrays n y t = .ok v) :
    editArrays n x v = .ok u := by
  obtain ⟨tx, htx, hu⟩ := editArrays_eq_ok_iff.mp hx
  obtain ⟨ty, hty, hv⟩ := editArrays_eq_ok_iff.mp hy
  have first : wireArray "controllers" n.controllerClass x ty = .ok tx :=
    (wireArray_again isArrayName_controllers hc hty).trans htx
  -- The earlier edit of the providers moves behind the new one of the controllers, which
  -- forgets the earlier one.
  obtain ⟨w, hw, hw'⟩ := wireArray_comm isArrayName_controllers isArrayName_providers
    distinct_arrayNames hc hp
    first hv
  exact editArrays_eq_ok_iff.mpr ⟨w, hw',
    (wireArray_again isArrayName_providers hp hw).trans hu⟩

theorem peaceful_editArrays (hc : IsAlphanum n.controllerClass)
    (hp : IsAlphanum n.serviceClass)
    (h : Peaceful t) (hu : editArrays n x t = .ok u) : Peaceful u := by
  obtain ⟨v, hv, hu⟩ := editArrays_eq_ok_iff.mp hu
  exact peaceful_wireArray isArrayName_providers hp (peaceful_wireArray isArrayName_controllers
    hc h hv) hu

end Both

/-! ## Text in front -/

section Append

variable {name c : String} {x : Bool} {n : Names} {u t v : List Char}

/-- A text without anchors of its own hides no array. -/
theorem extract_append (hname : IsArrayName name) (hu : Neutral name u) {b : ArrayLiteral} :
    extract (.array name) (u ++ t) = .ok b ↔
      ∃ a, extract (.array name) t = .ok a ∧
        b = ⟨u ++ a.before, a.inner, a.after, a.entries⟩ := by
  constructor
  · intro h
    obtain ⟨text, opens, reads⟩ := (extract_eq_ok_iff hname.unbracketed).mp h
    have front : b.before <+: u ++ t := ⟨'[' :: b.inner ++ ']' :: b.after, by rw [text]; simp⟩
    have order : u <+: b.before := by
      rcases List.prefix_or_prefix_of_prefix (List.prefix_append u t) front with order |
        ⟨r, hr⟩
      · exact order
      · cases r with
        | nil => exact ⟨[], by rw [← hr, List.append_nil, List.append_nil]⟩
        | cons d r =>
            -- The bracket would stand in `u`, and the anchor with it.
            have text' := text
            rw [← hr, List.append_assoc, List.append_assoc,
              List.append_cancel_left_eq] at text'
            obtain rfl : d = '[' := (List.cons.inj text').1
            obtain ⟨w, hw, f, hf⟩ := opens.ends
            have inside : Occurs name (u ++ []) := ⟨w, hw, f, r, by rw [← hr, ← hf]; simp⟩
            exact absurd (hu [] inside) not_occurs_nil
    obtain ⟨before, hbefore⟩ := order
    rw [← hbefore] at text opens
    refine ⟨⟨before, b.inner, b.after, b.entries⟩, (extract_eq_ok_iff hname.unbracketed).mpr
      ⟨List.append_cancel_left (by rw [text]; simp), opens.of_append hu, reads⟩, ?_⟩
    rw [hbefore]
  · rintro ⟨a, ha, rfl⟩
    obtain ⟨text, opens, reads⟩ := (extract_eq_ok_iff hname.unbracketed).mp ha
    exact (extract_eq_ok_iff hname.unbracketed).mpr
      ⟨by rw [text]; simp, opens.append hu, reads⟩

theorem wireArray_append_eq_ok_iff (hname : IsArrayName name) (hu : Neutral name u) :
    wireArray name c x (u ++ t) = .ok v ↔ ∃ w, wireArray name c x t = .ok w ∧ v = u ++ w := by
  simp only [wireArray_eq_ok_iff, extract_append hname hu]
  constructor
  · rintro ⟨-, ⟨a, ha, rfl⟩, rfl⟩
    exact ⟨_, ⟨a, ha, rfl⟩, by simp⟩
  · rintro ⟨-, ⟨a, ha, rfl⟩, rfl⟩
    exact ⟨_, ⟨a, ha, rfl⟩, by simp⟩

/-- **A text in front that adds no anchor** stays as it is. -/
theorem editArrays_append_eq_ok_iff (hu : ∀ name ∈ arrayNames, Neutral name u) :
    editArrays n x (u ++ t) = .ok v ↔ ∃ w, editArrays n x t = .ok w ∧ v = u ++ w := by
  simp only [editArrays_eq_ok_iff]
  constructor
  · rintro ⟨t', hc, hp⟩
    obtain ⟨w, hw, rfl⟩ := (wireArray_append_eq_ok_iff isArrayName_controllers
      (hu _ (by decide))).mp hc
    obtain ⟨w', hw', rfl⟩ := (wireArray_append_eq_ok_iff isArrayName_providers
      (hu _ (by decide))).mp hp
    exact ⟨w', ⟨w, hw, hw'⟩, rfl⟩
  · rintro ⟨w', ⟨w, hw, hw'⟩, rfl⟩
    exact ⟨u ++ w, (wireArray_append_eq_ok_iff isArrayName_controllers (hu _ (by decide))).mpr
      ⟨w, hw, rfl⟩,
      (wireArray_append_eq_ok_iff isArrayName_providers (hu _ (by decide))).mpr ⟨w', hw', rfl⟩⟩

end Append

end Attestation.Verifier
