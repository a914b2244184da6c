import Attestation.Proofs.Verifier.WiringRun

/-!
# Wiring the same verifier twice

Wiring a verifier once more reads back what the first wiring has written.  It changes nothing
as long as the statements that are kept can be read back, and it does change the text when one
of them is lost (`wire_wire_iff`).

## Main definitions

* `Kept`: what is known of the statements that a wiring keeps.
* `Settled`: no statement is lost, or only where it does not matter.
* `Written`: what a wiring has written, where nothing is left to change in the arrays.

## Design notes

A merged statement with a default import and a namespace is written on one line that the reader
does not find.  Whether this matters depends on where the line stands.  Between two lines that
are read back it is part of the block, and the next wiring drops it with the block; outside of
them it is text around the block, and stays.  So `Settled` asks for an order and not for
legible statements, and the proof cuts the kept statements at the first and the last legible
one (`Written.wire_of_cut`).
-/

namespace Attestation.Verifier

open Text ArrayLiteral ImportBlock

/-! ## Text that leaves the block -/

/-- The layout with another front, and with the text `u` between the block and the arrays. -/
def Layout.behind (l : Layout) (front u : List Char) : Layout :=
  ⟨front, l.swapped, ⟨u ++ l.frame.lead, l.frame.between, l.frame.rest⟩⟩

namespace Layout

variable {l : Layout} {front u x y : List Char} {cs ps : List String}

theorem back_behind : (l.behind front u).back x y = u ++ l.back x y := by
  unfold back behind Frame.plug
  split <;> simp

theorem Sound.behind (h : l.Sound) (hu : ∀ name ∈ arrayNames, Neutral name u)
    (hf : ∀ name ∈ arrayNames, ¬ Occurs name front) : (l.behind front u).Sound := by
  have first : l.first ∈ arrayNames := by
    unfold first
    split <;> decide
  refine ⟨⟨h.fits.lead.append (hu _ first), h.fits.between, fun ho => ?_⟩, hf⟩
  have ho : Occurs l.second (u ++ l.frame.lead ++ ['[']) := ho
  rw [List.append_assoc] at ho
  exact h.fits.apart (hu _ l.second_mem _ ho)

theorem Holds.behind (h : l.Holds x y cs ps) : (l.behind front u).Holds x y cs ps :=
  ⟨h.readsControllers, h.readsProviders, h.apart⟩

end Layout

theorem not_occurs_newline (name : String) : ¬ Occurs name ['\n'] := by
  rintro ⟨w, -, part⟩
  have bracket : '[' ∈ ['\n'] := part.subset (by simp)
  exact absurd bracket (by decide)

theorem neutral_newline {name : String} (hname : name ∈ arrayNames) : Neutral name ['\n'] :=
  fun _ => occurs_blank_cons (isArrayName hname) (by decide)

/-- Lines in front of the block hold no anchor. -/
theorem not_occurs_leadingLines {name : String} (hname : name ∈ arrayNames) {u : List Char}
    {imports : List Import} (hu : ¬ Occurs name u)
    (quiet : ∀ i ∈ imports, ∀ s ∈ i.parts, ¬ Occurs name s.toList) :
    ¬ Occurs name (u ++ leadingLines imports) := by
  by_cases hne : imports = []
  · rw [hne]
    simpa [leadingLines] using hu
  · rw [leadingLines_eq hne, ← List.append_assoc]
    intro ho
    exact not_occurs_newline name (neutral_lines hname hu quiet hne _ ho)

/-- Lines behind the block are neutral. -/
theorem neutral_trailingLines {name : String} (hname : name ∈ arrayNames)
    {imports : List Import}
    (quiet : ∀ i ∈ imports, ∀ s ∈ i.parts, ¬ Occurs name s.toList) :
    Neutral name (trailingLines imports) := by
  by_cases hne : imports = []
  · rw [hne]
    exact neutral_nil name
  · rw [trailingLines_eq hne, ← List.singleton_append]
    exact neutral_lines hname (not_occurs_newline name) quiet hne

/-- Lines in front of a text without statements. -/
theorem splice_lines {imports : List Import} (hne : imports ≠ []) (rest : List Char) :
    splice ⟨[], rest⟩ (importLines imports) = importLines imports ++ '\n' :: rest := by
  have start := head?_importLines hne []
  rw [List.append_nil] at start
  obtain ⟨c, r, hlines⟩ : ∃ c r, importLines imports = c :: r := by
    cases hl : importLines imports with
    | nil => rw [hl] at start; cases start
    | cons c r => exact ⟨c, r, rfl⟩
  rw [hlines]
  rfl

/-! ## The kept statements -/

/-- What is known of the statements that a wiring keeps: they import the files of the verifier,
or nothing from these files when `clear` is set.  A second wiring starts from those of them
that it can read. -/
structure Kept (here : Path) (o : Options) (n : Names) (clear : Bool) (kept : List Import) :
    Prop where
  sorted : Sorted kept
  cleared : clear = true → ∀ i ∈ kept, ∀ j ∈ own here o n, j.module ≠ i.module
  wired : clear = false → ∀ j ∈ own here o n, ∀ item, j.Has item → Provides kept j.module item

/-- The kept statements that are not read back do not matter.  They must not import the files
of the verifier, since the second wiring would import these again, and they must not lie within
the block, which ends with the last statement that is read back and is replaced as a whole. -/
structure Settled (here : Path) (o : Options) (n : Names) (clear : Bool) (kept : List Import) :
    Prop where
  /-- The files of the verifier are imported by statements that are read back. -/
  own : clear = false → ∀ i ∈ kept, ∀ j ∈ own here o n, j.module = i.module → i.Legible
  /-- The other ones stand before or behind all statements that are read back, outside of the
  block. -/
  outside : ∀ i ∈ kept, ¬ i.Legible →
    (∀ j ∈ kept, j.Legible → i.before j = true) ∨ ∀ j ∈ kept, j.Legible → j.before i = true

section Kept

variable {here : Path} {o : Options} {n : Names} {clear : Bool}
  {imports merged kept again : List Import}

theorem kept_keep (hm : mergeImports (own here o n ++ imports) = .ok merged) :
    Kept here o n clear (keep here o n clear merged) := by
  obtain ⟨sorted, same⟩ := mergeImports_eq_ok_iff.mp hm
  refine ⟨sorted_keep sorted, ?_, ?_⟩
  · rintro rfl i hi j hj
    rw [keep_true] at hi
    have apart := (List.mem_filter.mp hi).2
    rw [List.all_eq_true] at apart
    simpa using apart j hj
  · rintro rfl j hj item hitem
    exact (same j.module item).mpr ⟨j, List.mem_append_left _ hj, rfl, hitem⟩

/-- The files of a verifier are imported by name. -/
theorem exists_mem_named {j : Import} (h : j ∈ own here o n) : ∃ name, name ∈ j.named := by
  simp only [own, List.mem_cons, List.not_mem_nil, or_false] at h
  rcases h with rfl | rfl
  · exact ⟨n.controllerClass, by simp [controllerImport, Import.ofNames]⟩
  · exact ⟨n.serviceClass, by simp [serviceImport, Import.ofNames]⟩

variable (h : Kept here o n clear kept)
include h

/-- What is read back can be merged again. -/
theorem Kept.exists_again :
    ∃ again, mergeImports (own here o n ++ kept.filter fun i => i.Legible) = .ok again :=
  exists_mergeImports_iff.mpr (Compatible.append_named (fun _ => own_named)
    (h.sorted.filter _).compatible)

variable (plain : Plain here o n)
  (ha : mergeImports (own here o n ++ kept.filter fun i => i.Legible) = .ok again)
include plain ha

/-- Everything that the second wiring writes can be read back. -/
theorem Kept.legible_again : ∀ i ∈ again, i.Legible := by
  have tame : Tame (own here o n ++ kept.filter fun i => i.Legible) := by
    constructor
    · intro i hi
      rcases List.mem_append.mp hi with hi | hi
      · exact (own_legible plain i hi).1
      · exact (of_decide_eq_true (List.mem_filter.mp hi).2).1
    · intro i hi j hj hm hw
      rcases List.mem_append.mp hi with hi | hi
      · exact absurd (own_named hi).2 hw
      · obtain ⟨hi, legible⟩ := List.mem_filter.mp hi
        obtain ⟨-, alone⟩ := of_decide_eq_true legible
        have alone := alone.resolve_left hw
        rcases List.mem_append.mp hj with hj | hj
        · -- The kept statement for a file of the verifier imports a name.
          cases clear with
          | true => exact absurd hm.symm (h.cleared rfl i hi j hj)
          | false =>
              obtain ⟨name, hname⟩ := exists_mem_named hj
              obtain ⟨k, hk, hkm, hkn⟩ := h.wired rfl j hj (.named name) hname
              have hkn : name ∈ k.named := hkn
              rw [h.sorted.eq_of_module_eq hk hi (hkm.trans hm.symm), alone.2] at hkn
              exact absurd (NameSet.mem_def.mp hkn) List.not_mem_nil
        · rw [h.sorted.eq_of_module_eq (List.mem_filter.mp hj).1 hi hm.symm]
          exact alone
  exact tame.legible (mergeImports_eq_ok_iff.mp ha).2

omit plain in
/-- **The second wiring keeps what it reads**, exactly if the files of the verifier are
imported by statements that it can read. -/
theorem Kept.keep_again_iff : keep here o n clear again = kept.filter (fun i => i.Legible) ↔
    (clear = false → ∀ i ∈ kept, ∀ j ∈ own here o n, j.module = i.module → i.Legible) := by
  obtain ⟨sorted, same⟩ := mergeImports_eq_ok_iff.mp ha
  have sortedRead : Sorted (kept.filter fun i => i.Legible) := h.sorted.filter _
  cases clear with
  | true =>
      refine iff_of_true ?_ fun hc => absurd hc (by simp)
      refine (sorted_keep sorted).eq_of_sameImports sortedRead ?_
      rw [keep_true]
      refine (same.filter fun module => (own here o n).all fun j => j.module ≠ module).trans
        (sameImports_of_mem_iff fun i => ?_)
      rw [List.mem_filter, List.mem_append]
      simp only [List.all_eq_true, decide_eq_true_eq]
      constructor
      · rintro ⟨hi | hi, apart⟩
        · exact absurd rfl (apart i hi)
        · exact hi
      · intro hi
        exact ⟨.inr hi, fun j hj => h.cleared rfl i (List.mem_filter.mp hi).1 j hj⟩
  | false =>
      rw [keep_false]
      constructor
      -- The second wiring imports its files by legible statements, and each module is imported
      -- by one statement.
      · rintro rfl - i hi j hj hm
        obtain ⟨k, hk, hkm, -⟩ := (same j.module .module).mpr
          ⟨j, List.mem_append_left _ hj, rfl, trivial⟩
        obtain ⟨hk, legible⟩ := List.mem_filter.mp hk
        rw [h.sorted.eq_of_module_eq hi hk (hm.symm.trans hkm.symm)]
        exact of_decide_eq_true legible
      · intro read
        refine sorted.eq_of_sameImports sortedRead (same.trans fun module item => ?_)
        rw [provides_append]
        refine ⟨fun hp => hp.elim ?_ id, .inr⟩
        rintro ⟨j, hj, rfl, hitem⟩
        obtain ⟨k, hk, hkm, hkitem⟩ := h.wired rfl j hj item hitem
        have legible := read rfl k hk j hj hkm.symm
        exact ⟨k, List.mem_filter.mpr ⟨hk, decide_eq_true legible⟩, hkm, hkitem⟩

end Kept

/-- Between the first and the last statement that is read back there is no other one, exactly
if the other ones stand outside. -/
theorem filter_legible_iff {kept front middle back : List Import} (sorted : Sorted kept)
    (cut : Cut kept front middle back) :
    middle.filter (fun i => i.Legible) = middle ↔ ∀ i ∈ kept, ¬ i.Legible →
      (∀ j ∈ kept, j.Legible → i.before j = true) ∨ ∀ j ∈ kept, j.Legible →
      j.before i = true := by
  have inMiddle : ∀ j ∈ kept, j.Legible → j ∈ middle := by
    intro j hj legible
    have read : j ∈ kept.filter fun i => i.Legible :=
      List.mem_filter.mpr ⟨hj, decide_eq_true legible⟩
    rw [cut.filter_eq] at read
    exact (List.mem_filter.mp read).1
  have order := sorted
  rw [cut.eq] at order
  obtain ⟨sortedFront, -, beforeBack⟩ := List.pairwise_append.mp order
  obtain ⟨-, sortedMiddle, behindFront⟩ := List.pairwise_append.mp sortedFront
  rw [List.filter_eq_self]
  constructor
  · intro all i hi illegible
    rw [cut.eq, List.mem_append, List.mem_append] at hi
    rcases hi with (hi | hi) | hi
    · exact .inl fun j hj legible => behindFront i hi j (inMiddle j hj legible)
    · exact absurd (of_decide_eq_true (all i hi)) illegible
    · exact .inr fun j hj legible =>
        beforeBack j (List.mem_append_right _ (inMiddle j hj legible)) i hi
  · intro outside i hi
    refine decide_eq_true (Classical.byContradiction fun illegible => ?_)
    have asymm : ∀ {a b : Import}, a.before b = true → b.before a = true → False := by
      intro a b hab hba
      have loop := Import.before_trans hab hba
      rw [Import.before_irrefl] at loop
      cases loop
    rcases outside i (cut.mem_of_mem_middle hi) illegible with before | behind
    · obtain ⟨j, more, rfl⟩ := List.exists_cons_of_ne_nil cut.nonempty
      have legible : j.Legible := cut.first j rfl
      rcases List.mem_cons.mp hi with rfl | hi
      · exact illegible legible
      · exact asymm (before j (cut.mem_of_mem_middle (by simp)) legible)
          ((List.pairwise_cons.mp sortedMiddle).1 i hi)
    · obtain ⟨more, j, rfl⟩ := (List.eq_nil_or_concat' middle).resolve_left cut.nonempty
      have legible : j.Legible := cut.last j (by simp)
      rcases List.mem_append.mp hi with hi | hi
      · exact asymm (behind j (cut.mem_of_mem_middle (by simp)) legible)
          ((List.pairwise_append.mp sortedMiddle).2.2 i hi j (by simp))
      · rw [List.mem_singleton.mp hi] at illegible
        exact illegible legible

/-! ## The second wiring -/

section Again

variable {here : Path} {o : Options} {n : Names} {clear : Bool} {l : Layout}
  {cs ps : List String}
  {kept again : List Import}

/-- What a wiring has written, where nothing is left to change in the arrays.  The text is that
of a layout, so the second wiring is determined by the statements and the entries alone. -/
structure Written (here : Path) (o : Options) (n : Names) (clear : Bool) (l : Layout)
    (kept : List Import) (cs ps : List String) : Prop where
  sound : l.Sound
  calm : l.Calm
  entries : l.Entries cs ps
  stillControllers : ∀ e ∈ cs, Still e
  stillProviders : ∀ e ∈ ps, Still e
  listed : edit clear n.controllerClass cs = cs
  provided : edit clear n.serviceClass ps = ps
  state : Kept here o n clear kept
  readable : Readable kept
  quiet : ∀ i ∈ kept, ∀ s ∈ i.parts, ∀ name ∈ arrayNames, ¬ Occurs name s.toList

variable (h : Written here o n clear l kept cs ps) (plain : Plain here o n)
include h plain

namespace Written

theorem again_quiet (ha : mergeImports (own here o n ++ kept.filter fun i => i.Legible)
      = .ok again) :
    ∀ i ∈ keep here o n clear again, ∀ s ∈ i.parts, ∀ name ∈ arrayNames,
      ¬ Occurs name s.toList :=
  quiet_keep plain ha (fun j hj => h.quiet j (List.mem_filter.mp hj).1) clear

theorem again_readable (ha : mergeImports (own here o n ++ kept.filter fun i =>
    i.Legible) = .ok again) :
    Readable (keep here o n clear again) :=
  ⟨wellFormed_keep plain ha (fun j hj => h.readable.wellFormed j (List.mem_filter.mp hj).1)
    clear,
    fun i hi => .inl (h.state.legible_again plain ha i (mem_of_mem_keep hi))⟩

/-- When statements are read back, other ones take the place of the lines from the first to the
last of them. -/
theorem wire_of_cut {front middle back : List Import} (cut : Cut kept front middle back)
    (ha : mergeImports (own here o n ++ kept.filter fun i => i.Legible) = .ok again)
    (hne : keep here o n clear again ≠ []) :
    wire here o n clear (l.text kept cs ps)
      = .ok ((l.behind (l.front ++ leadingLines front) (trailingLines back)).text
          (keep here o n clear again) cs ps) := by
  obtain ⟨found, hfront, hback⟩ := cut.ofText_eq h.readable h.calm.front
    (silent_back h.calm h.stillControllers h.stillProviders)
  have quiet : ∀ i, i ∈ front ∨ i ∈ back → ∀ name ∈ arrayNames, ∀ s ∈ i.parts,
    ¬ Occurs name s.toList := by
    intro i hi name hname s hs
    refine h.quiet i ?_ s hs name hname
    rw [cut.eq]
    rcases hi with hi | hi <;> simp [hi]
  have sound := h.sound.behind
    (fun name hname => neutral_trailingLines hname fun i hi => quiet i (.inr hi) name hname)
    fun name hname => not_occurs_leadingLines hname (h.sound.front name hname)
      fun i hi => quiet i (.inl hi) name hname
  have second := wire_of_splice plain (l.text kept cs ps) again clear sound ?_ ?_ (.inl hne)
    (h.again_quiet plain ha) h.entries.holds.behind
  · rwa [h.listed, h.provided] at second
  · rw [Layout.text, found, ha]
  · rw [ImportBlock.splice, Layout.text, hfront, hback, Layout.back_behind]
    rfl

/-- **The second wiring of statements of which some are read back.** -/
theorem wire_iff_of_legible (some_ : ∃ i ∈ kept, i.Legible) :
    wire here o n clear (l.text kept cs ps) = .ok (l.text kept cs ps) ↔
    Settled here o n clear kept := by
  obtain ⟨again, ha⟩ := h.state.exists_again
  obtain ⟨front, middle, back, cut⟩ := exists_cut some_
  have nonempty : keep here o n clear again ≠ [] := by
    cases clear with
    | true =>
        rw [(h.state.keep_again_iff ha).mpr (by simp)]
        obtain ⟨i, hi, legible⟩ := some_
        exact List.ne_nil_of_mem (List.mem_filter.mpr ⟨hi, decide_eq_true legible⟩)
    | false =>
        rw [keep_false]
        exact merged_ne_nil ha
  have readableMiddle : Readable middle := h.readable.mono fun i => cut.mem_of_mem_middle
  have written : l.text kept cs ps
      = (l.behind (l.front ++ leadingLines front) (trailingLines back)).text middle cs ps := by
    rw [Layout.text, cut.importLines_eq, Layout.text, Layout.back_behind]
    simp [Layout.behind]
  have same : wire here o n clear (l.text kept cs ps) = .ok (l.text kept cs ps) ↔
      importLines (keep here o n clear again) = importLines middle := by
    rw [h.wire_of_cut plain cut ha nonempty, Except.ok.injEq, written,
      Layout.text, Layout.text,
      List.append_left_inj, List.append_right_inj]
  have outside := filter_legible_iff h.state.sorted cut
  rw [same]
  constructor
  · intro heq
    -- Read as statements, the lines agree as well.
    have readBack := imports_lines (h.again_readable plain ha) []
    rw [heq, imports_lines readableMiddle, List.append_left_inj] at readBack
    have all : (keep here o n clear again).filter (fun i => i.Legible)
        = keep here o n clear again := by
      rw [List.filter_eq_self]
      intro i hi
      exact decide_eq_true (h.state.legible_again plain ha i (mem_of_mem_keep hi))
    rw [all] at readBack
    refine ⟨(h.state.keep_again_iff ha).mp (by rw [← readBack, cut.filter_eq]), outside.mp ?_⟩
    refine filter_eq_self_of_importLines _ ?_ (by rw [readBack, heq])
    rw [readBack]
    exact nonempty
  · intro settled
    rw [(h.state.keep_again_iff ha).mpr settled.own, cut.filter_eq,
      outside.mpr settled.outside]

section Illegible

variable (none_ : ∀ i ∈ kept, ¬ i.Legible)

include none_

omit plain in
/-- When no statement is read back, there is no block any more. -/
theorem ofText_of_illegible (hne : kept ≠ []) :
    ofText (l.text kept cs ps) = ⟨[], l.text kept cs ps⟩ := by
  have mute : ∀ i ∈ kept, i.Mute :=
    fun i hi => (h.readable.settled i hi).resolve_left (none_ i hi)
  have silentLines : ∀ v, Silent (importLines kept) v := by
    intro v
    have tail : Silent (trailingLines kept) v :=
      silent_trailingLines h.readable.wellFormed mute v
    rw [trailingLines_eq hne, ← List.singleton_append, silent_append] at tail
    exact tail.2
  refine ofText_of_silent ?_
  rw [Layout.text, List.append_assoc, silent_append, silent_append]
  refine ⟨h.calm.front.silent fun c hc => ?_, silentLines _,
    silent_back h.calm h.stillControllers h.stillProviders⟩
  rw [List.append_nil, head?_importLines hne, Option.mem_some_iff] at hc
  rw [← hc]
  decide

omit h plain in
theorem filter_legible_eq_nil : kept.filter (fun i => i.Legible) = [] := by
  rw [List.filter_eq_nil_iff]
  intro i hi
  simpa using none_ i hi

omit plain in
/-- The second wiring then merges the imports of the verifier alone. -/
theorem merges_of_illegible (hne : kept ≠ [])
    (ha : mergeImports (own here o n ++ kept.filter fun i => i.Legible) = .ok again) :
    mergeImports (own here o n ++ (ofText (l.text kept cs ps)).imports) = .ok again := by
  rw [h.ofText_of_illegible none_ hne]
  rwa [filter_legible_eq_nil none_] at ha

/-- Taking the verifier out once more has no statement to write, and leaves the text. -/
theorem wire_of_illegible_of_clear (hne : kept ≠ []) (hc : clear = true) :
    wire here o n clear (l.text kept cs ps) = .ok (l.text kept cs ps) := by
  subst hc
  obtain ⟨again, ha⟩ := h.state.exists_again
  have nothing : keep here o n true again = [] := by
    rw [(h.state.keep_again_iff ha).mpr (by simp), filter_legible_eq_nil none_]
  let l' := l.behind [] (l.front ++ importLines kept)
  have sound : l'.Sound :=
    h.sound.behind (h.sound.neutral_block h.quiet hne) fun _ _ => not_occurs_nil
  have text : l'.text [] cs ps = l.text kept cs ps := by
    rw [Layout.text, Layout.back_behind, Layout.text]
    rfl
  have once := wire_of_splice plain (l.text kept cs ps) again true sound
    (h.merges_of_illegible none_ hne ha) ?_ (.inr rfl) (h.again_quiet plain ha)
    h.entries.holds.behind
  · rw [h.listed, h.provided, nothing] at once
    rw [once, text]
  · rw [nothing, ImportBlock.splice, h.ofText_of_illegible none_ hne]
    exact text.symm

/-- Wiring the verifier once more puts a block of its own in front of the text. -/
theorem wire_of_illegible_of_not_clear (hne : kept ≠ []) (hc : clear = false) :
    ∃ again, wire here o n clear (l.text kept cs ps)
      = .ok (importLines again ++ '\n' :: l.text kept cs ps) := by
  subst hc
  obtain ⟨again, ha⟩ := h.state.exists_again
  refine ⟨again, ?_⟩
  let l' := l.behind [] ('\n' :: (l.front ++ importLines kept))
  have newline : ∀ name ∈ arrayNames,
      Neutral name ('\n' :: (l.front ++ importLines kept)) :=
    fun name hname =>
      (neutral_newline hname).append (h.sound.neutral_block h.quiet hne name hname)
  have sound : l'.Sound := h.sound.behind newline fun _ _ => not_occurs_nil
  have text : l'.text again cs ps = importLines again ++ '\n' :: l.text kept cs ps := by
    rw [Layout.text, Layout.back_behind, Layout.text]
    simp [l', Layout.behind]
  have once := wire_of_splice plain (l.text kept cs ps) again false sound
    (h.merges_of_illegible none_ hne ha) ?_ (.inr rfl) (h.again_quiet plain ha)
    h.entries.holds.behind
  · rw [h.listed, h.provided, keep_false] at once
    rw [once, text]
  · rw [keep_false, h.ofText_of_illegible none_ hne, splice_lines (merged_ne_nil ha),
      Layout.back_behind, Layout.text]
    simp [l', Layout.behind]

/-- **The second wiring of statements of which none is read back.** -/
theorem wire_iff_of_illegible (hne : kept ≠ []) :
    wire here o n clear (l.text kept cs ps) = .ok (l.text kept cs ps) ↔
    Settled here o n clear kept := by
  rcases Bool.eq_false_or_eq_true clear with hc | hc
  · refine iff_of_true (h.wire_of_illegible_of_clear plain none_ hne hc) ⟨by simp [hc], ?_⟩
    exact fun i _ _ => .inl fun j hj legible => absurd legible (none_ j hj)
  · obtain ⟨again, second⟩ := h.wire_of_illegible_of_not_clear plain none_ hne hc
    refine iff_of_false ?_ ?_
    · rw [second, Except.ok.injEq]
      intro heq
      have longer := congrArg List.length heq
      simp only [List.length_append, List.length_cons] at longer
      omega
    · intro settled
      obtain ⟨j, hj⟩ : ∃ j, j ∈ own here o n := ⟨_, List.mem_cons_self⟩
      obtain ⟨k, hk, hkm, -⟩ := h.state.wired hc j hj .module trivial
      exact none_ k hk (settled.own hc k hk j hj hkm.symm)

end Illegible

/-- **A wiring leaves what it has written alone** exactly if the kept statements are
settled. -/
theorem wire_iff (hne : kept ≠ []) :
    wire here o n clear (l.text kept cs ps) = .ok (l.text kept cs ps) ↔
    Settled here o n clear kept := by
  by_cases some_ : ∃ i ∈ kept, i.Legible
  · exact h.wire_iff_of_legible plain some_
  · refine h.wire_iff_of_illegible plain ?_ hne
    intro i hi legible
    exact some_ ⟨i, hi, legible⟩

end Written

end Again

/-! ## Hand-written app modules -/

section Content

variable {here : Path} {o : Options} {n : Names} {clear : Bool} {content : List Char}
  {controllers providers : ArrayLiteral} {merged : List Import}

variable (clear) in
/-- What the first wiring writes. -/
theorem exists_written (regular : Regular content controllers providers)
    (plain : Plain here o n)
    (hm : mergeImports (own here o n ++ (ofText content).imports) = .ok merged)
    (settled : ∀ i ∈ keep here o n clear merged, i.Legible ∨ i.Mute)
    (hne : keep here o n clear merged ≠ []) :
    ∃ l cs ps, wire here o n clear content = .ok (l.text (keep here o n clear merged) cs ps) ∧
      Written here o n clear l (keep here o n clear merged) cs ps ∧
      l.front = (ofText content).front.getD [] := by
  by_cases himports : (ofText content).imports = []
  · -- The lines are put in front of a text without statements.
    obtain ⟨whole, l, sound, calm, hfront, hback, holds, stillC, stillP⟩ :=
      regular.exists_layout_of_nil himports
    have wf : ∀ i ∈ keep here o n clear merged, i.WellFormed := by
      rw [himports] at hm
      exact wellFormed_keep plain hm (by simp) clear
    have quiet : ∀ i ∈ keep here o n clear merged, ∀ s ∈ i.parts, ∀ name ∈ arrayNames,
        ¬ Occurs name s.toList := by
      rw [himports] at hm
      exact quiet_keep plain hm (by simp) clear
    have soundBehind : (l.behind [] ['\n']).Sound :=
      sound.behind (fun name hname => neutral_newline hname) fun _ _ => not_occurs_nil
    have written := wire_of_splice plain content merged clear soundBehind hm ?_ (.inr rfl)
      quiet holds.behind
    · refine ⟨_, _, _, written, ⟨soundBehind, ⟨?_, ?_, calm.between, calm.rest⟩,
        holds.behind.entries.edit plain.controllerClass plain.serviceClass clear,
        plain.controllerClass.still_edit stillC clear,
        plain.serviceClass.still_edit stillP clear,
        edit_edit _ _ _ _, edit_edit _ _ _ _, kept_keep hm, ⟨wf, settled⟩,
        quiet⟩, by rw [whole]; rfl⟩
      · rw [← hfront]
        exact calm.front
      · intro v
        show Silent (['\n'] ++ l.frame.lead) ('[' :: v)
        rw [silent_append]
        exact ⟨silent_of_not_mem (by decide) _, calm.lead v⟩
    · rw [whole, splice_lines hne, Layout.back_behind, ← hback]
      simp [Layout.behind]
  · obtain ⟨l, parsed, -⟩ := regular.exists_parsed himports
    obtain ⟨_, _, -, holds⟩ := parsed.back
    exact ⟨l, _, _, parsed.wire clear plain hm hne, ⟨parsed.sound, parsed.calm,
      holds.entries.edit plain.controllerClass plain.serviceClass clear,
      plain.controllerClass.still_edit parsed.stillControllers clear,
      plain.serviceClass.still_edit parsed.stillProviders clear, edit_edit _ _ _ _,
      edit_edit _ _ _ _,
      kept_keep hm, ⟨wellFormed_keep plain hm parsed.wellFormed clear, settled⟩,
      quiet_keep plain hm parsed.quiet clear⟩,
      by rw [parsed.front]; rfl⟩

/-- Nothing is kept of a text without statements when the verifier is taken out. -/
theorem keep_true_of_nil (hm : mergeImports (own here o n) = .ok merged) :
    keep here o n true merged = [] := by
  rw [keep_true, List.filter_eq_nil_iff]
  intro i hi
  obtain ⟨j, hj, hji, -⟩ := ((mergeImports_eq_ok_iff.mp hm).2 i.module .module).mp ⟨i,
    hi, rfl, trivial⟩
  rw [List.all_eq_true]
  intro apart
  exact of_decide_eq_true (apart j hj) hji

/-- Taking a verifier out of a text without statements changes the arrays only. -/
theorem wire_true_of_nil (plain : Plain here o n) {l : Layout} {x y : List Char}
    {cs ps : List String}
    (sound : l.Sound) (hfront : l.front = []) (holds : l.Holds x y cs ps)
    (whole : ofText (l.back x y) = ⟨[], l.back x y⟩)
    (hm : mergeImports (own here o n) = .ok merged) :
    wire here o n true (l.back x y)
      = .ok (l.back (join ", " (edit true n.controllerClass cs)).toList
          (join ", " (edit true n.serviceClass ps)).toList) := by
  have nothing := keep_true_of_nil hm
  have written := wire_of_splice plain (l.back x y) merged true sound
    ?_ ?_ (.inr hfront) ?_ holds
  · rw [written, Layout.text, nothing, hfront]
    rfl
  · rw [whole]
    exact hm
  · rw [nothing, whole, hfront]
    rfl
  · rw [nothing]
    intro i hi
    cases hi

/-- **Wiring twice.**  Wiring a plain verifier into a regular text once more changes nothing,
exactly if the kept statements are settled.  The first wiring succeeds in any case, and so does
the second one; where they differ, a statement that was written on one line has not been read
back. -/
theorem wire_wire_iff (regular : Regular content controllers providers)
    (plain : Plain here o n)
    (hm : mergeImports (own here o n ++ (ofText content).imports) = .ok merged)
    (settled : ∀ i ∈ keep here o n clear merged, i.Legible ∨ i.Mute)
    (stays : (ofText content).imports ≠ [] → keep here o n clear merged ≠ []) :
    ∃ d, wire here o n clear content = .ok d ∧
      (wire here o n clear d = .ok d ↔
        Settled here o n clear (keep here o n clear merged)) := by
  by_cases hne : keep here o n clear merged = []
  · -- Only a text without statements is left without statements.
    have himports : (ofText content).imports = [] := Classical.byContradiction fun hi =>
      stays hi hne
    obtain rfl : clear = true := by
      cases clear with
      | true => rfl
      | false =>
          rw [keep_false] at hne
          exact absurd hne (merged_ne_nil hm)
    rw [himports, List.append_nil] at hm
    obtain ⟨whole, l, sound, calm, hfront, hback, holds, stillC, stillP⟩ :=
      regular.exists_layout_of_nil himports
    have silent := silent_back calm (plain.controllerClass.still_edit stillC true)
      (plain.serviceClass.still_edit stillP true)
    have entries := holds.entries.edit plain.controllerClass plain.serviceClass true
    have first := wire_true_of_nil plain sound hfront holds (by rw [← hback, whole]) hm
    have second := wire_true_of_nil plain sound hfront entries.holds (ofText_of_silent silent)
      hm
    rw [edit_edit, edit_edit] at second
    rw [← hback] at first
    refine ⟨_, first, iff_of_true second ?_⟩
    rw [hne]
    exact ⟨by simp, by simp⟩
  · obtain ⟨l, cs, ps, first, written, -⟩ := exists_written clear regular plain hm settled hne
    exact ⟨_, first, written.wire_iff plain hne⟩

end Content

/-- The small module is stable after the first wiring, since all of its statements are read
back. -/
theorem wire_wire_smallModule : ∃ d,
    wire ⟨"/"⟩ .template (Names.make .template "Payment" "BTC") false smallModule = .ok d ∧
    wire ⟨"/"⟩ .template (Names.make .template "Payment" "BTC") false d = .ok d := by
  have plain := plain_template ⟨"/"⟩
  generalize Names.make .template "Payment" "BTC" = n at plain ⊢
  have named : ∀ i ∈ own ⟨"/"⟩ .template n ++ (ofText smallModule).imports,
      i.default = none ∧ i.wildcard = none := by
    intro i hi
    rcases List.mem_append.mp hi with hi | hi
    · exact own_named hi
    · rw [imports_smallModule, List.mem_singleton] at hi
      rw [hi]
      exact ⟨rfl, rfl⟩
  have compatible : Compatible (own ⟨"/"⟩ .template n ++ (ofText smallModule).imports) := by
    have nothing : Sorted [] := List.Pairwise.nil
    rw [← List.append_nil (own _ _ _ ++ _)]
    exact Compatible.append_named named nothing.compatible
  obtain ⟨merged, hm⟩ := exists_mergeImports_iff.mpr compatible
  have tame : Tame (own ⟨"/"⟩ .template n ++ (ofText smallModule).imports) := by
    refine ⟨fun i hi => ?_, fun i hi j hj _ hw => absurd (named i hi).2 hw⟩
    rcases List.mem_append.mp hi with hi | hi
    · exact (own_legible plain i hi).1
    · rw [imports_smallModule, List.mem_singleton] at hi
      rw [hi]
      decide
  have legible : ∀ i ∈ keep ⟨"/"⟩ .template n false merged, i.Legible := by
    rw [keep_false]
    exact tame.legible (mergeImports_eq_ok_iff.mp hm).2
  have nonempty : keep ⟨"/"⟩ .template n false merged ≠ [] := by
    rw [keep_false]
    exact merged_ne_nil hm
  obtain ⟨d, first, second⟩ := wire_wire_iff regular_smallModule plain hm
    (fun i hi => .inl (legible i hi)) fun _ => nonempty
  refine ⟨d, first, second.mpr ⟨fun _ i hi _ _ _ => legible i hi, fun i hi illegible => ?_⟩⟩
  exact absurd (legible i hi) illegible

/-- A module that imports one package in two ways, and another package behind it.  The merge
joins the first two statements into one. -/
def twoWays : List Char :=
  "import D from 'm';\n".toList ++ "import * as ns from 'm';\n".toList
    ++ "import \x7b Y \x7d from 'z';\n".toList ++ "controllers: [], ".toList
      ++ "providers: []".toList

/-- What it imports. -/
def twoWaysImports : List Import :=
  [⟨some "D", .empty, none, "m"⟩, ⟨none, .empty, some "ns", "m"⟩, Import.ofNames "z" ["Y"]]

theorem imports_twoWays : (ofText twoWays).imports = twoWaysImports := by decide +kernel

theorem exists_regular_twoWays :
    ∃ controllers providers, Regular twoWays controllers providers :=
  exists_regular_of_not_mem (by decide +kernel) (by decide +kernel) (by decide +kernel)
    (by decide +kernel)

section TwoWays

variable {here : Path} {o : Options} {n : Names} {merged : List Import}

/-- The files of a verifier are no packages. -/
theorem isPath_own {j : Import} (hj : j ∈ own here o n) : j.isPath = true := by
  simp [Import.isPath, own_relative hj]

/-- Packages are imported by the module only. -/
theorem mem_twoWaysImports {j : Import} (hj : j ∈ own here o n ++ twoWaysImports)
    (package : j.module = "m") :
    j ∈ twoWaysImports := by
  refine (List.mem_append.mp hj).resolve_left fun hj => ?_
  have path := isPath_own hj
  rw [Import.isPath, package] at path
  exact absurd path (by decide)

variable (same : SameImports merged (own here o n ++ twoWaysImports))
include same

/-- All statements but the one for the package of two ways can be read back. -/
theorem legible_twoWays (plain : Plain here o n) {i : Import} (hi : i ∈ merged)
    (other : i.module ≠ "m") :
    i.Legible := by
  have ofModule : ∀ j ∈ twoWaysImports, j.module ≠ "m" → j.module ≠ "" ∧
    j.wildcard = none := by decide
  refine legible_of_wildcard_eq_none same hi fun j hj hjm => ?_
  rcases List.mem_append.mp hj with hj | hj
  · exact ⟨(own_legible plain j hj).1, (own_named hj).2⟩
  · exact ofModule j hj (hjm ▸ other)

/-- The package of two ways is imported on one line, which cannot be read back. -/
theorem exists_mute_twoWays (sorted : Sorted merged) :
    ∃ i ∈ merged, i.module = "m" ∧ i.Mute := by
  have provides : ∀ {item}, Provides twoWaysImports "m" item →
    Provides (own here o n ++ twoWaysImports) "m" item :=
    fun given => provides_append.mpr (.inr given)
  obtain ⟨i, hi, him, -⟩ :=
    (same "m" .module).mpr (provides ⟨_, List.mem_cons_self, rfl, trivial⟩)
  have illegible : ¬ i.Legible := by
    refine not_legible_of_provides same hi sorted (w := "ns") ?_ (.inl ⟨"D", ?_⟩)
    · rw [him]
      exact provides ⟨⟨none, .empty, some "ns", "m"⟩, by decide, rfl, rfl⟩
    · rw [him]
      exact provides ⟨⟨some "D", .empty, none, "m"⟩, by decide, rfl, rfl⟩
  have unquoted : ∀ j ∈ twoWaysImports, ∀ d ∈ j.default, ∀ c ∈ d.toList,
      isQuote c = false := by
    simp [twoWaysImports, Import.ofNames, isQuote]
  have harmless : ∀ j ∈ twoWaysImports, ∀ s ∈ j.parts, ¬ "import".toList <:+: s.toList := by
    decide +kernel
  refine ⟨i, hi, him, mute_of_sameImports same hi illegible fun j hj hjm => ?_⟩
  have own := mem_twoWaysImports hj (hjm.trans him)
  exact ⟨unquoted j own, harmless j own⟩

/-- The line stands between others that can be read back: paths come before packages, and `m`
before `z`. -/
theorem not_outside_twoWays (plain : Plain here o n) {i : Import} (him : i.module = "m") :
    ¬ ((∀ j ∈ merged, j.Legible → i.before j = true) ∨ ∀ j ∈ merged, j.Legible →
      j.before i = true) := by
  rintro (before | behind)
  · obtain ⟨j, hj⟩ : ∃ j, j ∈ own here o n := ⟨_, List.mem_cons_self⟩
    obtain ⟨k, hk, hkj, -⟩ :=
      (same j.module .module).mpr ⟨j, List.mem_append_left _ hj, rfl, trivial⟩
    have path : k.isPath = true := by
      rw [Import.isPath, hkj]
      exact isPath_own hj
    have package : i.isPath = false := by
      rw [Import.isPath, him]
      decide
    have other : k.module ≠ "m" := by
      intro hkm
      rw [Import.isPath, hkm] at path
      exact absurd path (by decide)
    have order := before k hk (legible_twoWays same plain hk other)
    rw [Import.before, path, package] at order
    cases order
  · obtain ⟨k, hk, hkz, -⟩ := (same "z" .module).mpr
      (provides_append.mpr (.inr
        ⟨Import.ofNames "z" ["Y"], by simp [twoWaysImports], rfl, trivial⟩))
    have order := behind k hk (legible_twoWays same plain hk (by rw [hkz]; decide))
    rw [Import.before, Import.isPath, Import.isPath, hkz, him] at order
    exact absurd order (by decide)

end TwoWays

/-- **A statement that is lost**: the package is imported on one line that cannot be read back,
between lines that can.  The first wiring writes `import D * as ns from 'm';`, and the second
one takes that line for text within the block and drops it. -/
theorem exists_wire_wire_ne : ∃ d,
    wire ⟨"/"⟩ .template (Names.make .template "Payment" "BTC") false twoWays = .ok d ∧
    wire ⟨"/"⟩ .template (Names.make .template "Payment" "BTC") false d ≠ .ok d := by
  have plain := plain_template ⟨"/"⟩
  generalize Names.make .template "Payment" "BTC" = n at plain ⊢
  have listed := imports_twoWays
  obtain ⟨controllers, providers, regular⟩ := exists_regular_twoWays
  generalize twoWays = content at listed regular ⊢
  obtain ⟨merged, -, hm, -⟩ := exists_wire_of_merges regular plain (by rw [listed]; nofun)
    (by rw [listed]; exact ⟨_, rfl⟩)
  obtain ⟨sorted, same⟩ := mergeImports_eq_ok_iff.mp hm
  rw [listed] at same
  have nonempty : keep ⟨"/"⟩ .template n false merged ≠ [] := by
    rw [keep_false]
    exact merged_ne_nil hm
  obtain ⟨i, hi, him, mute⟩ := exists_mute_twoWays same sorted
  have settled : ∀ j ∈ keep ⟨"/"⟩ .template n false merged, j.Legible ∨ j.Mute := by
    rw [keep_false]
    intro j hj
    by_cases package : j.module = "m"
    · rw [sorted.eq_of_module_eq hj hi (package.trans him.symm)]
      exact .inr mute
    · exact .inl (legible_twoWays same plain hj package)
  obtain ⟨l, cs, ps, first, written, -⟩ :=
    exists_written false regular plain hm settled nonempty
  refine ⟨_, first, fun second => ?_⟩
  have outside := ((written.wire_iff plain nonempty).mp second).outside
  rw [keep_false] at outside
  exact not_outside_twoWays same plain him (outside i hi mute.illegible)

end Attestation.Verifier
