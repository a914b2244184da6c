import Attestation.Proofs.Path.Plain
import Attestation.Proofs.Script.ImportMerge
import Attestation.Proofs.Script.StillEntries
import Attestation.Proofs.Verifier.Anchors

/-!
# The parts of an app module

Wiring changes three parts of an app module, the import block and two arrays, and leaves the
text around them alone.  `Layout` is the text around them, and `Layout.text` puts the parts
back in.

## Main definitions

* `Layout.Sound`: the text around the parts adds no anchor.
* `Layout.Calm`: the text around the parts adds no statement either, so that `Layout.text` can
  be read back.

## Main results

* `wire_of_splice`: what wiring makes of a text once its parts are known.

## Design notes

The arrays may stand in either order, and everything is symmetric in them but the text between;
a layout has a flag for the order, so that no statement is made twice.  Anchors are searched
for in the whole text.  That a text around the parts is neutral is stronger than that it holds
no anchor: none may come about at its end either.
-/

namespace Attestation.Verifier

open Text ArrayLiteral ImportBlock

/-- The text of an app module around its import block and its arrays. -/
structure Layout where
  /-- The text in front of the import block. -/
  front : List Char
  /-- Whether the providers stand before the controllers. -/
  swapped : Bool
  /-- The text behind the import block, around the arrays. -/
  frame : Frame

namespace Layout

/-- The text behind the import block. -/
def back (l : Layout) (controllers providers : List Char) : List Char :=
  if l.swapped then l.frame.plug providers controllers else l.frame.plug controllers providers

/-- The whole text. -/
def text (l : Layout) (imports : List Import) (controllers providers : List String) :
    List Char :=
  l.front ++ importLines imports
    ++ l.back (join ", " controllers).toList (join ", " providers).toList

/-- The array that comes first. -/
def first (l : Layout) : String := if l.swapped then "providers" else "controllers"

/-- The array that comes second. -/
def second (l : Layout) : String := if l.swapped then "controllers" else "providers"

/-- What stands in the first array. -/
def inFirst {α : Type} (l : Layout) (controllers providers : α) : α :=
  if l.swapped then providers else controllers

/-- The arrays are found where the layout has them: each anchor occurs first in front of its
own bracket. -/
structure Sound (l : Layout) : Prop where
  fits : l.frame.Fits l.first l.second
  front : ∀ name ∈ arrayNames, ¬ Occurs name l.front

end Layout

/-! ## Wiring the arrays -/

/-- The entries with the given one once, as the last of them, or without it when `clear` is
set. -/
def edit {α : Type} [DecidableEq α] (clear : Bool) (entry : α) (entries : List α) : List α :=
  if clear then entries.filter (· ≠ entry) else entries.filter (· ≠ entry) ++ [entry]

section Edit

variable {α : Type} [DecidableEq α] {clear : Bool} {entry e : α} {entries : List α}

theorem mem_edit (h : e ∈ edit clear entry entries) : e = entry ∨ e ∈ entries := by
  unfold edit at h
  split at h
  · exact .inr (List.mem_filter.mp h).1
  · rcases List.mem_append.mp h with h | h
    · exact .inr (List.mem_filter.mp h).1
    · exact .inl (List.mem_singleton.mp h)

/-- An edit forgets an earlier one. -/
theorem edit_edit (clear earlier : Bool) (entry : α) (entries : List α) :
    edit clear entry (edit earlier entry entries) = edit clear entry entries := by
  unfold edit
  cases clear <;> cases earlier <;> simp [List.filter_filter]

/-- Other entries stay where they are. -/
theorem edit_append_cons (clear : Bool) (h : e ≠ entry) (before after : List α) :
    edit clear entry (before ++ e :: after)
      = before.filter (· ≠ entry) ++ e :: edit clear entry after := by
  unfold edit
  cases clear <;> simp [h]

end Edit

theorem wireArray_of_extract {name entry : String} {clear : Bool} {content : List Char}
    {a : ArrayLiteral} (h : extract (.array name) content = .ok a) :
    wireArray name entry clear content
      = .ok (a.before ++ '[' :: (join ", " (edit clear entry a.entries)).toList
        ++ ']' :: a.after) := by
  rw [wireArray, h]
  cases clear <;> rfl

/-- A word of letters and digits. -/
structure IsAlphanum (name : String) : Prop where
  nonempty : name.toList ≠ []
  alphanum : ∀ c ∈ name.toList, c.isAlphanum = true

namespace IsAlphanum

variable {name : String} (h : IsAlphanum name)
include h

theorem not_blank {c : Char} (hc : c ∈ name.toList) : isBlank c = false := by
  cases hb : isBlank c with
  | false => rfl
  | true =>
      have letter := h.alphanum c hc
      have ascii : ∀ d ∈ blanks, d.isAlphanum = false := forall_mem_of_all (by decide)
      rw [ascii c (by simpa [isBlank] using hb)] at letter
      cases letter

theorem ne_of_mem {c d : Char} (hc : c ∈ name.toList) (hd : d.isAlphanum = false) : c ≠ d := by
  rintro rfl
  rw [h.alphanum c hc] at hd
  cases hd

theorem isEntry : IsEntry name := by
  refine .inl (isWord_of_no_blank h.nonempty ?_)
  intro c hc
  have apart : ∀ d : Char, d.isAlphanum = false → c ≠ d := fun d => h.ne_of_mem hc
  refine ⟨?_, h.not_blank hc⟩
  simp [isBare, isOpening, isClosing, apart ',' (by decide), apart '[' (by decide),
    apart '\x7b' (by decide), apart '(' (by decide), apart ']' (by decide),
    apart '\x7d' (by decide),
    apart ')' (by decide)]

theorem not_occurs (array : String) : ¬ Occurs array name.toList := by
  rintro ⟨w, -, part⟩
  exact h.ne_of_mem (part.subset (by simp)) (show '['.isAlphanum = false by decide) rfl

theorem still : Still name := still_of_alphanum h.alphanum

theorem still_edit {entries : List String} (hs : ∀ e ∈ entries, Still e) (clear : Bool) :
    ∀ e ∈ edit clear name entries, Still e := by
  intro e he
  rcases mem_edit he with rfl | he
  · exact h.still
  · exact hs e he

end IsAlphanum

/-- The two arrays of a text, with their entries, where no anchor of the second stands in the
first.  Otherwise the second one would be searched for, and found, among the entries of the
first. -/
structure Layout.Holds (l : Layout) (x y : List Char) (controllers providers : List String) :
    Prop where
  readsControllers : Reads x controllers
  readsProviders : Reads y providers
  apart : ¬ Occurs l.second (l.inFirst x y)

/-- Entries of the arrays of a layout. -/
structure Layout.Entries (l : Layout) (controllers providers : List String) : Prop where
  inControllers : ∀ e ∈ controllers, IsEntry e
  inProviders : ∀ e ∈ providers, IsEntry e
  apart : ∀ e ∈ l.inFirst controllers providers, ¬ Occurs l.second e.toList

namespace Layout

variable {l : Layout} {x y : List Char} {cs ps : List String}

theorem second_mem (l : Layout) : l.second ∈ arrayNames := by
  unfold second
  split <;> decide

theorem Holds.entries (h : l.Holds x y cs ps) : l.Entries cs ps := by
  refine ⟨fun e he => (h.readsControllers.isEntry e he).1, fun e he =>
    (h.readsProviders.isEntry e he).1, ?_⟩
  have apart := h.apart
  have hc := h.readsControllers
  have hp := h.readsProviders
  unfold inFirst at apart ⊢
  cases hs : l.swapped with
  | true =>
      rw [hs, if_pos rfl] at apart
      intro e he ho
      exact apart (ho.mono (hp.isEntry e he).2)
  | false =>
      rw [hs, if_neg (by simp)] at apart
      intro e he ho
      exact apart (ho.mono (hc.isEntry e he).2)

/-- Entries that are written into the arrays are held by them. -/
theorem Entries.holds (h : l.Entries cs ps) :
    l.Holds (join ", " cs).toList (join ", " ps).toList cs ps := by
  refine ⟨reads_join h.inControllers, reads_join h.inProviders, ?_⟩
  have same : l.inFirst (join ", " cs).toList (join ", " ps).toList
      = (join ", " (l.inFirst cs ps)).toList := by
    unfold inFirst
    split <;> rfl
  rw [same]
  intro ho
  obtain ⟨e, he, ho⟩ := exists_of_occurs_join (isArrayName l.second_mem) ho
  exact h.apart e he ho

theorem Entries.edit (h : l.Entries cs ps) {c p : String} (hc : IsAlphanum c)
    (hp : IsAlphanum p)
    (clear : Bool) : l.Entries (edit clear c cs) (edit clear p ps) := by
  refine ⟨?_, ?_, ?_⟩
  · intro e he
    rcases mem_edit he with rfl | he
    · exact hc.isEntry
    · exact h.inControllers e he
  · intro e he
    rcases mem_edit he with rfl | he
    · exact hp.isEntry
    · exact h.inProviders e he
  · have apart := h.apart
    intro e he
    unfold inFirst at apart he
    cases hs : l.swapped with
    | true =>
        rw [hs, if_pos rfl] at apart he
        rcases mem_edit he with rfl | he
        · exact hp.not_occurs _
        · exact apart e he
    | false =>
        rw [hs, if_neg (by simp)] at apart he
        rcases mem_edit he with rfl | he
        · exact hc.not_occurs _
        · exact apart e he

variable {u : List Char}

/-- The controllers are found, and the text around them stays the same whatever is put
there. -/
theorem exists_extract_controllers (sound : l.Sound) (hu : ∀ name ∈ arrayNames, Neutral name u)
    (h : l.Holds x y cs ps) : ∃ before after,
      extract (.array "controllers") (u ++ l.back x y) = .ok ⟨before, x, after, cs⟩ ∧
        ∀ z, u ++ l.back z y = before ++ '[' :: z ++ ']' :: after := by
  obtain ⟨front, swapped, frame⟩ := l
  have fits := sound.fits
  cases swapped with
  | true =>
      have apart : ¬ Occurs "controllers" y := h.apart
      refine ⟨_, _, Frame.extract_second isArrayName_controllers fits (hu _ (by decide)) apart
        h.readsControllers, ?_⟩
      intro z
      simp [back, Frame.plug]
  | false =>
      refine ⟨_, _, Frame.extract_first (y := y) isArrayName_controllers fits
        (hu _ (by decide))
        h.readsControllers, ?_⟩
      intro z
      simp [back, Frame.plug]

/-- The providers are found, and the text around them stays the same whatever is put there. -/
theorem exists_extract_providers (sound : l.Sound) (hu : ∀ name ∈ arrayNames, Neutral name u)
    (h : l.Holds x y cs ps) : ∃ before after,
      extract (.array "providers") (u ++ l.back x y) = .ok ⟨before, y, after, ps⟩ ∧
        ∀ z, u ++ l.back x z = before ++ '[' :: z ++ ']' :: after := by
  obtain ⟨front, swapped, frame⟩ := l
  have fits := sound.fits
  cases swapped with
  | true =>
      refine ⟨_, _, Frame.extract_first (y := x) isArrayName_providers fits (hu _ (by decide))
        h.readsProviders, ?_⟩
      intro z
      simp [back, Frame.plug]
  | false =>
      have apart : ¬ Occurs "providers" x := h.apart
      refine ⟨_, _, Frame.extract_second isArrayName_providers fits (hu _ (by decide)) apart
        h.readsProviders, ?_⟩
      intro z
      simp [back, Frame.plug]

theorem wireArray_controllers (sound : l.Sound) (hu : ∀ name ∈ arrayNames, Neutral name u)
    (h : l.Holds x y cs ps) (entry : String) (clear : Bool) :
    wireArray "controllers" entry clear (u ++ l.back x y)
      = .ok (u ++ l.back (join ", " (Verifier.edit clear entry cs)).toList y) := by
  obtain ⟨before, after, found, around⟩ := exists_extract_controllers sound hu h
  rw [wireArray_of_extract found, around]

theorem wireArray_providers (sound : l.Sound) (hu : ∀ name ∈ arrayNames, Neutral name u)
    (h : l.Holds x y cs ps) (entry : String) (clear : Bool) :
    wireArray "providers" entry clear (u ++ l.back x y)
      = .ok (u ++ l.back x (join ", " (Verifier.edit clear entry ps)).toList) := by
  obtain ⟨before, after, found, around⟩ := exists_extract_providers sound hu h
  rw [wireArray_of_extract found, around]

/-- Both arrays are rewritten, and nothing else. -/
theorem wireArrays (sound : l.Sound) (hu : ∀ name ∈ arrayNames, Neutral name u)
    (h : l.Holds x y cs ps) {c : String} (hc : IsAlphanum c) (p : String) (clear : Bool) :
    (wireArray "controllers" c clear (u ++ l.back x y) >>= wireArray "providers" p clear)
      = .ok (u ++ l.back (join ", " (Verifier.edit clear c cs)).toList
          (join ", " (Verifier.edit clear p ps)).toList) := by
  have entries := h.entries
  -- The second array is still found behind the edited first one.
  have edited : l.Holds (join ", " (Verifier.edit clear c cs)).toList y
    (Verifier.edit clear c cs) ps := by
    have all : ∀ e ∈ Verifier.edit clear c cs, IsEntry e := by
      intro e he
      rcases mem_edit he with rfl | he
      · exact hc.isEntry
      · exact entries.inControllers e he
    refine ⟨reads_join all, h.readsProviders, ?_⟩
    have apart := h.apart
    have apart' := entries.apart
    unfold inFirst at apart apart' ⊢
    cases hs : l.swapped with
    | true =>
        rw [hs, if_pos rfl] at apart
        exact apart
    | false =>
        rw [hs, if_neg (by simp)] at apart'
        rw [if_neg (by simp)]
        intro ho
        obtain ⟨e, he, inside⟩ := exists_of_occurs_join (isArrayName l.second_mem) ho
        rcases mem_edit he with rfl | he
        · exact hc.not_occurs _ inside
        · exact apart' e he inside
  rw [wireArray_controllers sound hu h]
  exact wireArray_providers sound hu edited p clear

end Layout

/-! ## Wiring a text whose parts are known -/

/-- The names of a verifier are what a script expects: classes are words, and files have plain
specifiers.  So they hold no anchor, no bracket and no quote. -/
structure Plain (here : Path) (o : Options) (n : Names) : Prop where
  controllerClass : IsAlphanum n.controllerClass
  serviceClass : IsAlphanum n.serviceClass
  controllerModule : Path.IsSpecifier (Path.specifier here (moduleDir o) n.controllerModule)
  serviceModule : Path.IsSpecifier (Path.specifier here (moduleDir o) n.serviceModule)

/-- What the app module imports for a verifier. -/
def own (here : Path) (o : Options) (n : Names) : List Import :=
  [controllerImport here o n, serviceImport here o n]

/-- The merged statements that stay: all of them, or those of other files when `clear` is
set. -/
def keep (here : Path) (o : Options) (n : Names) (clear : Bool) (merged : List Import) :
    List Import :=
  if clear then
    merged.filter fun i =>
      i.module ≠ (controllerImport here o n).module && i.module
        ≠ (serviceImport here o n).module
  else merged

theorem keep_false (here : Path) (o : Options) (n : Names) (merged : List Import) :
    keep here o n false merged = merged := if_neg (by simp)

/-- Clearing leaves out the statements for the files of the verifier. -/
theorem keep_true (here : Path) (o : Options) (n : Names) (statements : List Import) :
    keep here o n true statements
      = statements.filter fun i => (own here o n).all fun j => j.module ≠ i.module := by
  unfold keep own
  generalize controllerImport here o n = controller
  generalize serviceImport here o n = service
  rw [if_pos rfl]
  refine List.filter_congr ?_
  intro i _
  simp [eq_comm]

theorem mem_of_mem_keep {here : Path} {o : Options} {n : Names} {clear : Bool}
    {merged : List Import}
    {i : Import} (h : i ∈ keep here o n clear merged) : i ∈ merged := by
  unfold keep at h
  split at h
  · exact (List.mem_filter.mp h).1
  · exact h

theorem sorted_keep {here : Path} {o : Options} {n : Names} {clear : Bool}
    {merged : List Import}
    (h : Sorted merged) : Sorted (keep here o n clear merged) := by
  unfold keep
  generalize (controllerImport here o n).module = controller
  generalize (serviceImport here o n).module = service
  split
  · exact h.filter _
  · exact h

/-- The import of a class from a plain file. -/
theorem wellFormed_ofNames {module name : String} (hm : Path.IsSpecifier module)
    (hn : IsAlphanum name) :
    (Import.ofNames module [name]).WellFormed where
  default := by simp [Import.ofNames]
  named := by
    intro s hs
    obtain rfl : s = name := by simpa [Import.ofNames] using hs
    refine isWord_of_no_blank hn.nonempty fun c hc => ⟨?_, hn.not_blank hc⟩
    have apart : ∀ d : Char, d.isAlphanum = false → c ≠ d := fun d => hn.ne_of_mem hc
    simp [Import.isListedName, isListed, apart ',' (by decide), apart '"' (by decide),
      apart '\'' (by decide), apart '\x7b' (by decide), apart '\x7d' (by decide)]
  wildcard := by simp [Import.ofNames]
  trimmed := trimmed_of_no_blank fun c hc => hm.not_blank hc
  module := by
    intro c hc
    have apart : ∀ d : Char, Path.isSpecifierChar d = false → c ≠ d := fun d => hm.ne_of_mem hc
    simp [isModule, isQuote, apart '"' (by decide), apart '\'' (by decide),
      apart '\n' (by decide)]

theorem legible_ofNames {module : String} (hm : Path.IsSpecifier module)
    (names : List String) :
    (Import.ofNames module names).Legible := by
  refine ⟨?_, .inl rfl⟩
  rintro rfl
  exact hm.nonempty rfl

/-- The import of a class from a plain file holds no other characters than they do. -/
theorem not_mem_ofNames {module name : String} (hm : Path.IsSpecifier module)
    (hn : IsAlphanum name) {c : Char}
    (hspec : Path.isSpecifierChar c = false) (hword : c.isAlphanum = false) :
    ∀ s ∈ (Import.ofNames module [name]).parts, c ∉ s.toList := by
  refine Import.forall_parts_ofNames (fun inside => hm.ne_of_mem inside hspec rfl) fun s hs
    inside => ?_
  rw [List.mem_singleton.mp hs] at inside
  exact hn.ne_of_mem inside hword rfl

theorem not_occurs_ofNames {module name : String} (hm : Path.IsSpecifier module)
    (hn : IsAlphanum name)
    (array : String) : ∀ s ∈ (Import.ofNames module [name]).parts,
      ¬ Occurs array s.toList := by
  rintro s hs ⟨w, -, part⟩
  exact not_mem_ofNames hm hn (by decide) (by decide) s hs
    (part.subset (by simp) : '[' ∈ s.toList)

section Own

variable {here : Path} {o : Options} {n : Names}

/-- The files of a verifier are imported by names only. -/
theorem own_named {i : Import} (h : i ∈ own here o n) :
    i.default = none ∧ i.wildcard = none := by
  simp only [own, List.mem_cons, List.not_mem_nil, or_false] at h
  rcases h with rfl | rfl <;> exact ⟨rfl, rfl⟩

/-- The files of a verifier are imported by relative paths. -/
theorem own_relative {i : Import} (h : i ∈ own here o n) :
    i.module.toList.head? = some '.' := by
  simp only [own, controllerImport, serviceImport, Import.ofNames, List.mem_cons,
    List.not_mem_nil,
    or_false] at h
  rcases h with rfl | rfl <;> simp only [Path.head?_specifier]

variable (plain : Plain here o n)
include plain

theorem own_wellFormed : ∀ i ∈ own here o n, i.WellFormed := by
  simp only [own, List.mem_cons, List.not_mem_nil, or_false]
  rintro i (rfl | rfl)
  · exact wellFormed_ofNames plain.controllerModule plain.controllerClass
  · exact wellFormed_ofNames plain.serviceModule plain.serviceClass

theorem own_legible : ∀ i ∈ own here o n, i.Legible := by
  simp only [own, List.mem_cons, List.not_mem_nil, or_false]
  rintro i (rfl | rfl)
  · exact legible_ofNames plain.controllerModule _
  · exact legible_ofNames plain.serviceModule _

theorem own_not_mem {c : Char} (hspec : Path.isSpecifierChar c = false)
    (hword : c.isAlphanum = false) :
    ∀ i ∈ own here o n, ∀ s ∈ i.parts, c ∉ s.toList := by
  simp only [own, List.mem_cons, List.not_mem_nil, or_false]
  rintro i (rfl | rfl)
  · exact not_mem_ofNames plain.controllerModule plain.controllerClass hspec hword
  · exact not_mem_ofNames plain.serviceModule plain.serviceClass hspec hword

theorem own_quiet (array : String) :
    ∀ i ∈ own here o n, ∀ s ∈ i.parts, ¬ Occurs array s.toList := by
  simp only [own, List.mem_cons, List.not_mem_nil, or_false]
  rintro i (rfl | rfl)
  · exact not_occurs_ofNames plain.controllerModule plain.controllerClass array
  · exact not_occurs_ofNames plain.serviceModule plain.serviceClass array

variable {l : Layout} {content x y : List Char} {cs ps : List String} {merged : List Import}
  {clear : Bool}

omit plain in
theorem wireImports_of_merged
    (hm : mergeImports (own here o n ++ (ofText content).imports) = .ok merged) :
    wireImports here o n clear content
      = .ok ((ofText content).splice (importLines (keep here o n clear merged))) := by
  rw [wireImports]
  show (mergeImports (own here o n ++ (ofText content).imports) >>= _) = _
  rw [hm]
  rfl

omit plain in
/-- The front of a layout with a block of lines behind it. -/
theorem Layout.Sound.neutral_block (sound : l.Sound) {imports : List Import}
    (quiet : ∀ i ∈ imports, ∀ s ∈ i.parts, ∀ name ∈ arrayNames, ¬ Occurs name s.toList)
    (hne : imports ≠ []) :
    ∀ name ∈ arrayNames, Neutral name (l.front ++ importLines imports) :=
  fun name hname => neutral_lines hname (sound.front name hname)
    (fun i hi s hs => quiet i hi s hs name hname) hne

variable (content merged clear) in
/-- **What wiring makes of a text** in which other import lines leave the layout `l` alone. -/
theorem wire_of_splice (sound : l.Sound)
    (hm : mergeImports (own here o n ++ (ofText content).imports) = .ok merged)
    (hs : (ofText content).splice (importLines (keep here o n clear merged))
      = l.front ++ importLines (keep here o n clear merged) ++ l.back x y)
    (hne : keep here o n clear merged ≠ [] ∨ l.front = [])
    (quiet : ∀ i ∈ keep here o n clear merged, ∀ s ∈ i.parts, ∀ name ∈ arrayNames,
      ¬ Occurs name s.toList)
    (holds : l.Holds x y cs ps) :
    wire here o n clear content
      = .ok (l.text (keep here o n clear merged) (edit clear n.controllerClass cs)
          (edit clear n.serviceClass ps)) := by
  have imported : wireImports here o n clear content
      = .ok (l.front ++ importLines (keep here o n clear merged) ++ l.back x y) := by
    rw [← hs, wireImports_of_merged hm]
  have neutral : ∀ name ∈ arrayNames,
    Neutral name (l.front ++ importLines (keep here o n clear merged)) := by
    intro name hname
    by_cases hk : keep here o n clear merged = []
    · rw [hk, hne.resolve_left (not_not.mpr hk)]
      exact neutral_nil name
    · exact sound.neutral_block quiet hk name hname
  rw [wire, imported]
  show (wireArray "controllers" n.controllerClass clear _ >>= _) = _
  rw [Layout.wireArrays sound neutral holds plain.controllerClass]
  rfl

omit plain in
/-- **Wiring step by step**: the imports are merged, and then both arrays are edited. -/
theorem wire_eq_ok_iff {d : List Char} :
    wire here o n clear content = .ok d ↔ ∃ merged middle,
      mergeImports (own here o n ++ (ofText content).imports) = .ok merged ∧
      wireArray "controllers" n.controllerClass clear
        ((ofText content).splice (importLines (keep here o n clear merged))) = .ok middle ∧
      wireArray "providers" n.serviceClass clear middle = .ok d := by
  constructor
  · intro h
    cases hm : mergeImports (own here o n ++ (ofText content).imports) with
    | error e =>
        have failed : wireImports here o n clear content = .error e := by
          rw [wireImports]
          show (mergeImports (own here o n ++ (ofText content).imports) >>= _) = _
          rw [hm]
          rfl
        rw [wire, failed] at h
        cases h
    | ok merged =>
        rw [wire, wireImports_of_merged hm] at h
        change (wireArray "controllers" n.controllerClass clear _ >>= _) = _ at h
        cases first : wireArray "controllers" n.controllerClass clear
            ((ofText content).splice (importLines (keep here o n clear merged))) with
        | error e => rw [first] at h; cases h
        | ok middle =>
            rw [first] at h
            exact ⟨merged, middle, rfl, first, h⟩
  · rintro ⟨merged, middle, hm, first, second⟩
    rw [wire, wireImports_of_merged hm]
    show (wireArray "controllers" n.controllerClass clear _ >>= _) = _
    rw [first]
    exact second

omit plain in
/-- Wiring merges the imports first. -/
theorem exists_merged_of_wire {d : List Char} (h : wire here o n clear content = .ok d) :
    ∃ merged, mergeImports (own here o n ++ (ofText content).imports) = .ok merged := by
  obtain ⟨merged, -, hm, -⟩ := wire_eq_ok_iff.mp h
  exact ⟨merged, hm⟩

end Own

end Attestation.Verifier
