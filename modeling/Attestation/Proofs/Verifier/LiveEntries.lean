import Attestation.Proofs.Script.ImportLive
import Attestation.Proofs.Verifier.Unwiring

/-!
# Classes behind comments

Wiring writes all entries of an array on one line, with the class of the verifier as the last
one.  A comment that stood at the end of a line becomes part of the entry behind it, and from
then on hides whatever is written behind that entry (`classLive_iff`).

## Main definitions

* `OpenComment`: a comment is started in one of some texts, and no line break ends it.
* `ClassLive`: the class of a verifier is listed, and no comment hides it.
* `Lined`: both arrays open on lines of their own.

## Design notes

The state of a reader of comments behind a text is open or not, and is computed along the text.
Behind joined entries it is the disjunction over the entries, because the separators hold
neither line breaks nor the start of a comment (`commented_leadingEntries_iff`).  The first
array can hide the class in the second one as well, when no line break stands between the two;
`Lined` excludes this.
-/

namespace Attestation

open Text

/-! ## Comments in a text that is put together -/

namespace ImportBlock

variable {u v p : List Char} {c : Char} {more : List (List Char)}

theorem lastLine_append_of_mem (h : '\n' ∈ v) : lastLine (u ++ v) = lastLine v := by
  have stops : ¬ (v.reverse.takeWhile (· ≠ '\n')).length = v.reverse.length := fun full => by
    have whole := List.takeWhile_eq_self_iff.mp ((List.takeWhile_prefix _).eq_of_length full)
    exact absurd rfl (of_decide_eq_true (whole '\n' (List.mem_reverse.mpr h)))
  rw [lastLine, lastLine, List.reverse_append, List.takeWhile_append, if_neg stops]

theorem lastLine_append_of_not_mem (h : '\n' ∉ v) : lastLine (u ++ v) = lastLine u ++ v := by
  have goesOn : ∀ c ∈ v.reverse, decide (c ≠ '\n') = true := fun c hc => by
    refine decide_eq_true ?_
    rintro rfl
    exact h (List.mem_reverse.mp hc)
  rw [lastLine, lastLine, List.reverse_append, List.takeWhile_append_of_pos goesOn]
  simp

/-- A comment is started on the last line behind some other character, or before it on the same
line. -/
theorem commented_append_cons_iff (slash : c ≠ '/') (line : c ≠ '\n') :
    Commented (lastLine (u ++ c :: v)) ↔
    Commented (lastLine v) ∨ '\n' ∉ v ∧ Commented (lastLine u) := by
  have barrier : c ∉ "//".toList := by simpa using slash
  by_cases h : '\n' ∈ v
  · have behind : lastLine (u ++ c :: v) = lastLine v := by
      rw [← List.singleton_append, ← List.append_assoc, lastLine_append_of_mem h]
    rw [behind]
    exact ⟨.inl, fun hv => hv.resolve_right fun hu => hu.1 h⟩
  · have whole : lastLine v = v := by simpa using lastLine_append_of_not_mem (u := []) h
    rw [lastLine_append_of_not_mem (by simp [h, Ne.symm line]), whole, Commented,
      infix_append_cons_iff barrier]
    exact ⟨fun hp => hp.symm.imp_right fun hu => ⟨h, hu⟩, fun hp => hp.symm.imp_left And.right⟩

/-- A comment has been started in one of the texts, and no line break comes behind it.  The
texts are written on one line, with commas between them. -/
def OpenComment : List (List Char) → Prop
  | [] => False
  | u :: more => Commented (lastLine u) ∧ (∀ v ∈ more, '\n' ∉ v) ∨ OpenComment more

instance decidableOpenComment : (texts : List (List Char)) → Decidable (OpenComment texts)
  | [] => inferInstanceAs (Decidable False)
  | u :: more =>
      have := decidableOpenComment more
      inferInstanceAs (Decidable (Commented (lastLine u) ∧ (∀ v ∈ more, '\n' ∉ v) ∨
        OpenComment more))

theorem openComment_cons :
    OpenComment (u :: more) ↔ Commented (lastLine u) ∧ (∀ v ∈ more, '\n' ∉ v) ∨
    OpenComment more := Iff.rfl

end ImportBlock

namespace ArrayLiteral

open ImportBlock

/-- **Entries on one line**: a comment is open behind them exactly if one is open behind the
texts that are put together. -/
theorem commented_leadingEntries_iff {u : List Char} {c : Char} (slash : c ≠ '/')
    (line : c ≠ '\n')
    (es : List String) :
    Commented (lastLine (u ++ c :: leadingEntries es)) ↔
    OpenComment (u :: es.map String.toList) := by
  induction es generalizing u c with
  | nil =>
      rw [leadingEntries, List.flatMap_nil, commented_append_cons_iff slash line]
      simp [OpenComment, not_commented_nil]
  | cons e es ih =>
      have text : u ++ c :: leadingEntries (e :: es)
          = (u ++ c :: (e.toList ++ [','])) ++ ' ' :: leadingEntries es := by
        simp [leadingEntries]
      have comma : Commented (lastLine (u ++ c :: (e.toList ++ [','])))
          ↔ Commented (lastLine (u ++ c :: e.toList)) := by
        have last := commented_append_cons_iff (c := ',') (u := u ++ c :: e.toList) (v := [])
          (by decide) (by decide)
        simpa [not_commented_nil] using last
      rw [text, ih (by decide) (by decide), openComment_cons, comma,
        commented_append_cons_iff slash line,
        List.map_cons, openComment_cons, openComment_cons, List.forall_mem_cons]
      tauto

end ArrayLiteral

namespace Verifier

open ArrayLiteral ImportBlock

/-! ## The last entry of an array -/

section Last

variable {name c : String} {u d : List Char} {kept : List String}

/-- The class is the last entry of the first array of the name, and no comment is started in
front of it on its line. -/
def ClassLive (d : List Char) (name className : String) : Prop :=
  ∃ a front, extract (.array name) d = .ok a ∧ a.inner = front ++ className.toList ∧
    ¬ Commented (lastLine (a.before ++ '[' :: front))

theorem toList_join_concat (kept : List String) (c : String) :
    (join ", " (kept ++ [c])).toList = leadingEntries kept ++ c.toList := by
  rw [toList_join_append_cons]
  simp [trailingEntries]

/-- A class that is written behind other entries is live unless they leave a comment open. -/
theorem classLive_iff_of_extract {a : ArrayLiteral} (ha : extract (.array name) d = .ok a)
    (inner : a.inner = (join ", " (kept ++ [c])).toList) :
    ClassLive d name c ↔ ¬ OpenComment (a.before :: kept.map String.toList) := by
  rw [toList_join_concat] at inner
  rw [← commented_leadingEntries_iff (c := '[') (by decide) (by decide)]
  constructor
  · rintro ⟨a', front, ha', inner', live⟩
    obtain rfl := Except.ok.inj (ha.symm.trans ha')
    rwa [List.append_cancel_right (inner'.symm.trans inner)] at live
  · intro live
    exact ⟨a, _, ha, inner, live⟩

/-- An array that an edit leaves alone ends with the class. -/
theorem exists_kept_of_wireArray (hname : IsArrayName name) (hc : IsAlphanum c)
    (h : wireArray name c false d = .ok d) : ∃ a kept, extract (.array name) d = .ok a ∧
      a.entries = kept ++ [c] ∧ c ∉ kept ∧ a.inner = (join ", " (kept ++ [c])).toList := by
  obtain ⟨a, ha, text⟩ := wireArray_eq_ok_iff.mp h
  obtain ⟨text', opens, reads⟩ := (extract_eq_ok_iff hname.unbracketed).mp ha
  have written : extract (.array name) d
      = .ok ⟨a.before, (join ", " (edit false c a.entries)).toList, a.after,
        edit false c a.entries⟩ :=
    (extract_eq_ok_iff hname.unbracketed).mpr ⟨text, opens, reads_join (isEntry_edit hc reads)⟩
  have same := Except.ok.inj (ha.symm.trans written)
  refine ⟨a, a.entries.filter (· ≠ c), ha, ?_, by simp, ?_⟩
  · exact congrArg entries same
  · exact congrArg inner same

end Last

variable {here : Path} {o : Options} {n : Names} {content d : List Char}

/-- Both arrays stay as they are when they are edited once more. -/
theorem wireArray_of_wire (plain : Plain here o n) (h : wire here o n false content = .ok d) :
    wireArray "controllers" n.controllerClass false d = .ok d ∧
      wireArray "providers" n.serviceClass false d = .ok d := by
  obtain ⟨merged, u, -, first, second⟩ := wire_eq_ok_iff.mp h
  have again := (wireArray_again isArrayName_controllers plain.controllerClass first).trans
    first
  obtain ⟨w, hw, hw'⟩ := wireArray_comm isArrayName_controllers isArrayName_providers
    distinct_arrayNames
    plain.controllerClass plain.serviceClass again second
  obtain rfl := Except.ok.inj (hw.symm.trans second)
  exact ⟨hw', (wireArray_again isArrayName_providers plain.serviceClass second).trans second⟩

/-! ## Arrays on lines of their own -/

/-- The text up to the end of the import block, if there is one. -/
def preface (content : List Char) : List Char :=
  if (ofText content).found = [] then [] else (ofText content).upTo

/-- The text behind the import block. -/
def body (content : List Char) : List Char :=
  if (ofText content).found = [] then content else (ofText content).back

theorem preface_append_body (content : List Char) :
    preface content ++ body content = content := by
  unfold preface body
  split
  · rfl
  · rw [upTo_append_back, text_ofText]

/-- The text in front of a bracket ends with a line that starts behind `u` and in which no
comment is started. -/
def OnOwnLine (u before : List Char) : Prop :=
  ∃ v, before = u ++ v ∧ '\n' ∈ v ∧ ¬ Commented (lastLine v)

/-- Two arrays, one behind the other, that open on lines of their own. -/
structure Stacked (content : List Char) (a b : ArrayLiteral) : Prop where
  first : OnOwnLine (preface content) a.before
  second : OnOwnLine (a.before ++ '[' :: a.inner ++ [']']) b.before

/-- Both arrays open on lines of their own, in either order. -/
def Lined (content : List Char) (controllers providers : ArrayLiteral) : Prop :=
  Stacked content controllers providers ∨ Stacked content providers controllers

theorem Stacked.apart {a b : ArrayLiteral} (h : Stacked content a b) : a.stop < b.start := by
  obtain ⟨v, hv, -⟩ := h.second
  rw [stop, start, start, hv]
  simp only [utf8Size_append, utf8Size_cons, utf8Size_nil]
  have opening : Char.utf8Size '[' = 1 := rfl
  have closing : Char.utf8Size ']' = 1 := rfl
  omega

/-- Behind a line without comments, only the entries can leave a comment open. -/
theorem openComment_cons_iff {u v : List Char} (line : '\n' ∈ v)
    (clean : ¬ Commented (lastLine v))
    (more : List (List Char)) : OpenComment ((u ++ v) :: more) ↔ OpenComment more := by
  rw [openComment_cons, lastLine_append_of_mem line]
  exact ⟨fun h => h.resolve_left fun h => clean h.1, .inr⟩

/-- **Classes in two arrays** that open on lines of their own. -/
theorem classLive_plug_iff {f : Frame} {m c m' c' : String} (hm : IsArrayName m)
    (hm' : IsArrayName m')
    (fits : f.Fits m m') {u : List Char} (hu : Neutral m u) (hu' : Neutral m' u)
    {kept kept' : List String}
    (hk : ∀ e ∈ kept ++ [c], IsEntry e) (hk' : ∀ e ∈ kept' ++ [c'], IsEntry e)
    (quiet : ¬ Occurs m' (join ", " (kept ++ [c])).toList)
    (lead : '\n' ∈ f.lead ∧ ¬ Commented (lastLine f.lead))
    (between : '\n' ∈ f.between ∧ ¬ Commented (lastLine f.between))
    (hd : d = u ++ f.plug (join ", " (kept ++ [c])).toList
      (join ", " (kept' ++ [c'])).toList) :
    (ClassLive d m c ↔ ¬ OpenComment (kept.map String.toList)) ∧
      (ClassLive d m' c' ↔ ¬ OpenComment (kept'.map String.toList)) := by
  have first := Frame.extract_first (y := (join ", " (kept' ++ [c'])).toList) hm fits hu
    (reads_join hk)
  have second := Frame.extract_second hm' fits hu' quiet (reads_join hk')
  rw [← hd] at first second
  have front : u ++ (f.lead ++ '[' :: (join ", " (kept ++ [c])).toList ++ ']' :: f.between)
      = u ++ (f.lead ++ '[' :: (join ", " (kept ++ [c])).toList ++ [']']) ++ f.between := by
    simp
  rw [classLive_iff_of_extract first rfl, classLive_iff_of_extract second rfl, front,
    openComment_cons_iff lead.1 lead.2, openComment_cons_iff between.1 between.2]
  exact ⟨Iff.rfl, Iff.rfl⟩

variable {controllers providers : ArrayLiteral}

/-- Wiring edits the arrays behind the import block, and puts a text in front that adds no
anchor. -/
theorem exists_body_of_wire (regular : Regular content controllers providers)
    (plain : Plain here o n)
    (hd : wire here o n false content = .ok d) : ∃ u b, (∀ name ∈ arrayNames, Neutral name u) ∧
      editArrays n false (body content) = .ok b ∧ d = u ++ b := by
  obtain ⟨merged, hm⟩ := exists_merged_of_wire hd
  unfold body
  split
  · next found =>
      have himports : (ofText content).imports = [] := by
        rw [ImportBlock.imports, found, List.map_nil]
      rw [himports, List.append_nil] at hm
      obtain ⟨b, hb, rfl⟩ := (wire_false_of_none plain (ofText_of_imports_nil himports) hm).mp
        hd
      exact ⟨_, b, neutral_ownLines plain hm, hb, by simp⟩
  · next found =>
      obtain ⟨p, more, hfound⟩ := List.exists_cons_of_ne_nil found
      have hfront : (ofText content).front = some p.before := by
        rw [ImportBlock.front, hfound]; rfl
      have neutral := neutral_merged plain hm (imports_quiet regular.behind)
        (not_occurs_front regular.behind p.before hfront)
      rw [← keep_false here o n merged] at neutral
      obtain ⟨b, hb, rfl⟩ := (wire_eq_ok_iff_of_front hfront hm neutral).mp hd
      exact ⟨_, b, neutral, hb, rfl⟩

/-- The frame of two arrays that open on lines of their own. -/
theorem Stacked.exists_frame {m m' : String} (hm : m ∈ arrayNames) (hm' : m' ∈ arrayNames)
    {a b : ArrayLiteral}
    (h : Stacked content a b) (ha : extract (.array m) content = .ok a)
    (hb : extract (.array m') content = .ok b)
    (behind : ∀ cut ∈ (Anchor.array m).cut content, (ofText content).found ≠ [] →
      (ofText content).upTo <+: cut.1) :
    ∃ f : Frame, f.Fits m m' ∧ body content = f.plug a.inner b.inner ∧ ¬ Occurs m' a.inner ∧
      ('\n' ∈ f.lead ∧ ¬ Commented (lastLine f.lead)) ∧
      ('\n' ∈ f.between ∧ ¬ Commented (lastLine f.between)) := by
  obtain ⟨f, fits, hplug, quiet, -, hlead, hbetween⟩ :=
    exists_fits hm hm' (preface_append_body content).symm ha hb
    h.apart fun cut hcut => by
      unfold preface
      split
      · exact List.nil_prefix
      · next found => exact behind cut hcut found
  obtain ⟨v, hv, lead⟩ := h.first
  obtain ⟨w, hw, between⟩ := h.second
  obtain rfl := List.append_cancel_left (hlead.symm.trans hv)
  have same : a.before ++ '[' :: a.inner ++ [']'] ++ f.between
      = a.before ++ '[' :: a.inner ++ [']'] ++ w := by
    rw [← hw, hbetween]
    simp
  obtain rfl := List.append_cancel_left same
  exact ⟨f, fits, hplug, quiet, lead, between⟩

/-- What an edit makes of the entries of an array ends with the class. -/
theorem edit_false (c : String) (entries : List String) :
    edit false c entries = entries.filter (· ≠ c) ++ [c] := rfl

/-- **Classes in arrays on lines of their own.** -/
theorem classLive_iff_of_lined (regular : Regular content controllers providers)
    (plain : Plain here o n)
    (lined : Lined content controllers providers) (hd : wire here o n false content = .ok d) :
    (ClassLive d "controllers" n.controllerClass ↔
      ¬ OpenComment ((controllers.entries.filter (· ≠ n.controllerClass)).map String.toList)) ∧
    (ClassLive d "providers" n.serviceClass ↔
      ¬ OpenComment ((providers.entries.filter (· ≠ n.serviceClass)).map String.toList)) := by
  obtain ⟨u, b, neutral, hb, hd⟩ := exists_body_of_wire regular plain hd
  obtain ⟨-, -, readsC⟩ := (extract_eq_ok_iff isArrayName_controllers.unbracketed).mp
    regular.hasControllers
  obtain ⟨-, -, readsP⟩ := (extract_eq_ok_iff isArrayName_providers.unbracketed).mp
    regular.hasProviders
  have entriesC := isEntry_edit (x := false) plain.controllerClass readsC
  have entriesP := isEntry_edit (x := false) plain.serviceClass readsP
  have front := neutral _ (show "controllers" ∈ arrayNames by decide)
  have front' := neutral _ (show "providers" ∈ arrayNames by decide)
  -- The arrays are edited where the frame has them.
  have edited : ∀ l : Layout, l.Sound →
    body content = l.back controllers.inner providers.inner →
      ¬ Occurs l.second (l.inFirst controllers.inner providers.inner) →
      b = l.back (join ", " (edit false n.controllerClass controllers.entries)).toList
        (join ", " (edit false n.serviceClass providers.entries)).toList :=
        fun l sound hback quiet => by
    have both := Layout.wireArrays (u := []) sound (fun name _ => neutral_nil name) ⟨readsC,
      readsP, quiet⟩
      plain.controllerClass n.serviceClass false
    rw [List.nil_append, ← hback] at both
    exact Except.ok.inj (hb.symm.trans both)
  rw [edit_false] at entriesC entriesP
  rcases lined with stacked | stacked
  · obtain ⟨f, fits, hplug, quiet, lead, between⟩ :=
      stacked.exists_frame (by decide) (by decide)
      regular.hasControllers regular.hasProviders (regular.behind _ (by decide))
    have text := edited ⟨[], false, f⟩ ⟨fits, fun _ _ => not_occurs_nil⟩ hplug quiet
    have away := not_occurs_edit (x := false) isArrayName_providers plain.controllerClass
      readsC quiet
    rw [edit_false] at away
    rw [edit_false, edit_false] at text
    exact classLive_plug_iff isArrayName_controllers isArrayName_providers fits front front'
      entriesC entriesP away
      lead between (by rw [hd, text]; rfl)
  · obtain ⟨f, fits, hplug, quiet, lead, between⟩ :=
      stacked.exists_frame (by decide) (by decide)
      regular.hasProviders regular.hasControllers (regular.behind _ (by decide))
    have text := edited ⟨[], true, f⟩ ⟨fits, fun _ _ => not_occurs_nil⟩ hplug quiet
    have away := not_occurs_edit (x := false) isArrayName_controllers plain.serviceClass readsP
      quiet
    rw [edit_false] at away
    rw [edit_false, edit_false] at text
    have both := classLive_plug_iff isArrayName_providers isArrayName_controllers fits front'
      front entriesP entriesC
      away lead between (show d = _ by rw [hd, text]; rfl)
    exact both.symm

/-- **Which classes are hidden by comments.**  After wiring, the class of a verifier is the
last entry of its array.  It is live exactly if no comment is left open by the other entries or
by what stands in front of the bracket.  When both arrays open on lines of their own on which
no comment is started, it is live exactly if the entries of the hand-written array leave none
open.  A comment behind the last comma is an entry of its own, and leaves itself open. -/
theorem classLive_iff (plain : Plain here o n) (hd : wire here o n false content = .ok d) :
    (∀ array ∈ [("controllers", n.controllerClass), ("providers", n.serviceClass)], ∃ a kept,
      extract (.array array.1) d = .ok a ∧ a.entries = kept ++ [array.2] ∧ array.2 ∉ kept ∧
        (ClassLive d array.1 array.2 ↔ ¬ OpenComment (a.before :: kept.map String.toList))) ∧
    ∀ controllers providers, Regular content controllers providers →
    Lined content controllers providers →
      (ClassLive d "controllers" n.controllerClass ↔
        ¬ OpenComment ((controllers.entries.filter (· ≠ n.controllerClass)).map
          String.toList)) ∧
      (ClassLive d "providers" n.serviceClass ↔
        ¬ OpenComment ((providers.entries.filter (· ≠ n.serviceClass)).map
          String.toList)) := by
  refine ⟨fun array harray => ?_, fun _ _ regular lined =>
    classLive_iff_of_lined regular plain lined hd⟩
  obtain ⟨first, second⟩ := wireArray_of_wire plain hd
  have last : IsArrayName array.1 ∧ IsAlphanum array.2 ∧
    wireArray array.1 array.2 false d = .ok d := by
    simp only [List.mem_cons, List.not_mem_nil, or_false] at harray
    rcases harray with rfl | rfl
    · exact ⟨isArrayName_controllers, plain.controllerClass, first⟩
    · exact ⟨isArrayName_providers, plain.serviceClass, second⟩
  obtain ⟨hname, word, same⟩ := last
  obtain ⟨a, kept, ha, entries, once, inner⟩ := exists_kept_of_wireArray hname word same
  exact ⟨a, kept, ha, entries, once, classLive_iff_of_extract ha inner⟩

/-- A module with a comment in front of an entry and one behind an entry. -/
def twoComments : List Char :=
  "import \x7b X \x7d from 'x';\n".toList ++ "controllers: [\n  // all\n  A,\n],\n".toList
    ++ "providers: [\n  B, // last\n],\n".toList

theorem imports_twoComments : (ofText twoComments).imports = [Import.ofNames "x" ["X"]] := by
  decide +kernel

theorem regular_twoComments : Regular twoComments
    ⟨"import \x7b X \x7d from 'x';\ncontrollers: ".toList, "\n  // all\n  A,\n".toList,
      ",\nproviders: [\n  B, // last\n],\n".toList, ["// all\n  A"]⟩
    ⟨"import \x7b X \x7d from 'x';\ncontrollers: [\n  // all\n  A,\n],\nproviders: ".toList,
      "\n  B, // last\n".toList, ",\n".toList, ["B", "// last"]⟩ :=
  Regular.of_not_mem (by decide +kernel) (by decide +kernel) (by decide +kernel)
    (by decide +kernel)
    (by decide +kernel) (by decide +kernel)

/-- The comment in front of `A` ends with its line and hides nothing; the one behind `B` hides
the service. -/
theorem classLive_twoComments : ∃ d,
    wire ⟨"/"⟩ .template (Names.make .template "Payment" "BTC") false twoComments = .ok d ∧
      ClassLive d "controllers" (Names.make .template "Payment" "BTC").controllerClass ∧
      ¬ ClassLive d "providers" (Names.make .template "Payment" "BTC").serviceClass := by
  have plain := plain_template ⟨"/"⟩
  have words : (∀ e ∈ ["// all\n  A"],
        e ≠ (Names.make .template "Payment" "BTC").controllerClass) ∧
      ∀ e ∈ ["B", "// last"], e ≠ (Names.make .template "Payment" "BTC").serviceClass := by
    decide +kernel
  generalize Names.make .template "Payment" "BTC" = n at plain words ⊢
  obtain ⟨merged, d, -, hd⟩ :=
    exists_wire_of_merges regular_twoComments plain (by simp [imports_twoComments])
    (by rw [imports_twoComments]; exact ⟨_, rfl⟩)
  obtain ⟨controller, service⟩ := (classLive_iff plain hd).2 _ _ regular_twoComments
    (.inl ⟨⟨"\ncontrollers: ".toList, by decide +kernel, by decide, by decide⟩,
      ⟨",\nproviders: ".toList, by decide +kernel, by decide, by decide⟩⟩)
  rw [List.filter_eq_self.mpr (by simpa using words.1)] at controller
  rw [List.filter_eq_self.mpr (by simpa using words.2)] at service
  exact ⟨d, hd, controller.mpr (by decide), fun live => service.mp live (by decide)⟩

/-- **A class that is commented out**, although no comment stands on the lines of the brackets:
the entries are written on one line, behind the comment that was one of them. -/
theorem exists_not_classLive : ∃ controllers providers d,
    extract (.array "controllers") twoComments = .ok controllers ∧
    extract (.array "providers") twoComments = .ok providers ∧
    ¬ Commented (lastLine controllers.before) ∧ ¬ Commented (lastLine providers.before) ∧
    wire ⟨"/"⟩ .template (Names.make .template "Payment" "BTC") false twoComments = .ok d ∧
    ¬ ClassLive d "providers" (Names.make .template "Payment" "BTC").serviceClass := by
  have plain := plain_template ⟨"/"⟩
  have words : ∀ e ∈ ["B", "// last"],
    e ≠ (Names.make .template "Payment" "BTC").serviceClass := by decide +kernel
  generalize Names.make .template "Payment" "BTC" = n at plain words ⊢
  obtain ⟨merged, d, -, hd⟩ :=
    exists_wire_of_merges regular_twoComments plain (by simp [imports_twoComments])
    (by rw [imports_twoComments]; exact ⟨_, rfl⟩)
  obtain ⟨-, service⟩ := classLive_iff_of_lined regular_twoComments plain
    (.inl ⟨⟨"\ncontrollers: ".toList, by decide +kernel, by decide, by decide⟩,
      ⟨",\nproviders: ".toList, by decide +kernel, by decide, by decide⟩⟩) hd
  rw [List.filter_eq_self.mpr (by simpa using words)] at service
  exact ⟨_, _, d, regular_twoComments.hasControllers,
    regular_twoComments.hasProviders, by decide, by decide, hd,
    fun live => service.mp live (by decide)⟩

end Verifier

end Attestation
