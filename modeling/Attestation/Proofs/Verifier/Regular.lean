import Attestation.Proofs.Except
import Attestation.Proofs.Verifier.Layout

/-!
# App modules that can be wired

`Regular` says what a hand-written app module has to look like: no text outside its import
statements can be taken for one, and its two arrays lie apart behind the imports.

## Main results

* `Regular.exists_layout`: such a text has a layout, around which wiring works.
* `ofText_text`: the text that wiring makes is read back as it was put together.

## Design notes

The conditions are on the text as it is found, with no reference to how it was written, so that
they can be decided for a given module (`Regular.of_not_mem`).  They are what wiring needs and
no more: an array in front of the imports, for instance, would be moved when the block grows,
and a second array with the same name would be found in its place after an edit.
-/

namespace Attestation

open Text

namespace ImportBlock

/-- The text up to the end of the block, with the semicolon behind it. -/
def upTo (b : ImportBlock) : List Char :=
  b.found.flatMap (fun p => p.before ++ p.source)
    ++ (if b.rest.head? = some ';' then [';'] else [])

theorem upTo_append_back (b : ImportBlock) : b.upTo ++ b.back = b.text := by
  obtain ⟨found, rest⟩ := b
  simp only [upTo, back, text, List.append_assoc]
  cases rest with
  | nil => rfl
  | cons c rest =>
      by_cases hc : c = ';'
      · subst hc
        rfl
      · rw [if_neg (by simpa using hc), List.nil_append]
        split
        · next heq => exact absurd (List.cons.inj heq).1 hc
        · rfl

theorem infix_upTo {b : ImportBlock} {p : PlacedImport} (h : p ∈ b.found) :
    p.before <:+: b.upTo ∧ p.source <:+: b.upTo := by
  obtain ⟨front, back, hb⟩ := List.append_of_mem h
  have part : p.before ++ p.source <:+: b.upTo := by
    rw [upTo, hb]
    exact ⟨front.flatMap fun p => p.before ++ p.source,
      (back.flatMap fun p => p.before ++ p.source)
        ++ (if b.rest.head? = some ';' then [';'] else []),
      by simp⟩
  exact ⟨(List.prefix_append _ _).isInfix.trans part,
    (List.suffix_append _ _).isInfix.trans part⟩

/-- The parts of the statements stand in the text of the block. -/
theorem infix_upTo_of_mem_parts {content : List Char} {i : Import}
    (hi : i ∈ (ofText content).imports) {s : String}
    (hs : s ∈ i.parts) : s.toList <:+: (ofText content).upTo := by
  obtain ⟨p, hp, rfl⟩ := List.mem_map.mp hi
  exact ((of_mem_found hp).2.2.1 s hs).trans (infix_upTo hp).2

theorem back_infix_rest (b : ImportBlock) : b.back <:+: b.rest := by
  unfold back
  split
  · next rest heq =>
      rw [heq]
      exact (List.suffix_cons _ _).isInfix
  · exact List.infix_rfl

end ImportBlock

namespace Verifier

open ArrayLiteral ImportBlock

/-! ## Reading back what wiring makes -/

/-- No statement starts in the text around the parts.  The parts between brackets are asked for
what follows them, since entries come and go. -/
structure Layout.Calm (l : Layout) : Prop where
  front : ImportBlock.Calm l.front
  lead : ∀ v, Silent l.frame.lead ('[' :: v)
  between : ∀ v, Silent l.frame.between ('[' :: v)
  rest : Silent l.frame.rest []

theorem Frame.silent_plug {f : Frame} {xs ys : List String}
    (lead : ∀ v, Silent f.lead ('[' :: v))
    (between : ∀ v, Silent f.between ('[' :: v)) (rest : Silent f.rest [])
    (hx : ∀ e ∈ xs, Still e) (hy : ∀ e ∈ ys, Still e) :
    Silent (f.plug (join ", " xs).toList (join ", " ys).toList) [] := by
  have bracket : ∀ c v, c = '[' ∨ c = ']' → Silent [c] v := by
    intro c v hc
    refine silent_of_not_mem ?_ v
    rcases hc with rfl | rfl <;> decide
  have text : f.plug (join ", " xs).toList (join ", " ys).toList
      = f.lead ++ (['['] ++ ((join ", " xs).toList ++ ([']'] ++ (f.between ++ (['['] ++
        ((join ", " ys).toList ++ ([']'] ++ f.rest))))))) := by
    simp [Frame.plug]
  simp only [text, silent_append, List.append_nil]
  exact ⟨lead _, bracket _ _ (.inl rfl), silent_join hx _, bracket _ _ (.inr rfl), between _,
    bracket _ _ (.inl rfl), silent_join hy _, bracket _ _ (.inr rfl), rest⟩

section Text

variable {l : Layout} {cs ps : List String} (calm : l.Calm) (hc : ∀ e ∈ cs, Still e)
  (hp : ∀ e ∈ ps, Still e)
include calm hc hp

theorem silent_back : Silent (l.back (join ", " cs).toList (join ", " ps).toList) [] := by
  unfold Layout.back
  split
  · exact Frame.silent_plug calm.lead calm.between calm.rest hp hc
  · exact Frame.silent_plug calm.lead calm.between calm.rest hc hp

/-- **Reading undoes putting together**, when all statements are legible. -/
theorem ofText_text {imports : List Import} (wf : ∀ i ∈ imports, i.WellFormed)
    (legible : ∀ i ∈ imports, i.Legible) (hne : imports ≠ []) :
    (ofText (l.text imports cs ps)).imports = imports ∧
      (ofText (l.text imports cs ps)).front = some l.front ∧
      (ofText (l.text imports cs ps)).back = l.back (join ", " cs).toList
        (join ", " ps).toList :=
  ofText_lines wf legible hne calm.front (silent_back calm hc hp)

end Text

/-! ## Hand-written app modules -/

/-- A text that can be wired, with its two arrays.  It is what a hand-written app module looks
like, and may have any other text around its statements and arrays. -/
structure Regular (content : List Char) (controllers providers : ArrayLiteral) : Prop where
  /-- Outside of the statements that are found, the word `import` does not stand in front of a
  clause. -/
  calm : (∀ p ∈ (ofText content).found, Calm p.before) ∧ Calm (ofText content).rest
  hasControllers : extract (.array "controllers") content = .ok controllers
  hasProviders : extract (.array "providers") content = .ok providers
  /-- The first anchors stand behind the import block. -/
  behind : ∀ name ∈ arrayNames, ∀ cut ∈ (Anchor.array name).cut content,
    (ofText content).found ≠ [] → (ofText content).upTo <+: cut.1
  /-- The arrays lie apart. -/
  apart : controllers.stop < providers.start ∨ providers.stop < controllers.start

/-- The first anchors of both arrays stand behind the import block.  An edit of an array then
leaves the block alone. -/
def ArraysBehind (content : List Char) : Prop :=
  ∀ name ∈ arrayNames, ∀ cut ∈ (Anchor.array name).cut content, (ofText content).upTo <+: cut.1

theorem arraysBehind_of_all {content : List Char}
    (behind : (arrayNames.all fun name => ((Anchor.array name).cut content).all fun cut =>
      (ofText content).upTo.isPrefixOf cut.1) = true) : ArraysBehind content := by
  intro name hname cut hcut
  rw [List.all_eq_true] at behind
  have both := behind name hname
  rw [Option.mem_def.mp hcut] at both
  exact List.isPrefixOf_iff_prefix.mp both

/-- A text is regular when the letter `m` does not stand outside its statements, and the rest
is checked. -/
theorem Regular.of_not_mem {content : List Char} {controllers providers : ArrayLiteral}
    (before : ∀ p ∈ (ofText content).found, 'm' ∉ p.before)
    (rest : 'm' ∉ (ofText content).rest)
    (hasControllers : (extract (.array "controllers") content).toOption = some controllers)
    (hasProviders : (extract (.array "providers") content).toOption = some providers)
    (behind : (arrayNames.all fun name => ((Anchor.array name).cut content).all fun cut =>
      (ofText content).upTo.isPrefixOf cut.1) = true)
    (apart : controllers.stop < providers.start ∨ providers.stop < controllers.start) :
    Regular content controllers providers := by
  have calm : ∀ cs : List Char, 'm' ∉ cs → ImportBlock.Calm cs := by
    intro cs hm c _ part
    exact hm (part.subset (by simp))
  exact ⟨⟨fun p hp => calm _ (before p hp), calm _ rest⟩, ok_of_toOption hasControllers,
    ok_of_toOption hasProviders,
    fun name hname cut hcut _ => arraysBehind_of_all behind name hname cut hcut, apart⟩

theorem exists_regular_of_not_mem {content : List Char}
    (before : ∀ p ∈ (ofText content).found, 'm' ∉ p.before)
    (rest : 'm' ∉ (ofText content).rest)
    (behind : (arrayNames.all fun name => ((Anchor.array name).cut content).all fun cut =>
      (ofText content).upTo.isPrefixOf cut.1) = true)
    (apart : ((extract (.array "controllers") content).toOption.any fun controllers =>
      (extract (.array "providers") content).toOption.any fun providers =>
        controllers.stop < providers.start) = true) :
    ∃ controllers providers, Regular content controllers providers := by
  obtain ⟨controllers, hc, apart⟩ := (Option.any_eq_true _ _).mp apart
  obtain ⟨providers, hp, apart⟩ := (Option.any_eq_true _ _).mp apart
  exact ⟨controllers, providers,
    .of_not_mem before rest hc hp behind (.inl (of_decide_eq_true apart))⟩

/-- An array opens behind the block when its anchor stands there. -/
theorem exists_lead {name : String} (hname : name ∈ arrayNames) {content u : List Char}
    {a : ArrayLiteral} (h : extract (.array name) content = .ok a)
    (behind : ∀ cut ∈ (Anchor.array name).cut content, u <+: cut.1) :
    ∃ p, a.before = u ++ p ∧ ∃ w, Marks name w ∧ w <:+ p := by
  obtain ⟨text, opens, -⟩ := (extract_eq_ok_iff (isArrayName hname).unbracketed).mp h
  obtain ⟨front, w, hbefore, hw, hm⟩ :=
    firstMatch_of_opens (isArrayName hname).unbracketed opens
    (a.inner ++ ']' :: a.after)
  have cut : (Anchor.array name).cut content = some (front, content.drop front.length) := by
    rw [Anchor.cut, text, List.append_assoc, List.cons_append, hm]
    rfl
  obtain ⟨p, hp⟩ : u <+: front := behind _ cut
  exact ⟨p ++ w, by rw [hbefore, ← hp, List.append_assoc], w, hw, List.suffix_append _ _⟩

/-- What is known of a text whose arrays lie apart behind `u`, the one of the name `n`
first. -/
theorem exists_fits {n m : String} (hn : n ∈ arrayNames) (hm : m ∈ arrayNames)
    {content u back : List Char}
    {a b : ArrayLiteral} (text : content = u ++ back) (ha : extract (.array n) content = .ok a)
    (hb : extract (.array m) content = .ok b) (apart : a.stop < b.start)
    (behind : ∀ cut ∈ (Anchor.array n).cut content, u <+: cut.1) :
    ∃ f : Frame, f.Fits n m ∧ back = f.plug a.inner b.inner ∧ ¬ Occurs m a.inner ∧
      (¬ Occurs n u ∧ ¬ Occurs m u) ∧ a.before = u ++ f.lead ∧
      b.before = a.before ++ '[' :: a.inner ++ ']' :: f.between := by
  obtain ⟨f, fits, hplug, hlead, -, hbefore, quiet⟩ :=
    exists_frame (isArrayName hm) (isArrayName hn) ha hb apart
  obtain ⟨p, hp, w, hw, ends⟩ := exists_lead hn ha behind
  rw [← hlead] at hp
  have front : u <:+: f.lead := ⟨[], p, by rw [hp, List.nil_append]⟩
  have part : p <:+: f.lead := ⟨u, [], by rw [hp, List.append_nil]⟩
  have part' : p ++ ['['] <:+: f.lead ++ ['['] := ⟨u, [], by rw [hp]; simp⟩
  refine ⟨⟨p, f.between, f.rest⟩, ⟨⟨⟨w, hw, ends⟩, fun ho => fits.lead.first (ho.mono part)⟩,
    fits.between, fun ho => fits.apart (ho.mono part')⟩, ?_, quiet,
    ⟨fun ho => fits.lead.first (ho.mono front),
      fun ho => fits.apart (ho.mono (front.trans (List.prefix_append _ _).isInfix))⟩,
    hlead.symm.trans hp, by rw [hbefore, hlead]⟩
  have whole : u ++ back = u ++ Frame.plug ⟨p, f.between, f.rest⟩ a.inner b.inner := by
    rw [← text, hplug]
    simp [Frame.plug, hp]
  exact List.append_cancel_left whole

namespace Regular

variable {content : List Char} {controllers providers : ArrayLiteral}
  (h : Regular content controllers providers)
include h

/-- The layout of a text that is a front `u` and a calm text behind it. -/
theorem exists_layout_of_append {front u back : List Char} (text : content = u ++ back)
    (frontCalm : Calm front) (frontPart : front <:+: u) (backCalm : Calm back)
    (behind : ∀ name ∈ arrayNames, ∀ cut ∈ (Anchor.array name).cut content, u <+: cut.1) :
    ∃ l : Layout, l.Sound ∧ l.Calm ∧ l.front = front ∧
      back = l.back controllers.inner providers.inner ∧
      l.Holds controllers.inner providers.inner controllers.entries providers.entries ∧
      (∀ e ∈ controllers.entries, Still e) ∧ (∀ e ∈ providers.entries, Still e) ∧
      ∀ name ∈ arrayNames, ¬ Occurs name u := by
  obtain ⟨-, -, readsC⟩ := (extract_eq_ok_iff isArrayName_controllers.unbracketed).mp
    h.hasControllers
  obtain ⟨-, -, readsP⟩ := (extract_eq_ok_iff isArrayName_providers.unbracketed).mp
    h.hasProviders
  -- The pieces around the brackets are calm, as parts of a calm text.
  have pieces : ∀ {f : Frame} {x y : List Char}, back = f.plug x y →
      (∀ v, Silent f.lead ('[' :: v)) ∧ (∀ v, Silent f.between ('[' :: v)) ∧ Silent f.rest [] ∧
        Calm x ∧ Calm y := by
    intro f x y hplug
    have bracket : ∀ {u : List Char}, u <:+: back → ∀ v, Silent u ('[' :: v) := by
      intro u part v
      refine (backCalm.mono part).silent ?_
      simp only [List.head?_cons, Option.mem_some_iff, forall_eq']
      decide
    refine ⟨bracket ?_, bracket ?_, (backCalm.mono ?_).silent (by simp), backCalm.mono ?_,
      backCalm.mono ?_⟩
    · exact ⟨[], '[' :: x ++ ']' :: f.between ++ '[' :: y
          ++ ']' :: f.rest, by simp [hplug, Frame.plug]⟩
    · exact ⟨f.lead ++ '[' :: x ++ [']'],
        '[' :: y ++ ']' :: f.rest, by simp [hplug, Frame.plug]⟩
    · exact ⟨f.lead ++ '[' :: x ++ ']' :: f.between ++ '[' :: y ++ [']'],
        [], by simp [hplug, Frame.plug]⟩
    · exact ⟨f.lead ++ ['['], ']' :: f.between ++ '[' :: y
          ++ ']' :: f.rest, by simp [hplug, Frame.plug]⟩
    · exact ⟨f.lead ++ '[' :: x ++ ']' :: f.between ++ ['['],
        ']' :: f.rest, by simp [hplug, Frame.plug]⟩
  have still : ∀ {x : List Char} {es : List String}, Calm x → Reads x es → ∀ e ∈ es, Still e :=
    fun hx reads e he => still_of_calm (hx.mono (reads.isEntry e he).2)
  rcases h.apart with apart | apart
  · obtain ⟨f, fits, hplug, quiet, ⟨hq, hq'⟩, -, -⟩ :=
      exists_fits (by decide) (by decide) text h.hasControllers
      h.hasProviders apart (behind _ (by decide))
    obtain ⟨lead, between, rest, calmX, calmY⟩ := pieces hplug
    have quietU : ∀ name ∈ arrayNames, ¬ Occurs name u := by
      simp only [arrayNames, List.mem_cons, List.not_mem_nil, or_false]
      rintro name (rfl | rfl)
      · exact hq
      · exact hq'
    exact ⟨⟨front, false, f⟩,
      ⟨fits, fun name hname ho => quietU name hname (ho.mono frontPart)⟩,
      ⟨frontCalm, lead, between, rest⟩, rfl, hplug, ⟨readsC, readsP, quiet⟩,
      still calmX readsC,
      still calmY readsP, quietU⟩
  · obtain ⟨f, fits, hplug, quiet, ⟨hq, hq'⟩, -, -⟩ :=
      exists_fits (by decide) (by decide) text h.hasProviders
      h.hasControllers apart (behind _ (by decide))
    obtain ⟨lead, between, rest, calmX, calmY⟩ := pieces hplug
    have quietU : ∀ name ∈ arrayNames, ¬ Occurs name u := by
      simp only [arrayNames, List.mem_cons, List.not_mem_nil, or_false]
      rintro name (rfl | rfl)
      · exact hq'
      · exact hq
    exact ⟨⟨front, true, f⟩, ⟨fits, fun name hname ho =>
      quietU name hname (ho.mono frontPart)⟩,
      ⟨frontCalm, lead, between, rest⟩, rfl, hplug, ⟨readsC, readsP, quiet⟩,
      still calmY readsC,
      still calmX readsP, quietU⟩

/-- **The layout of a regular text** that imports something. -/
theorem exists_layout (hne : (ofText content).found ≠ []) :
    ∃ l : Layout, l.Sound ∧ l.Calm ∧ (ofText content).front = some l.front ∧
      (ofText content).back = l.back controllers.inner providers.inner ∧
      l.Holds controllers.inner providers.inner controllers.entries providers.entries ∧
      (∀ e ∈ controllers.entries, Still e) ∧ (∀ e ∈ providers.entries, Still e) ∧
      ∀ i ∈ (ofText content).imports, ∀ s ∈ i.parts, ∀ name ∈ arrayNames,
        ¬ Occurs name s.toList := by
  obtain ⟨p, more, hfound⟩ := List.exists_cons_of_ne_nil hne
  have member : p ∈ (ofText content).found := by simp [hfound]
  have text : content = (ofText content).upTo ++ (ofText content).back := by
    rw [upTo_append_back, text_ofText]
  obtain ⟨l, sound, calm, hfront, hback, holds, stillC, stillP, quiet⟩ :=
    h.exists_layout_of_append text
    (h.calm.1 p member) (infix_upTo member).1 (h.calm.2.mono (back_infix_rest _))
    fun name hname cut hcut => h.behind name hname cut hcut hne
  refine ⟨l, sound, calm, ?_, hback, holds, stillC, stillP, ?_⟩
  · rw [hfront, ImportBlock.front, hfound]
    rfl
  · intro i hi s hs name hname ho
    exact quiet name hname (ho.mono (infix_upTo_of_mem_parts hi hs))

/-- The layout of a regular text that imports nothing. -/
theorem exists_layout_of_nil (himports : (ofText content).imports = []) :
    ofText content = ⟨[], content⟩ ∧ ∃ l : Layout, l.Sound ∧ l.Calm ∧ l.front = [] ∧
      content = l.back controllers.inner providers.inner ∧
      l.Holds controllers.inner providers.inner controllers.entries providers.entries ∧
      (∀ e ∈ controllers.entries, Still e) ∧ ∀ e ∈ providers.entries, Still e := by
  have whole : ofText content = ⟨[], content⟩ := ofText_of_imports_nil himports
  have calm : ImportBlock.Calm content := by
    have rest := h.calm.2
    rwa [whole] at rest
  obtain ⟨l, sound, calm, hfront, hback, holds, stillC, stillP, -⟩ :=
    h.exists_layout_of_append (show content = [] ++ content from rfl)
      (show ImportBlock.Calm [] from calm.mono List.nil_infix) List.infix_rfl calm
      fun _ _ _ _ => List.nil_prefix
  exact ⟨whole, l, sound, calm, hfront, hback, holds, stillC, stillP⟩

end Regular

end Verifier

end Attestation
