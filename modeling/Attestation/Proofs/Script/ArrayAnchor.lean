import Attestation.Proofs.Script.ArrayGrammar

/-!
# Finding an array

`ArrayLiteral.extract` cuts a text around the brackets of the first array of a name.  The name,
a colon and the bracket make up the anchor, with any blanks between them.

* `Marks`, `Occurs`: the text of an anchor, and where it stands in a text.
* `Opens`: a text that ends in front of the bracket of the first array.
* `extract_eq_ok_iff`: what is cut out, as a property of the three pieces.

## Design notes

An array is found by a search for its anchor, so every change of the text could move it.
`Opens` says of a front alone that the first array opens behind it, and by its uniqueness a
search is replaced by a cut of the text.  Later modules only speak of cuts.
-/

namespace Attestation.ArrayLiteral

open Text

/-- The names of arrays are made of small letters. -/
structure IsArrayName (name : String) : Prop where
  nonempty : name.toList ≠ []
  letters : ∀ c ∈ name.toList, c.isLower = true

theorem isArrayName_controllers : IsArrayName "controllers" :=
  ⟨by decide, forall_mem_of_all (by decide)⟩

theorem isArrayName_providers : IsArrayName "providers" :=
  ⟨by decide, forall_mem_of_all (by decide)⟩

/-- A name without opening brackets, so that no bracket opens inside its anchor. -/
def Unbracketed (name : String) : Prop := ∀ c ∈ name.toList, isOpening c = false

theorem IsArrayName.unbracketed {name : String} (h : IsArrayName name) : Unbracketed name := by
  intro c hc
  have letter := h.letters c hc
  cases ho : isOpening c with
  | false => rfl
  | true =>
      simp only [isOpening, Bool.or_eq_true, decide_eq_true_eq] at ho
      rcases ho with (rfl | rfl) | rfl <;> revert letter <;> decide

/-- The text of an anchor up to its bracket: the name, a colon and blanks around it. -/
def Marks (name : String) (w : List Char) : Prop :=
  ∃ p q, w = name.toList ++ p ++ ':' :: q ∧ (∀ c ∈ p, isBlank c = true) ∧
    ∀ c ∈ q, isBlank c = true

/-- The anchor stands somewhere in the text.  Also a longer name that ends with this one has
it. -/
def Occurs (name : String) (cs : List Char) : Prop := ∃ w, Marks name w ∧ w ++ ['['] <:+: cs

theorem Occurs.mono {name : String} {u v : List Char} (h : Occurs name u) (sub : u <:+: v) :
    Occurs name v := by
  obtain ⟨w, hw, part⟩ := h
  exact ⟨w, hw, part.trans sub⟩

/-- A text that ends with the anchor up to its bracket, and holds no other anchor before.  So
an array that is searched for opens here. -/
structure Opens (name : String) (before : List Char) : Prop where
  ends : ∃ w, Marks name w ∧ w <:+ before
  first : ¬ Occurs name before

theorem recognise_eq_some_iff {name : String} {cs rest : List Char} :
    (Anchor.array name).recognise cs = some rest ↔
    ∃ w, Marks name w ∧ cs = w ++ '[' :: rest := by
  have colon : isBlank ':' = false := by decide
  have bracket : isBlank '[' = false := by decide
  constructor
  · intro h
    simp only [Anchor.recognise, Option.bind_eq_bind, Option.bind_eq_some_iff,
      List.isPrefixOf?_eq_some_iff_append_eq] at h
    obtain ⟨u, rfl, v, hu, hv⟩ := h
    obtain ⟨p, u', rfl, hp, -, -, hdrop⟩ := exists_front isBlank u
    obtain ⟨q, v', rfl, hq, -, -, hdrop'⟩ := exists_front isBlank v
    rw [trimStart, hdrop] at hu
    rw [trimStart, hdrop'] at hv
    exact ⟨name.toList ++ p ++ ':' :: q, ⟨p, q, rfl, hp, hq⟩, by simp [← hu, ← hv]⟩
  · rintro ⟨w, ⟨p, q, rfl, hp, hq⟩, rfl⟩
    have first : trimStart (p ++ ':' :: (q ++ '[' :: rest)) = ':' :: (q ++ '[' :: rest) := by
      rw [trimStart_append_of_blank hp, trimStart_cons_of_not_blank colon]
    have second : trimStart (q ++ '[' :: rest) = '[' :: rest := by
      rw [trimStart_append_of_blank hq, trimStart_cons_of_not_blank bracket]
    have text : name.toList ++ p ++ ':' :: q ++ '[' :: rest
        = name.toList ++ (p ++ ':' :: (q ++ '[' :: rest)) := by simp
    rw [text, Anchor.recognise, isPrefixOf?_append]
    simp only [Option.bind_eq_bind, Option.bind_some, first, isPrefixOf?_singleton, second]

section Name

variable {name : String} (hname : IsArrayName name)
include hname

/-- The characters of an anchor before its bracket. -/
theorem mem_marks {w : List Char} (hw : Marks name w) {c : Char} (hc : c ∈ w) :
    c.isLower = true ∨ isBlank c = true ∨ c = ':' := by
  obtain ⟨p, q, rfl, hp, hq⟩ := hw
  simp only [List.mem_append, List.mem_cons] at hc
  rcases hc with (hc | hc) | rfl | hc
  · exact .inl (hname.letters c hc)
  · exact .inr (.inl (hp c hc))
  · exact .inr (.inr rfl)
  · exact .inr (.inl (hq c hc))

theorem not_mem_marks {w : List Char} (hw : Marks name w) {c : Char}
    (letter : c.isLower = false)
    (blank : isBlank c = false) (colon : c ≠ ':') : c ∉ w := by
  intro hc
  rcases mem_marks hname hw hc with h | h | h
  · rw [letter] at h
    cases h
  · rw [blank] at h
    cases h
  · exact colon h

/-- An anchor starts with the first letter of its name. -/
theorem exists_marks_cons {w : List Char} (hw : Marks name w) :
    ∃ c r, w = c :: r ∧ c.isLower = true ∧ name.toList.head? = some c := by
  obtain ⟨p, q, rfl, -, -⟩ := hw
  obtain ⟨c, r, hcons⟩ := List.exists_cons_of_ne_nil hname.nonempty
  exact ⟨c, r ++ p ++ ':' ::
    q, by simp [hcons], hname.letters c (by simp [hcons]), by simp [hcons]⟩

omit hname in
theorem not_occurs_nil : ¬ Occurs name [] := by
  rintro ⟨w, -, part⟩
  simpa using List.infix_nil.mp part

/-- Other characters keep anchors apart. -/
theorem occurs_append_cons_iff {c : Char} (letter : c.isLower = false)
    (blank : isBlank c = false)
    (colon : c ≠ ':') (bracket : c ≠ '[') {u v : List Char} :
    Occurs name (u ++ c :: v) ↔ Occurs name u ∨ Occurs name v := by
  have barrier : ∀ {w}, Marks name w → c ∉ w ++ ['['] := by
    intro w hw
    simp only [List.mem_append, List.mem_singleton, not_or]
    exact ⟨not_mem_marks hname hw letter blank colon, bracket⟩
  constructor
  · rintro ⟨w, hw, part⟩
    rcases (infix_append_cons_iff (barrier hw)).mp part with part | part
    · exact .inl ⟨w, hw, part⟩
    · exact .inr ⟨w, hw, part⟩
  · rintro (⟨w, hw, part⟩ | ⟨w, hw, part⟩)
    · exact ⟨w, hw, (infix_append_cons_iff (barrier hw)).mpr (.inl part)⟩
    · exact ⟨w, hw, (infix_append_cons_iff (barrier hw)).mpr (.inr part)⟩

/-- An anchor at the end of a text does not reach over other characters. -/
theorem suffix_of_append_cons {w u v : List Char} {c : Char} (hw : Marks name w)
    (letter : c.isLower = false)
    (blank : isBlank c = false) (colon : c ≠ ':') (h : w <:+ u ++ c :: v) : w <:+ v := by
  have barrier := not_mem_marks hname hw letter blank colon
  obtain ⟨f, hf⟩ := h
  rcases List.append_eq_append_iff.mp hf with ⟨d, -, he⟩ | ⟨d, -, he⟩
  · refine absurd ?_ barrier
    rw [he]
    simp
  · cases d with
    | nil =>
        refine absurd ?_ barrier
        rw [← List.nil_append w, ← he]
        simp
    | cons x d => exact ⟨d, (List.cons.inj he).2.symm⟩

/-- A bracket ends an anchor. -/
theorem occurs_append_bracket_iff {u v : List Char} :
    Occurs name (u ++ '[' :: v) ↔ Occurs name (u ++ ['[']) ∨ Occurs name v := by
  constructor
  · rintro ⟨w, hw, s, t, h⟩
    have barrier : '[' ∉ w := not_mem_marks hname hw (by decide) (by decide) (by decide)
    rcases List.append_eq_append_iff.mp h with ⟨a, ha, hb⟩ | ⟨a, ha, hb⟩
    · exact .inl ⟨w, hw, ⟨s, a ++ ['['], by rw [ha]; simp⟩⟩
    · cases a with
      | nil => exact .inl ⟨w, hw, ⟨s, ['['], by rw [ha]; simp⟩⟩
      | cons b a =>
          rw [List.cons_append, List.cons.injEq] at hb
          obtain ⟨rfl, rfl⟩ := hb
          -- The bracket is the last character of the anchor, or it stands before the anchor.
          rcases List.append_eq_append_iff.mp ha with ⟨d, rfl, he⟩ | ⟨d, rfl, he⟩
          · rcases List.append_eq_append_iff.mp he with ⟨x, rfl, hx⟩ | ⟨x, rfl, hx⟩
            · obtain rfl : x = [] := by
                cases x with
                | nil => rfl
                | cons y x => simp at hx
              exact .inl ⟨w, hw, ⟨s, [], by simp⟩⟩
            · cases x with
              | nil => exact .inl ⟨d ++ [], hw, ⟨s, [], by simp⟩⟩
              | cons y x =>
                  have hy : y = '[' := (List.cons.inj hx).1.symm
                  exact absurd (by simp [hy]) barrier
          · cases d with
            | nil =>
                obtain ⟨c, r, rfl, letter, -⟩ := exists_marks_cons hname hw
                have hc : '[' = c := (List.cons.inj he).1
                exact absurd (hc ▸ List.mem_cons_self) barrier
            | cons y d =>
                obtain ⟨-, rfl⟩ := List.cons.inj he
                exact .inr ⟨w, hw, ⟨d, t, by simp⟩⟩
  · rintro (h | h)
    · exact h.mono ⟨[], v, by simp⟩
    · exact h.mono (List.IsSuffix.isInfix ⟨u ++ ['['], by simp⟩)

theorem occurs_blank_cons {c : Char} (letter : c.isLower = false) {v : List Char}
    (h : Occurs name (c :: v)) : Occurs name v := by
  obtain ⟨w, hw, part⟩ := h
  obtain ⟨d, r, rfl, hd, -⟩ := exists_marks_cons hname hw
  have hne : d ∉ [c] := by
    rw [List.mem_singleton]
    rintro rfl
    rw [letter] at hd
    cases hd
  exact ⟨d :: r, hw, (infix_append_left_iff hne).mp part⟩

/-- In a list of entries, an anchor stands inside one of them. -/
theorem exists_of_occurs_join {es : List String} (h : Occurs name (join ", " es).toList) :
    ∃ e ∈ es, Occurs name e.toList := by
  rw [toList_join] at h
  induction es with
  | nil => exact absurd h not_occurs_nil
  | cons e more ih =>
      cases more with
      | nil => exact ⟨e, by simp, by simpa using h⟩
      | cons e' more =>
          have text : List.intercalate ", ".toList ((e :: e' :: more).map String.toList)
              = e.toList ++ ',' :: ' ' :: List.intercalate ", ".toList
                ((e' :: more).map String.toList) := by
            simp [List.intercalate_cons_cons]
          rw [text] at h
          rcases (occurs_append_cons_iff hname (by decide) (by decide) (by decide)
            (by decide)).mp h
            with h | h
          · exact ⟨e, by simp, h⟩
          · obtain ⟨x, hx, h⟩ := ih (occurs_blank_cons hname (by decide) h)
            exact ⟨x, List.mem_cons_of_mem _ hx, h⟩

end Name

/-! ## The first anchor -/

section FirstAnchor

variable {name : String}

/-- A text has one place where its first array opens. -/
theorem Opens.unique {b b' r r' : List Char} (h : Opens name b) (h' : Opens name b')
    (heq : b ++ '[' :: r = b' ++ '[' :: r') : b = b' := by
  have shorter : ∀ {b b' a r r' : List Char}, Opens name b → Opens name b' → b' = b ++ a →
      '[' :: r = a ++ '[' :: r' → b = b' := by
    intro b b' a r r' hb hb' hba ha
    cases a with
    | nil => rw [hba, List.append_nil]
    | cons c a =>
        obtain ⟨w, hw, f, hf⟩ := hb.ends
        have hc : c = '[' := (List.cons.inj ha).1.symm
        exact absurd ⟨w, hw, ⟨f, a, by rw [hba, hc, ← hf]; simp⟩⟩ hb'.first
  rcases List.append_eq_append_iff.mp heq with ⟨a, hba, ha⟩ | ⟨a, hba, ha⟩
  · exact shorter h h' hba ha
  · exact (shorter h' h hba ha).symm

variable (unbracketed : Unbracketed name)
include unbracketed

/-- No bracket opens in an anchor before its own. -/
theorem isOpening_marks {w : List Char} (hw : Marks name w) :
    ∀ c ∈ w, isOpening c = false := by
  have blank : ∀ c, isBlank c = true → isOpening c = false := by
    intro c hc
    cases ho : isOpening c with
    | false => rfl
    | true =>
        simp only [isOpening, Bool.or_eq_true, decide_eq_true_eq] at ho
        rcases ho with (rfl | rfl) | rfl <;> revert hc <;> decide
  obtain ⟨p, q, rfl, hp, hq⟩ := hw
  intro c hc
  simp only [List.mem_append, List.mem_cons] at hc
  rcases hc with (hc | hc) | rfl | hc
  · exact unbracketed c hc
  · exact blank c (hp c hc)
  · decide
  · exact blank c (hq c hc)

theorem opens_of_firstMatch {content front rest : List Char}
    (h : firstMatch (Anchor.array name).recognise content = some (front, rest)) :
    ∃ w, Marks name w ∧ content = front ++ w ++ '[' :: rest ∧ Opens name (front ++ w) := by
  obtain ⟨behind, rfl, hr, silent⟩ := eq_append_of_firstMatch h
  obtain ⟨w, hw, rfl⟩ := recognise_eq_some_iff.mp hr
  refine ⟨w, hw, by simp, ⟨w, hw, List.suffix_append _ _⟩, ?_⟩
  -- An earlier anchor would have been found first.
  rintro ⟨w', hw', part⟩
  have barrier : '[' ∉ w := fun hc => absurd (isOpening_marks unbracketed hw _ hc) (by decide)
  obtain ⟨s, t, hst⟩ := (infix_append_right_iff barrier).mp part
  have found := silent (w' ++ ['['] ++ t) (by simp) ⟨s, by rw [← hst]; simp⟩
  have there : (Anchor.array name).recognise (w' ++ ['['] ++ t ++ (w ++ '[' :: rest))
      = some (t ++ (w ++ '[' :: rest)) := recognise_eq_some_iff.mpr ⟨w', hw', by simp⟩
  rw [there] at found
  cases found

theorem firstMatch_of_opens {before : List Char} (h : Opens name before) (rest : List Char) :
    ∃ front w, before = front ++ w ∧ Marks name w ∧
      firstMatch (Anchor.array name).recognise (before ++ '[' :: rest)
        = some (front, rest) := by
  cases hm : firstMatch (Anchor.array name).recognise (before ++ '[' :: rest) with
  | none =>
      obtain ⟨w, hw, f, rfl⟩ := h.ends
      have missing := firstMatch_eq_none_iff.mp hm (w ++ '[' :: rest) ⟨f, by simp⟩
      rw [recognise_eq_some_iff.mpr ⟨w, hw, rfl⟩] at missing
      cases missing
  | some found =>
      obtain ⟨front, rest'⟩ := found
      obtain ⟨w, hw, heq, opens⟩ := opens_of_firstMatch unbracketed hm
      obtain rfl := h.unique opens heq
      rw [List.append_cancel_left_eq, List.cons.injEq] at heq
      exact ⟨front, w, rfl, hw, by rw [heq.2]⟩

/-- **What is cut out**: the first array of the name, as far as it is closed. -/
theorem extract_eq_ok_iff {content : List Char} {a : ArrayLiteral} :
    extract (.array name) content = .ok a ↔
      content = a.before ++ '[' :: a.inner ++ ']' :: a.after ∧ Opens name a.before ∧
        Reads a.inner a.entries := by
  -- How a text is cut in which the array opens behind `before`.
  have cut : ∀ {before rest : List Char}, Opens name before →
      extract (.array name) (before ++ '[' :: rest)
        = (readInside (before ++ '[' :: rest) (utf8Size before + 1) ⟨[], [], []⟩ rest).map
            fun read => ⟨before, rest.take read.2, rest.drop (read.2 + 1), read.1⟩ := by
    intro before rest opens
    obtain ⟨front, w, rfl, hw, hm⟩ := firstMatch_of_opens unbracketed opens rest
    have closed : ∀ c ∈ w, (!isOpening c) = true := fun c hc => by
      rw [isOpening_marks unbracketed hw c hc]
      rfl
    have stop : ∀ c ∈ ('[' :: rest).head?, (!isOpening c) = false := by
      simp only [List.head?_cons, Option.mem_some_iff, forall_eq']
      decide
    have dropped : (front ++ w ++ '[' :: rest).drop front.length = w ++ '[' :: rest := by
      rw [List.append_assoc, List.drop_left]
    have whole : front ++ (w ++ '[' :: rest) = front ++ w ++ '[' :: rest := by simp
    simp only [extract, extractAt, Anchor.cut, hm, Option.map_some, dropped,
      takeWhile_front closed stop,
      dropWhile_front closed stop, ne_eq, not_true_eq_false, if_false, whole]
    cases readInside (front ++ w ++ '[' :: rest) (utf8Size (front ++ w) + 1)
      ⟨[], [], []⟩ rest <;> rfl
  constructor
  · intro h
    have found : ∃ before rest, content = before ++ '[' :: rest ∧ Opens name before := by
      cases hm : firstMatch (Anchor.array name).recognise content with
      | none => simp [extract, Anchor.cut, hm] at h
      | some found =>
          obtain ⟨front, rest⟩ := found
          obtain ⟨w, -, heq, opens⟩ := opens_of_firstMatch unbracketed hm
          exact ⟨front ++ w, rest, heq, opens⟩
    obtain ⟨before, rest, rfl, opens⟩ := found
    rw [cut opens] at h
    cases hr : readInside (before ++ '[' :: rest) (utf8Size before + 1) ⟨[], [], []⟩ rest with
    | error e => rw [hr] at h; cases h
    | ok read =>
        obtain ⟨entries, size⟩ := read
        rw [hr] at h
        cases h
        obtain ⟨inner, behind, rfl, reads, rfl⟩ := readInside_eq_ok_iff.mp hr
        refine ⟨by simp, opens, ?_⟩
        simpa using reads
  · obtain ⟨before, inner, after, entries⟩ := a
    rintro ⟨rfl, opens, reads⟩
    simp only at opens reads
    rw [List.append_assoc, List.cons_append, cut opens, readInside_eq_ok_iff.mpr ⟨inner, after,
      rfl, reads, rfl⟩]
    simp [Except.map]

end FirstAnchor

end Attestation.ArrayLiteral
