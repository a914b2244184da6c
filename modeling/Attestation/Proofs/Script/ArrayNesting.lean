import Attestation.Proofs.Script.ArrayFrame

/-!
# An array inside of another one

The first array of one name may stand in an object that is an entry of the first array of
another name.  `Nest` is the text around such an inner array and `Nest.plug` puts its inside
back in.

* `Balanced.exists_match`, `Balanced.unique`: a bracket of a balanced text is closed by one
  bracket of its kind.
* `Nest.extract_outer`, `Nest.extract_inner`: either array is found again, whatever stands in
  the inner one.
* `Nest.relist`: the nest with other entries around the object.
* `Distinct.apart_or_nested`: two arrays of a text lie apart, or one is nested in the other.

## Design notes

Nothing forbids a module with one of its two arrays inside of the other, and wiring does not
look for it.  The case is not excluded here either, but treated like the usual one: the text is
cut around the inner array, and what is put back in stays readable because the brackets around
it are balanced.  In the end there are only two ways for two arrays to lie.
-/

namespace Attestation.ArrayLiteral

open Text

/-! ## Matching brackets -/

section Brackets

variable {c c' o : Char} {u v y y' r r' : List Char}

theorem ne_of_closing (ho : isOpening o = true) (hc : isClosing c = true) : o ≠ c := by
  rintro rfl
  simp only [isOpening, Bool.or_eq_true, decide_eq_true_eq] at ho
  rcases ho with (rfl | rfl) | rfl <;> revert hc <;> decide

theorem ne_of_plain (hp : isPlain c = true) (ho : isOpening o = true) : c ≠ o := by
  rintro rfl
  rw [(isPlain_iff.mp hp).1] at ho
  cases ho

theorem ne_closing_of_plain (hp : isPlain c = true) (hc : isClosing c' = true) : c ≠ c' := by
  rintro rfl
  rw [(isPlain_iff.mp hp).2] at hc
  cases hc

/-- **The match of a bracket**: what stands between both can be replaced by any other balanced
text. -/
theorem Balanced.exists_match (ho : isOpening o = true) (h : Balanced (u ++ o :: v)) :
    ∃ inside rest, v = inside ++ closingOf o :: rest ∧ Balanced inside ∧
      ∀ z, Balanced z → Balanced (u ++ o :: z ++ closingOf o :: rest) := by
  generalize hw : u ++ o :: v = w at h
  induction h generalizing u v with
  | nil => simp at hw
  | @plain d rest hd hrest ih =>
      cases u with
      | nil => exact absurd (List.cons.inj hw).1.symm (ne_of_plain hd ho)
      | cons e u =>
          obtain ⟨rfl, tail⟩ := List.cons.inj hw
          obtain ⟨inside, rest, rfl, balanced, fill⟩ := ih tail
          exact ⟨inside, rest, rfl, balanced, fun z hz => .plain hd (fill z hz)⟩
  -- The bracket is the first one of the group, or it stands inside of the group or behind it.
  | @group o' inside rest ho' hinside hrest ihInside ihRest =>
      have closing := (closing_closingOf o').2
      cases u with
      | nil =>
          obtain ⟨rfl, rfl⟩ := List.cons.inj hw
          exact ⟨inside, rest, rfl, hinside, fun z hz => .group ho hz hrest⟩
      | cons e u =>
          obtain ⟨rfl, tail⟩ := List.cons.inj hw
          rcases List.append_eq_append_iff.mp tail with ⟨a, ha, hb⟩ | ⟨a, ha, hb⟩
          · cases a with
            | nil => exact absurd (List.cons.inj hb).1 (ne_of_closing ho closing)
            | cons x a =>
                obtain ⟨rfl, rfl⟩ := List.cons.inj hb
                obtain ⟨i, r, rfl, balanced, fill⟩ := ihInside ha.symm
                refine ⟨i, r ++ closingOf e :: rest, by simp, balanced, fun z hz => ?_⟩
                have outer := Balanced.group ho' (fill z hz) hrest
                simpa using outer
          · cases a with
            | nil => exact absurd (List.cons.inj hb).1.symm (ne_of_closing ho closing)
            | cons x a =>
                obtain ⟨rfl, rfl⟩ := List.cons.inj hb
                obtain ⟨i, r, rfl, balanced, fill⟩ := ihRest rfl
                refine ⟨i, r, rfl, balanced, fun z hz => ?_⟩
                have outer := Balanced.group ho' hinside (fill z hz)
                rw [ha]
                simpa using outer

/-- A balanced text ends at the first bracket that closes more than has been opened. -/
theorem Balanced.unique (h : Balanced y) (h' : Balanced y') (hc : isClosing c = true)
    (hc' : isClosing c' = true)
    (heq : y ++ c :: r = y' ++ c' :: r') : y = y' ∧ r = r' := by
  induction h generalizing y' c c' r r' with
  | nil =>
      cases h' with
      | nil => exact ⟨rfl, (List.cons.inj heq).2⟩
      | plain hd _ => exact absurd (List.cons.inj heq).1.symm (ne_closing_of_plain hd hc)
      | group ho _ _ => exact absurd (List.cons.inj heq).1.symm (ne_of_closing ho hc)
  | plain hd _ ih =>
      cases h' with
      | nil => exact absurd (List.cons.inj heq).1 (ne_closing_of_plain hd hc')
      | plain _ hrest =>
          obtain ⟨rfl, tail⟩ := List.cons.inj heq
          obtain ⟨rfl, rfl⟩ := ih hrest hc hc' tail
          exact ⟨rfl, rfl⟩
      | group ho _ _ => exact absurd (List.cons.inj heq).1 (ne_of_plain hd ho)
  | @group o inside rest ho _ _ ihInside ihRest =>
      cases h' with
      | nil => exact absurd (List.cons.inj heq).1 (ne_of_closing ho hc')
      | plain hd _ => exact absurd (List.cons.inj heq).1.symm (ne_of_plain hd ho)
      | @group o' inside' rest' _ hinside hrest =>
          rw [List.cons_append, List.cons_append, List.cons_append, List.cons_append,
            List.append_assoc,
            List.append_assoc] at heq
          obtain ⟨rfl, tail⟩ := List.cons.inj heq
          obtain ⟨rfl, behind⟩ := ihInside hinside (closing_closingOf o).2
            (closing_closingOf o).2 tail
          obtain ⟨rfl, rfl⟩ := ihRest hrest hc hc' behind
          exact ⟨rfl, rfl⟩

theorem balanced_of_plain (h : ∀ c ∈ u, isPlain c = true) : Balanced u := by
  induction u with
  | nil => exact .nil
  | cons c u ih =>
      rw [List.forall_mem_cons] at h
      exact .plain h.1 (ih h.2)

theorem Chunk.balanced {k : Chunk} (h : k.Valid) : Balanced k.text := by
  cases k with
  | bare u => exact balanced_of_plain h
  | object inside => exact @Balanced.group '\x7b' _ _ (by decide) h .nil

/-- The inside of an array is balanced. -/
theorem Reads.balanced {es : List String} (h : Reads u es) : Balanced u := by
  obtain ⟨chunks, chunked, rfl, -⟩ := reads_iff.mp h
  have valid := chunked.valid
  clear h chunked
  induction chunks with
  | nil => exact .nil
  | cons k more ih =>
      rw [List.forall_mem_cons] at valid
      rw [List.flatMap_cons]
      exact (Chunk.balanced valid.1).append (ih valid.2)

end Brackets

/-! ## Lists around an entry -/

/-- Entries with separators behind them. -/
def leadingEntries (es : List String) : List Char :=
  es.flatMap fun e => e.toList ++ ", ".toList

/-- Entries with separators in front of them. -/
def trailingEntries (es : List String) : List Char :=
  es.flatMap fun e => ", ".toList ++ e.toList

theorem toList_join_append_cons (before : List String) (e : String) (after : List String) :
    (join ", " (before ++ e :: after)).toList
      = leadingEntries before ++ e.toList ++ trailingEntries after := by
  rw [toList_join]
  induction before with
  | nil =>
      induction after generalizing e with
      | nil => simp [leadingEntries, trailingEntries]
      | cons e' after ih =>
          have rest := ih e'
          simp only [leadingEntries, trailingEntries, List.nil_append, List.flatMap_nil,
            List.map_cons,
            List.flatMap_cons] at rest ⊢
          rw [List.intercalate_cons_cons, rest]
          simp
  | cons d before ih =>
      rw [List.cons_append, List.map_cons]
      obtain ⟨x, more, hmore⟩ :=
        List.exists_cons_of_ne_nil (l := (before ++ e :: after).map String.toList) (by simp)
      rw [hmore, List.intercalate_cons_cons, ← hmore, ih]
      simp [leadingEntries]

theorem exists_of_occurs_leadingEntries {name : String} (hname : IsArrayName name)
    {es : List String}
    (h : Occurs name (leadingEntries es)) : ∃ e ∈ es, Occurs name e.toList := by
  induction es with
  | nil => exact absurd h not_occurs_nil
  | cons e es ih =>
      have text : leadingEntries (e :: es) = e.toList ++ ',' :: ' ' :: leadingEntries es := by
        simp [leadingEntries]
      rw [text] at h
      rcases (occurs_append_cons_iff hname (by decide) (by decide) (by decide) (by decide)).mp
        h with h | h
      · exact ⟨e, List.mem_cons_self, h⟩
      · obtain ⟨x, hx, h⟩ := ih (occurs_blank_cons hname (by decide) h)
        exact ⟨x, List.mem_cons_of_mem _ hx, h⟩

/-! ## The text around an inner array -/

/-- The text around an array that stands in an object of another array. -/
structure Nest where
  /-- The text in front of the outer array. -/
  lead : List Char
  /-- What stands in the outer array before the object. -/
  left : List Char
  /-- The entries before the object. -/
  before : List String
  /-- The text in the object before the inner array. -/
  head : List Char
  /-- The text in the object behind the inner array. -/
  tail : List Char
  /-- What stands in the outer array behind the object. -/
  right : List Char
  /-- The entries behind the object. -/
  after : List String
  /-- The text behind the outer array. -/
  rest : List Char

namespace Nest

variable {f : Nest} {n m : String} {y : List Char} {es : List String}

/-- The object with the inside of the inner array. -/
def object (f : Nest) (y : List Char) : String :=
  String.ofList ('\x7b' :: (f.head ++ '[' :: y ++ ']' :: f.tail) ++ ['\x7d'])

/-- The inside of the outer array. -/
def inner (f : Nest) (y : List Char) : List Char := f.left ++ (f.object y).toList ++ f.right

/-- The text up to the inner array. -/
def front (f : Nest) : List Char := f.lead ++ '[' :: f.left ++ '\x7b' :: f.head

/-- The text with the inside of the inner array. -/
def plug (f : Nest) (y : List Char) : List Char := f.lead ++ '[' :: f.inner y ++ ']' :: f.rest

/-- The first array of one name is the outer one, that of the other name the inner one. -/
structure Fits (f : Nest) (n m : String) : Prop where
  lead : Opens n f.lead
  front : Opens m f.front
  reads : ∀ y, Balanced y → Reads (f.inner y) (f.before ++ f.object y :: f.after)
  quiet : ∀ e ∈ f.before, ¬ Occurs m e.toList

theorem plug_eq (f : Nest) (y : List Char) :
    f.plug y = f.front ++ '[' :: y
      ++ ']' :: (f.tail ++ '\x7d' :: f.right ++ ']' :: f.rest) := by
  simp [plug, inner, object, front]

theorem extract_outer (hn : IsArrayName n) (h : f.Fits n m) (hy : Balanced y) :
    extract (.array n) (f.plug y) = .ok ⟨f.lead, f.inner y, f.rest,
      f.before ++ f.object y :: f.after⟩ :=
  (extract_eq_ok_iff hn.unbracketed).mpr ⟨rfl, h.lead, h.reads y hy⟩

theorem extract_inner (hm : IsArrayName m) (h : f.Fits n m) (hy : Reads y es) :
    extract (.array m) (f.plug y)
      = .ok ⟨f.front, y, f.tail ++ '\x7d' :: f.right ++ ']' :: f.rest, es⟩ :=
  (extract_eq_ok_iff hm.unbracketed).mpr ⟨f.plug_eq y, h.front, hy⟩

/-- The nest with other entries around the object, as they are written. -/
def relist (f : Nest) (before after : List String) : Nest :=
  { f with
    left := leadingEntries before
    before := before
    right := trailingEntries after
    after := after }

/-- With other entries, the outer array is written as a list. -/
theorem plug_relist (f : Nest) (before after : List String) (y : List Char) :
    (f.relist before after).plug y
      = f.lead ++ '[' :: (join ", " (before ++ f.object y :: after)).toList
        ++ ']' :: f.rest := by
  rw [toList_join_append_cons]
  rfl

theorem Fits.isEntry_object (h : f.Fits n m) (hy : Balanced y) : IsEntry (f.object y) :=
  ((h.reads y hy).isEntry _ (by simp)).1

theorem Fits.relist (hm : IsArrayName m) (h : f.Fits n m) {before after : List String}
    (left : ∀ e ∈ before, IsEntry e ∧ ¬ Occurs m e.toList) (right : ∀ e ∈ after, IsEntry e) :
    (f.relist before after).Fits n m := by
  refine ⟨h.lead, ⟨?_, ?_⟩, fun y hy => ?_, fun e he => (left e he).2⟩
  · obtain ⟨w, hw, hs⟩ := h.front.ends
    have ends := suffix_of_append_cons hm hw (by decide) (by decide) (by decide) hs
    exact ⟨w, hw, ends.trans ⟨f.lead ++ '[' :: leadingEntries before
        ++ ['\x7b'], by simp [Nest.front, Nest.relist]⟩⟩
  · have quiet := h.front.first
    rw [Nest.front, occurs_append_cons_iff hm (by decide) (by decide) (by decide) (by decide),
      occurs_append_bracket_iff hm, not_or, not_or] at quiet
    rw [Nest.front, occurs_append_cons_iff hm (by decide) (by decide) (by decide) (by decide),
      occurs_append_bracket_iff hm]
    rintro ((ho | ho) | ho)
    · exact quiet.1.1 ho
    · obtain ⟨e, he, ho⟩ := exists_of_occurs_leadingEntries hm ho
      exact (left e he).2 ho
    · exact quiet.2 ho
  · have all : ∀ e ∈ before ++ f.object y :: after, IsEntry e := by
      intro e he
      rcases List.mem_append.mp he with he | he
      · exact (left e he).1
      · rcases List.mem_cons.mp he with rfl | he
        · exact h.isEntry_object hy
        · exact right e he
    have reads := reads_join all
    rwa [toList_join_append_cons] at reads

end Nest

/-! ## Where two arrays lie -/

/-- A bracket in a sequence of chunks stands in one of them. -/
theorem exists_of_flatMap_chunks {chunks : List Chunk} (valid : ∀ k ∈ chunks, k.Valid)
    {u v : List Char}
    (h : chunks.flatMap Chunk.text = u ++ '[' :: v) :
    ∃ before inside after head tail, chunks = before ++ Chunk.object inside :: after ∧
      inside = head ++ '[' :: tail ∧
      u = before.flatMap Chunk.text ++ '\x7b' :: head ∧
      v = tail ++ '\x7d' :: after.flatMap Chunk.text := by
  induction chunks generalizing u with
  | nil => simp at h
  | cons k more ih =>
      rw [List.forall_mem_cons] at valid
      rw [List.flatMap_cons] at h
      rcases List.append_eq_append_iff.mp h with ⟨a, rfl, ha⟩ | ⟨a, ha, hb⟩
      · obtain ⟨before, inside, after, head, tail, rfl, rfl, rfl, rfl⟩ := ih valid.2 ha
        exact ⟨k :: before, _, after, head, tail, rfl, rfl, by simp, rfl⟩
      · cases a with
        | nil =>
            obtain ⟨before, inside, after, head, tail, rfl, rfl, hu, rfl⟩ :=
              ih (u := []) valid.2 hb.symm
            simp at hu
        | cons x a =>
            obtain ⟨rfl, rfl⟩ := List.cons.inj hb
            cases k with
            | bare w =>
                have plain := valid.1 '[' (by rw [show w = u ++ '[' :: a from ha]; simp)
                exact absurd plain (by decide)
            | object inside =>
                -- The bracket is neither of the braces.
                have text : '\x7b' :: (inside ++ ['\x7d']) = u ++ '[' :: a := by
                  simpa [Chunk.text] using ha
                cases u with
                | nil => exact absurd (List.cons.inj text).1 (by decide)
                | cons e u =>
                    obtain ⟨rfl, behind⟩ := List.cons.inj text
                    replace behind : inside ++ ['\x7d'] = u ++ '[' :: a := behind
                    rcases List.eq_nil_or_concat' a with rfl | ⟨tail, last, rfl⟩
                    · have last := List.append_inj_right' behind rfl
                      exact absurd (List.cons.inj last).1 (by decide)
                    · rw [← List.cons_append, ← List.append_assoc] at behind
                      obtain ⟨rfl, last⟩ := List.append_inj' behind rfl
                      obtain rfl := (List.cons.inj last).1
                      exact ⟨[], _, more, u, tail, rfl, rfl, by simp, by simp⟩

/-- An object can be replaced by another one. -/
theorem Chunked.replace {before after : List Chunk} {x z : List Char}
    (h : Chunked (before ++ Chunk.object x :: after)) (hz : Balanced z) :
    Chunked (before ++ Chunk.object z :: after) := by
  constructor
  · intro k hk
    rcases List.mem_append.mp hk with hk | hk
    · exact h.valid k (List.mem_append_left _ hk)
    · rcases List.mem_cons.mp hk with rfl | hk
      · exact hz
      · exact h.valid k (List.mem_append_right _ (List.mem_cons_of_mem _ hk))
  · have apart := h.apart
    rw [← List.isChain_map (R := fun a b => a = true ∨ b = true) Chunk.isObject] at apart ⊢
    rw [List.map_append, List.map_cons] at apart ⊢
    exact apart

/-- A bracket in the inside of an array stands in an object among its entries, and so does the
bracket that closes it. -/
theorem Reads.exists_object {x u v : List Char} {es : List String} (h : Reads x es)
    (hx : x = u ++ '[' :: v) :
    ∃ left head inside tail right before after, u = left ++ '\x7b' :: head ∧
      v = inside ++ ']' :: (tail ++ '\x7d' :: right) ∧ Balanced inside ∧
      (∀ e ∈ before, e.toList <:+: left) ∧
      es = before ++ String.ofList ('\x7b' :: (head ++ '[' :: inside ++ ']' :: tail)
        ++ ['\x7d']) :: after ∧
      ∀ y, Balanced y → Reads (left ++ '\x7b' :: (head ++ '[' :: y ++ ']' :: tail)
        ++ '\x7d' :: right)
        (before ++ String.ofList ('\x7b' :: (head ++ '[' :: y ++ ']' :: tail) ++ ['\x7d']) ::
          after) := by
  obtain ⟨chunks, chunked, text, rfl⟩ := reads_iff.mp h
  obtain ⟨before, inside, after, head, rest, rfl, rfl, rfl, rfl⟩ :=
    exists_of_flatMap_chunks chunked.valid (text.symm.trans hx)
  have valid : Balanced (head ++ '[' :: rest) := chunked.valid (.object _) (by simp)
  obtain ⟨inner, tail, rfl, balanced, fill⟩ := valid.exists_match (o := '[') (by decide)
  have front : Reads (before.flatMap Chunk.text) (before.flatMap Chunk.entries) :=
    reads_iff.mpr ⟨before, ⟨fun k hk => chunked.valid k (List.mem_append_left _ hk),
      (List.isChain_append.mp chunked.apart).1⟩, rfl, rfl⟩
  refine ⟨_, head, inner, tail, after.flatMap Chunk.text, before.flatMap Chunk.entries,
    after.flatMap Chunk.entries, rfl, ?_, balanced, fun e he => (front.isEntry e he).2, ?_,
    fun y hy => ?_⟩
  · simp [closingOf]
  · simp [Chunk.entries, Chunk.text, closingOf]
  · have object : Balanced (head ++ '[' :: y ++ ']' :: tail) := fill y hy
    refine reads_iff.mpr ⟨_, chunked.replace object, ?_, ?_⟩
    · simp [Chunk.text]
    · simp [Chunk.entries, Chunk.text]

/-- Two names of which neither ends with the other. -/
structure Distinct (n m : String) : Prop where
  left : ¬ n.toList <:+ m.toList
  right : ¬ m.toList <:+ n.toList

theorem Distinct.symm {n m : String} (h : Distinct n m) : Distinct m n := ⟨h.right, h.left⟩

section Distinct

variable {n m : String} {w w' : List Char}

theorem not_blank_of_isLower {c : Char} (h : c.isLower = true) : isBlank c = false := by
  cases hb : isBlank c with
  | false => rfl
  | true =>
      have ascii : ∀ d ∈ blanks, d.isLower = false := forall_mem_of_all (by decide)
      rw [ascii c (by simpa [isBlank] using hb)] at h
      cases h

/-- An anchor that ends with another one has a name that ends with the other name. -/
theorem suffix_of_marks (hn : IsArrayName n) (hm : IsArrayName m) (hw : Marks n w)
    (hw' : Marks m w')
    (h : w <:+ w') : n.toList <:+ m.toList := by
  obtain ⟨p, q, rfl, hp, hq⟩ := hw
  obtain ⟨p', q', rfl, hp', hq'⟩ := hw'
  obtain ⟨s, hs⟩ := h
  have colon : ∀ {t : List Char}, (∀ c ∈ t, isBlank c = true) → ':' ∉ t := fun ht hc =>
    absurd (ht _ hc) (by decide)
  have front : ':' ∉ m.toList ++ p' := by
    rw [List.mem_append, not_or]
    exact ⟨fun hc => absurd (hm.letters _ hc) (by decide), colon hp'⟩
  have letters : ∀ {c}, c.isLower = true → isBlank c = true → False := fun letter blank => by
    rw [not_blank_of_isLower letter] at blank
    cases blank
  obtain ⟨names, -, -⟩ := (List.append_cons_inj_of_notMem front (colon hq')).mp
    (show m.toList ++ p' ++ ':' :: q' = s ++ n.toList ++ p ++ ':' :: q by rw [← hs]; simp)
  -- The blanks behind the names are the same ones, since names end with letters.
  rcases List.append_eq_append_iff.mp names with ⟨a, ha, rfl⟩ | ⟨a, ha, rfl⟩
  · rcases List.eq_nil_or_concat' a with rfl | ⟨a, c, rfl⟩
    · exact ⟨s, by rw [ha, List.append_nil]⟩
    · obtain ⟨r, d, hr⟩ := (List.eq_nil_or_concat' n.toList).resolve_left hn.nonempty
      rw [hr, ← List.append_assoc, ← List.append_assoc] at ha
      obtain rfl := (List.cons.inj (List.append_inj_right' ha rfl)).1
      exact (letters (hn.letters d (by simp [hr])) (hp' d (by simp))).elim
  · cases a with
    | nil => exact ⟨s, by rw [ha, List.append_nil]⟩
    | cons c a => exact (letters (hm.letters c (by simp [ha])) (hp c (by simp))).elim

/-- Two arrays do not open at one bracket. -/
theorem Distinct.not_opens (h : Distinct n m) (hn : IsArrayName n) (hm : IsArrayName m)
    {u : List Char}
    (ho : Opens n u) (ho' : Opens m u) : False := by
  obtain ⟨w, hw, hs⟩ := ho.ends
  obtain ⟨w', hw', hs'⟩ := ho'.ends
  rcases List.suffix_or_suffix_of_suffix hs hs' with part | part
  · exact h.left (suffix_of_marks hn hm hw hw' part)
  · exact h.right (suffix_of_marks hm hn hw' hw part)

end Distinct

variable {n m : String} {content : List Char} {a b : ArrayLiteral}

/-- An array that opens behind another one lies behind it or in it. -/
theorem behind_or_nested (hn : IsArrayName n) (hm : IsArrayName m) (distinct : Distinct n m)
    (ha : extract (.array n) content = .ok a) (hb : extract (.array m) content = .ok b)
    (order : a.before <+: b.before) :
    a.stop < b.start ∨ ∃ f : Nest, f.Fits n m ∧ content = f.plug b.inner := by
  obtain ⟨textA, opensA, readsA⟩ := (extract_eq_ok_iff hn.unbracketed).mp ha
  obtain ⟨textB, opensB, readsB⟩ := (extract_eq_ok_iff hm.unbracketed).mp hb
  obtain ⟨r, hr⟩ := order
  have both := textA.symm.trans textB
  rw [← hr, List.append_assoc, List.append_assoc, List.append_assoc,
    List.append_cancel_left_eq] at both
  -- What stands between the two anchors decides: nothing cannot stand there, as the names
  -- differ.
  cases r with
  | nil =>
      rw [List.append_nil] at hr
      exact (distinct.not_opens hn hm opensA (hr ▸ opensB)).elim
  | cons c r =>
      obtain rfl : '[' = c := (List.cons.inj both).1
      replace both : a.inner ++ ']' :: a.after = r ++ '[' :: (b.inner ++ ']' :: b.after) := by
        simpa using both
      rcases List.append_eq_append_iff.mp both with ⟨d, rfl, hd⟩ | ⟨d, hd, hrest⟩
      · -- The first array is closed in front of the second one.
        cases d with
        | nil => exact absurd (List.cons.inj hd).1 (by decide)
        | cons x d =>
            left
            rw [stop, start, start, ← hr, utf8Size_append, utf8Size_cons, utf8Size_append,
              utf8Size_cons]
            have bracket : Char.utf8Size '[' = 1 := rfl
            have positive := Char.utf8Size_pos x
            omega
      · cases d with
        | nil => exact absurd (List.cons.inj hrest).1 (by decide)
        | cons x d =>
            obtain rfl : '[' = x := (List.cons.inj hrest).1
            -- The bracket of the second array opens inside of the first one, so it is one of
            -- an object.
            obtain ⟨left, head, inside, tail, right, before, after, rfl, rfl, balanced,
              within, -, fill⟩ :=
              readsA.exists_object hd
            have closes : b.inner ++ ']' :: b.after
                = inside ++ ']' :: (tail ++ '\x7d' :: right ++ ']' :: a.after) := by
              simpa using hrest
            obtain ⟨rfl, hafter⟩ := readsB.balanced.unique balanced (by decide)
              (by decide) closes
            have front : Nest.front ⟨a.before, left, before, head, tail, right, after, a.after⟩
                = b.before := by
              simp [Nest.front, ← hr]
            refine .inr ⟨⟨a.before, left, before, head, tail, right, after, a.after⟩,
              ⟨opensA, front ▸ opensB, fun y hy => ?_, fun e he ho => ?_⟩, ?_⟩
            · simpa [Nest.inner, Nest.object] using fill y hy
            · refine opensB.first (ho.mono ((within e he).trans ⟨a.before ++ ['['],
                '\x7b' :: head, ?_⟩))
              simp [← hr]
            · rw [Nest.plug_eq, front, textB, hafter]

/-- **How two arrays lie**: one behind the other, or one in an object of the other. -/
theorem Distinct.apart_or_nested (hn : IsArrayName n) (hm : IsArrayName m)
    (distinct : Distinct n m)
    (ha : extract (.array n) content = .ok a) (hb : extract (.array m) content = .ok b) :
    (a.stop < b.start ∨ b.stop < a.start) ∨
    (∃ f : Nest, f.Fits n m ∧ content = f.plug b.inner) ∨
      ∃ f : Nest, f.Fits m n ∧ content = f.plug a.inner := by
  obtain ⟨textA, -, -⟩ := (extract_eq_ok_iff hn.unbracketed).mp ha
  obtain ⟨textB, -, -⟩ := (extract_eq_ok_iff hm.unbracketed).mp hb
  have prefixA : a.before <+: content :=
    ⟨'[' :: a.inner ++ ']' :: a.after, by rw [textA]; simp⟩
  have prefixB : b.before <+: content :=
    ⟨'[' :: b.inner ++ ']' :: b.after, by rw [textB]; simp⟩
  rcases List.prefix_or_prefix_of_prefix prefixA prefixB with order | order
  · rcases behind_or_nested hn hm distinct ha hb order with apart | nested
    · exact .inl (.inl apart)
    · exact .inr (.inl nested)
  · rcases behind_or_nested hm hn distinct.symm hb ha order with apart | nested
    · exact .inl (.inr apart)
    · exact .inr (.inr nested)

end Attestation.ArrayLiteral
