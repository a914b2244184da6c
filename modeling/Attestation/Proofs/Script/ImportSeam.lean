import Attestation.Proofs.Script.ImportLegible

/-!
# Where a statement ends

A statement ends with the quote behind its module, and what stands behind that quote does not
matter to the reader that took it (`Closed`).  Another reader may still go on over the quote,
since the name of a default import or of a namespace may hold quotes: `import from'a'` is the
start of such a statement when the word `from` follows.  A line break that nothing of a
statement follows puts an end to it: with the line break and what is behind it, the same is
read as without (`Quoted.recognise_append`).

## Design notes

When the text behind a statement changes, the statement must be read as before.  That its own
text is read in the same way is not enough, since a longer reading could be tried first.  So
the two readers with names that may hold quotes are described by exact forms, and a line break
that no part of a statement follows is shown to end each of them.
-/

namespace Attestation.ImportBlock

open Text

/-! ## The parts of a statement -/

section Default

variable {g name g' t rest : List Char} {i : Import}

/-- A gap in front of a text that starts with none. -/
theorem any_isGap_head? (hg : ∀ c ∈ g, isGap c = true)
    (open_ : ∀ c ∈ t.head?, isGap c = false) :
    (g ++ t).head?.any isGap = true ↔ g ≠ [] := by
  cases g with
  | nil =>
      cases t with
      | nil => simp
      | cons c t => simpa using open_ c rfl
  | cons c g => simpa using hg c (by simp)

/-- A statement with a default import that has been cut behind the name is read on from
there. -/
theorem readDefault_front {w : List Char} (hg : ∀ c ∈ g, isGap c = true) (gap : g ≠ [])
    (hname : ∀ c ∈ name, isDefaultName c = true) (hne : name ≠ [])
    (stop : ∀ c ∈ w.head?, isDefaultName c = false) :
    readDefault (g ++ (name ++ w)) = match skipGap w with
      | ',' :: t => readTail name t
      | t => if w.head?.any isGap then readTail name t else none := by
  have gapless : ∀ c ∈ name, isGap c = false := fun c hc => isGap_of_isDefaultName (hname c hc)
  have nonempty : name.isEmpty = false := by simpa using hne
  have first : (g ++ (name ++ w)).head?.any isGap = true := by
    obtain ⟨c, r, rfl⟩ := List.exists_cons_of_ne_nil gap
    exact hg c (by simp)
  simp only [readDefault, skipGap_append hg, skipGap_word gapless hne,
    takeWhile_front hname stop,
    dropWhile_front hname stop, first, nonempty]
  rfl

/-- A statement with a default import is a gap, the name, a gap or a comma, and a tail. -/
theorem readDefault_eq_some_iff {cs : List Char} :
    readDefault cs = some (i, rest) ↔ ∃ g name g' t, (∀ c ∈ g, isGap c = true) ∧ g ≠ [] ∧
      (∀ c ∈ name, isDefaultName c = true) ∧ name ≠ [] ∧ (∀ c ∈ g', isGap c = true) ∧
      (cs = g ++ (name ++ (g' ++ ',' :: t)) ∨
        cs = g ++ (name ++ (g' ++ t)) ∧ g' ≠ [] ∧ ∀ c ∈ t.head?, isGap c = false ∧ c ≠ ',') ∧
      readTail name t = some (i, rest) := by
  constructor
  · intro h
    obtain ⟨g, v, rfl, hg, -, -, hv⟩ := exists_front isGap cs
    obtain ⟨name, w, rfl, hname, stop, htake, -⟩ := exists_front isDefaultName v
    obtain ⟨g', t, rfl, hg', open_, -, -⟩ := exists_front isGap w
    have head : skipGap (g ++ (name ++ (g' ++ t))) = name ++ (g' ++ t) := hv
    have hne : name ≠ [] := by
      rintro rfl
      simp only [readDefault, head, htake] at h
      simp at h
    have gap : g ≠ [] := by
      rintro rfl
      obtain ⟨c, r, rfl⟩ := List.exists_cons_of_ne_nil hne
      simp [readDefault, isGap_of_isDefaultName (hname c (by simp))] at h
    rw [readDefault_front hg gap hname hne stop,
      show skipGap (g' ++ t) = t from dropWhile_front hg' open_] at h
    split at h
    · exact ⟨g, name, g', _, hg, gap, hname, hne, hg', .inl rfl, h⟩
    · next comma =>
        split at h
        · next gap' =>
            refine ⟨g, name, g', t, hg, gap, hname, hne, hg',
              .inr ⟨rfl, (any_isGap_head? hg' open_).mp gap', ?_⟩, h⟩
            intro c hc
            refine ⟨open_ c hc, ?_⟩
            rintro rfl
            obtain ⟨r, rfl⟩ := List.head?_eq_some_iff.mp hc
            exact comma r rfl
        · cases h
  · rintro ⟨g, name, g', t, hg, gap, hname, hne, hg', text, h⟩
    -- The name ends at a gap, or at the comma.
    have stop : ∀ u : List Char, g' ≠ [] ∨ u.head? = some ',' →
      ∀ c ∈ (g' ++ u).head?, isDefaultName c = false := by
      intro u ends c hc
      cases g' with
      | nil =>
          rw [List.nil_append, ends.resolve_left (by simp), Option.mem_some_iff] at hc
          rw [← hc]
          decide
      | cons d g' =>
          obtain rfl : d = c := by simpa using hc
          simp [isDefaultName, hg' d (by simp)]
    rcases text with rfl | ⟨rfl, gap', open_⟩
    · rw [readDefault_front hg gap hname hne (stop _ (.inr rfl)),
        show skipGap (g' ++ ',' :: t) = ',' :: t from dropWhile_front hg' (by simp [isGap])]
      exact h
    · have behind : skipGap (g' ++ t) = t := dropWhile_front hg' fun c hc => (open_ c hc).1
      rw [readDefault_front hg gap hname hne (stop t (.inl gap')), behind]
      split
      · exact absurd rfl (open_ ',' rfl).2
      · rwa [if_pos ((any_isGap_head? hg' fun c hc => (open_ c hc).1).mpr gap')]

end Default

/-- A statement with a namespace is a star, the word `as` and a name, apart from each other,
and a module. -/
theorem readWildcard_eq_some_iff {cs rest : List Char} {i : Import} :
    readWildcard cs = some (i, rest) ↔
    ∃ g g' k name t, cs = g ++ '*' :: (g' ++ ("as".toList ++ (k ++ (name ++ t)))) ∧
      (∀ c ∈ g, isGap c = true) ∧ (∀ c ∈ g', isGap c = true) ∧ (∀ c ∈ k, isGap c = true) ∧
      k ≠ [] ∧
      (∀ c ∈ name, isWildcardName c = true) ∧ name ≠ [] ∧ t.head?.any isGap = true ∧
      readModule ⟨[], [], name⟩ t = some (i, rest) := by
  constructor
  · intro h
    obtain ⟨g, v, rfl, hg, hv⟩ := exists_gap cs
    rw [readWildcard, hv] at h
    simp only [Option.bind_eq_bind, Option.bind_eq_some_iff] at h
    obtain ⟨v', hstar, w, has, h⟩ := h
    rw [List.isPrefixOf?_eq_some_iff_append_eq] at hstar has
    obtain ⟨g', w', rfl, hg', hw'⟩ := exists_gap v'
    rw [hw'] at has
    obtain ⟨k, u, rfl, hk, -, -, hu⟩ := exists_front isGap w
    obtain ⟨name, t, rfl, hname, -, htake, hdrop⟩ := exists_front isWildcardName u
    have word : skipGap (k ++ (name ++ t)) = name ++ t := hu
    simp only [word, htake, hdrop] at h
    split at h
    · next hcond =>
        simp only [Bool.and_eq_true, Bool.not_eq_true', List.isEmpty_eq_false_iff] at hcond
        obtain ⟨⟨first, hne⟩, last⟩ := hcond
        refine ⟨g, g', k, name,
          t, by simp [← hstar, ← has], hg, hg', hk, ?_, hname, hne, last, h⟩
        -- Without a gap the name would have been part of the word `as`.
        rintro rfl
        obtain ⟨c, r, rfl⟩ := List.exists_cons_of_ne_nil hne
        have inside := hname c (by simp)
        rw [List.nil_append, List.cons_append, List.head?_cons, Option.any_some] at first
        simp [isWildcardName, first] at inside
    · cases h
  · rintro ⟨g, g', k, name, t, rfl, hg, hg', hk, gap, hname, hne, last, h⟩
    have gapless : ∀ c ∈ name, isGap c = false := by
      intro c hc
      have inside := hname c hc
      simp only [isWildcardName, Bool.and_eq_true, Bool.not_eq_true'] at inside
      exact inside.1.1
    have nonempty : name.isEmpty = false := by simpa using hne
    have stop : ∀ c ∈ t.head?, isWildcardName c = false := by
      intro c hc
      rw [hc, Option.any_some] at last
      simp [isWildcardName, last]
    have first : (k ++ (name ++ t)).head?.any isGap = true := by
      obtain ⟨c, r, rfl⟩ := List.exists_cons_of_ne_nil gap
      exact hk c (by simp)
    have star : skipGap ('*' :: (g' ++ ("as".toList ++ (k ++ (name ++ t)))))
        = '*' :: (g' ++ ("as".toList ++ (k ++ (name ++ t)))) :=
        skipGap_cons_of_not (by decide) _
    have as_ : skipGap ("as".toList ++ (k ++ (name ++ t)))
        = "as".toList ++ (k ++ (name ++ t)) :=
      skipGap_cons_of_not (by decide) _
    simp only [readWildcard, skipGap_append hg, star, isPrefixOf?_singleton,
      Option.bind_eq_bind, Option.bind_some,
      skipGap_append hg', as_, isPrefixOf?_append, skipGap_append hk, skipGap_word gapless hne,
      takeWhile_front hname stop, dropWhile_front hname stop, first, nonempty, last]
    exact h

/-! ## Readers that do not look ahead -/

/-- The text ends with a quote, as every statement does. -/
def Quoted (w : List Char) : Prop := ∃ u q, w = u ++ [q] ∧ isQuote q = true

namespace Quoted

variable {w : List Char}

theorem of_append {u : List Char} (h : Quoted (u ++ w)) (hne : w ≠ []) : Quoted w := by
  obtain ⟨t, q, text, hq⟩ := h
  obtain ⟨w', c, rfl⟩ := (List.eq_nil_or_concat' w).resolve_left hne
  rw [← List.append_assoc] at text
  obtain ⟨-, last⟩ := List.append_inj' text rfl
  exact ⟨w', q, by rw [last], hq⟩

theorem append {u : List Char} (h : Quoted w) : Quoted (u ++ w) := by
  obtain ⟨t, q, rfl, hq⟩ := h
  exact ⟨u ++ t, q, by simp, hq⟩

theorem cons {c : Char} (h : Quoted w) : Quoted (c :: w) := h.append (u := [c])

theorem ne_nil (h : Quoted w) : w ≠ [] := by
  obtain ⟨t, q, rfl, -⟩ := h
  simp

end Quoted

/-- A reader takes a text up to a quote, and what stands behind it does not matter.  Statements
that are written one behind the other are so read one by one. -/
structure Closed (read : List Char → Option (Import × List Char)) : Prop where
  takes : ∀ {cs rest i}, read cs = some (i, rest) →
    ∃ u, cs = u ++ rest ∧ Quoted u ∧ ∀ y, read (u ++ y) = some (i, y)

theorem closed_readModule (clause : Clause) : Closed (readModule clause) := by
  refine ⟨fun {cs rest i} h => ?_⟩
  obtain ⟨g, k, q, m, q', rfl, hg, hk, hq, hm, hne, hq', rfl⟩ := eq_append_of_readModule h
  refine ⟨g ++ "from".toList ++ k ++ q :: m ++ [q'], by simp, ⟨_, q', rfl, hq'⟩, fun y => ?_⟩
  rw [← readModule_append hg hk hq hm hne hq']
  simp

theorem closed_readTail (default : List Char) : Closed (readTail default) := by
  refine ⟨fun {cs rest i} h => ?_⟩
  rw [readTail] at h
  cases hn : readNamed cs with
  | some found =>
      obtain ⟨names, behind⟩ := found
      rw [hn] at h
      obtain ⟨g, rfl, hg, hnames, hne⟩ := eq_append_of_readNamed hn
      obtain ⟨u, rfl, quoted, same⟩ := (closed_readModule _).takes h
      refine ⟨g ++ '\x7b' :: names ++ '\x7d' :: u, by simp, quoted.cons.append, fun y => ?_⟩
      have read : readNamed (g ++ '\x7b' :: names ++ '\x7d' :: u ++ y)
          = some (names, u ++ y) := by
        rw [← readNamed_append hg hnames hne]
        simp
      rw [readTail, read]
      exact same y
  | none =>
      rw [hn] at h
      obtain ⟨u, rfl, quoted, same⟩ := (closed_readModule _).takes h
      refine ⟨u, rfl, quoted, fun y => ?_⟩
      -- The module comes first, so that no brace does.
      obtain ⟨g, k, q, m, q', text, hg, -⟩ := eq_append_of_readModule h
      have taken : u = g ++ 'f' :: ("rom".toList ++ k ++ q :: m ++ [q']) :=
        List.append_cancel_right (text.trans (by simp))
      have read : readNamed (u ++ y) = none := by
        rw [taken, List.append_assoc]
        exact readNamed_eq_none_of_head hg (by decide) (by decide)
      rw [readTail, read]
      exact same y

theorem closed_readDefault : Closed readDefault := by
  refine ⟨fun {cs rest i} h => ?_⟩
  obtain ⟨g, name, g', t, hg, gap, hname, hne, hg', text, tail⟩ := readDefault_eq_some_iff.mp h
  obtain ⟨u, rfl, quoted, same⟩ := (closed_readTail name).takes tail
  have read : ∀ y text, (text = g ++ (name ++ (g' ++ ',' :: (u ++ y))) ∨
      text = g ++ (name ++ (g' ++ (u ++ y))) ∧ g' ≠ [] ∧ ∀ c ∈ (u ++ y).head?,
        isGap c = false ∧ c ≠ ',') →
      readDefault text = some (i, y) := fun y text shape =>
    readDefault_eq_some_iff.mpr ⟨g, name, g', u ++ y, hg, gap, hname, hne, hg', shape, same y⟩
  rcases text with rfl | ⟨rfl, gap', open_⟩
  · exact ⟨g ++ (name ++ (g' ++ ',' :: u)), by simp, quoted.cons.append.append.append, fun y =>
      read y _ (.inl (by simp))⟩
  · refine ⟨g ++ (name ++ (g' ++ u)), by simp, quoted.append.append.append, fun y =>
      read y _ (.inr ⟨by simp, gap', ?_⟩)⟩
    obtain ⟨c, r, rfl⟩ := List.exists_cons_of_ne_nil quoted.ne_nil
    exact open_

theorem closed_readWildcard : Closed readWildcard := by
  refine ⟨fun {cs rest i} h => ?_⟩
  obtain ⟨g, g', k, name, t, rfl, hg, hg', hk, gap, hname, hne, last, module_⟩ :=
    readWildcard_eq_some_iff.mp h
  obtain ⟨u, rfl, quoted, same⟩ := (closed_readModule _).takes module_
  refine ⟨g ++ '*' :: (g' ++ ("as".toList ++ (k ++ (name ++ u)))), by simp,
    quoted.append.append.append.append.cons.append, fun y => ?_⟩
  refine readWildcard_eq_some_iff.mpr ⟨g, g', k, name,
    u ++ y, by simp, hg, hg', hk, gap, hname, hne, ?_, same y⟩
  obtain ⟨c, r, rfl⟩ := List.exists_cons_of_ne_nil quoted.ne_nil
  exact last

namespace Closed

variable {read : List Char → Option (Import × List Char)} (h : Closed read)
include h

theorem append {w rest : List Char} {i : Import} (hr : read w = some (i, rest))
    (x : List Char) :
    read (w ++ x) = some (i, rest ++ x) := by
  obtain ⟨u, rfl, -, same⟩ := h.takes hr
  rw [List.append_assoc]
  exact same _

theorem eq_none_of_append {w x : List Char} (hr : read (w ++ x) = none) : read w = none := by
  cases hw : read w with
  | none => rfl
  | some found =>
      rw [h.append hw x] at hr
      cases hr

theorem source {u x : List Char} {i : Import} (hr : read (u ++ x) = some (i, x)) :
    read u = some (i, []) ∧ Quoted u := by
  obtain ⟨u', text, quoted, same⟩ := h.takes hr
  obtain rfl := List.append_cancel_right text
  exact ⟨by simpa using same [], quoted⟩

end Closed

theorem recognise_import (v : List Char) :
    recognise ("import".toList ++ v)
      = (readDefault v).or ((readTail [] v).or (readWildcard v)) := by
  rw [recognise, isPrefixOf?_append]
  simp only [Option.bind_eq_bind, Option.bind_some]
  cases readDefault v with
  | some found => rfl
  | none =>
      cases readTail [] v with
      | some found => rfl
      | none => rfl

/-- A statement is recognised by its own text. -/
theorem recognise_source {u x : List Char} {i : Import}
    (h : recognise (u ++ x) = some (i, x)) :
    recognise u = some (i, []) ∧ Quoted u := by
  obtain ⟨source, -, -, text, -, -, -, -, c, r, rfl, -⟩ := eq_append_of_recognise h
  obtain rfl := List.append_cancel_right text
  rw [List.append_assoc, recognise_import] at h
  rw [recognise_import]
  cases hd : readDefault (c :: r ++ x) with
  | some found =>
      rw [hd, Option.some_or] at h
      obtain ⟨read, quoted⟩ := closed_readDefault.source (hd.trans h)
      exact ⟨by rw [read, Option.some_or], quoted.append⟩
  | none =>
      rw [hd, Option.none_or] at h
      rw [closed_readDefault.eq_none_of_append hd, Option.none_or]
      cases ht : readTail [] (c :: r ++ x) with
      | some found =>
          rw [ht, Option.some_or] at h
          obtain ⟨read, quoted⟩ := (closed_readTail []).source (ht.trans h)
          exact ⟨by rw [read, Option.some_or], quoted.append⟩
      | none =>
          rw [ht, Option.none_or] at h
          rw [(closed_readTail []).eq_none_of_append ht, Option.none_or]
          obtain ⟨read, quoted⟩ := closed_readWildcard.source h
          exact ⟨read, quoted.append⟩

/-- Where nothing is recognised, nothing is recognised in less of the text. -/
theorem recognise_eq_none_of_append {w x : List Char} (h : recognise (w ++ x) = none) :
    recognise w = none := by
  cases hw : recognise w with
  | none => rfl
  | some found =>
      obtain ⟨i, rest⟩ := found
      obtain ⟨source, -, -, rfl, -, -, -, -, c, r, rfl, -⟩ := eq_append_of_recognise hw
      rw [List.append_assoc, List.append_assoc, recognise_import, Option.or_eq_none_iff,
        Option.or_eq_none_iff,
        ← List.append_assoc] at h
      rw [List.append_assoc, recognise_import, closed_readDefault.eq_none_of_append h.1,
        (closed_readTail []).eq_none_of_append h.2.1,
        closed_readWildcard.eq_none_of_append h.2.2] at hw
      cases hw

/-! ## A line break behind a quote -/

/-- A line break, and something behind it with which no part of a statement starts. -/
def Breaks (r : List Char) : Prop :=
  ∃ c v, r = '\n' :: c :: v ∧ isGap c = false ∧ c ∉ [',', '\x7b', 'f']

/-- What `readDefault` reads behind the name. -/
def readBehindName (name cs : List Char) : Option (Import × List Char) :=
  match skipGap cs with
  | ',' :: rest => readTail name rest
  | rest => if cs.head?.any isGap then readTail name rest else none

theorem readDefault_eq (cs : List Char) :
    readDefault cs = if cs.head?.any isGap &&
      !((skipGap cs).takeWhile isDefaultName).isEmpty then
      readBehindName ((skipGap cs).takeWhile isDefaultName)
        ((skipGap cs).dropWhile isDefaultName) else none := rfl

theorem readBehindName_of_comma {name cs t : List Char} (h : skipGap cs = ',' :: t) :
    readBehindName name cs = readTail name t := by
  rw [readBehindName, h]
  rfl

theorem readBehindName_of_ne {name cs t : List Char} {c : Char} (h : skipGap cs = c :: t)
    (hc : c ≠ ',') :
    readBehindName name cs = if cs.head?.any isGap then readTail name (c :: t) else none := by
  rw [readBehindName, h]
  split
  · next heq => exact absurd (List.cons.inj heq).1 hc
  · rfl

theorem readModule_breaks {r : List Char} (hr : Breaks r) (clause : Clause) :
    readModule clause r = none := by
  obtain ⟨c, v, rfl, hgap, hc⟩ := hr
  exact readModule_eq_none_of_head (g := ['\n']) (by simp [isGap]) hgap (by simp_all)

/-- The line break and what follows it go on with no statement. -/
theorem readBehindName_breaks {r : List Char} (hr : Breaks r) (name : List Char) :
    readBehindName name r = none := by
  obtain ⟨c, v, rfl, hgap, hc⟩ := hr
  simp only [List.mem_cons, List.not_mem_nil, or_false, not_or] at hc
  have behind : skipGap ('\n' :: c :: v) = c :: v := by
    rw [skipGap_cons_of_gap (by decide), skipGap_cons_of_not hgap]
  have noNames : readNamed (c :: v) = none :=
    readNamed_eq_none_of_head (g := []) (by simp) hgap hc.2.1
  have noModule : readModule ⟨name, [], []⟩ (c :: v) = none :=
    readModule_eq_none_of_head (g := []) (by simp) hgap hc.2.2
  rw [readBehindName_of_ne behind hc.1, readTail, noNames, noModule, ite_self]

namespace Quoted

variable {w r : List Char}

/-- Characters that are no quotes end within the text. -/
theorem exists_span {p : Char → Bool} (h : Quoted w) (hp : ∀ c, isQuote c = true → p c = false)
    (r : List Char) :
    ∃ a b, w = a ++ b ∧ Quoted b ∧ w.takeWhile p = a ∧ w.dropWhile p = b ∧
      (w ++ r).takeWhile p = a ∧
      (w ++ r).dropWhile p = b ++ r := by
  obtain ⟨a, b, rfl, ha, stop, htake, hdrop⟩ := exists_front p w
  have hne : b ≠ [] := by
    rintro rfl
    obtain ⟨t, q, text, hq⟩ := h
    rw [List.append_nil] at text
    have inside := ha q (by simp [text])
    rw [hp q hq] at inside
    cases inside
  have stop' : ∀ c ∈ (b ++ r).head?, p c = false := by
    obtain ⟨d, t, rfl⟩ := List.exists_cons_of_ne_nil hne
    exact stop
  refine ⟨a, b, rfl, h.of_append hne, htake, hdrop, ?_, ?_⟩
  · rw [List.append_assoc, takeWhile_front ha stop']
  · rw [List.append_assoc, dropWhile_front ha stop']

theorem exists_skipGap (h : Quoted w) (r : List Char) :
    ∃ v, skipGap w = v ∧ skipGap (w ++ r) = v ++ r ∧ Quoted v := by
  obtain ⟨a, v, -, hv, -, hdrop, -, hdrop'⟩ := h.exists_span (p := isGap) (fun c hc => by
    simp only [isQuote, Bool.or_eq_true, decide_eq_true_eq] at hc
    rcases hc with rfl | rfl <;> decide) r
  exact ⟨v, hdrop, hdrop', hv⟩

/-- A word without quotes stands within the text or not at all. -/
theorem isPrefixOf?_cases (h : Quoted w) (literal : List Char)
    (hl : ∀ c ∈ literal, isQuote c = false) (r : List Char) :
    List.isPrefixOf? literal w = none ∧ List.isPrefixOf? literal (w ++ r) = none ∨
      ∃ v, List.isPrefixOf? literal w = some v ∧
        List.isPrefixOf? literal (w ++ r) = some (v ++ r) ∧ Quoted v := by
  cases hv : List.isPrefixOf? literal (w ++ r) with
  | none =>
      refine .inl ⟨?_, rfl⟩
      cases hw : List.isPrefixOf? literal w with
      | none => rfl
      | some v =>
          rw [← List.append_eq_of_isPrefixOf?_eq_some hw, List.append_assoc,
            isPrefixOf?_append] at hv
          cases hv
  | some z =>
      refine .inr ?_
      have text := (List.append_eq_of_isPrefixOf?_eq_some hv).symm
      rcases List.append_eq_append_iff.mp text with ⟨a, rfl, rfl⟩ | ⟨v, rfl, rfl⟩
      · obtain ⟨t, q, rfl, hq⟩ := h
        rw [hl q (by simp)] at hq
        cases hq
      · refine ⟨v, isPrefixOf?_append _ _, rfl, h.of_append ?_⟩
        rintro rfl
        obtain ⟨t, q, text, hq⟩ := h
        rw [List.append_nil] at text
        rw [hl q (by simp [text])] at hq
        cases hq

theorem readNamed_cases (h : Quoted w) (r : List Char) :
    readNamed w = none ∧ readNamed (w ++ r) = none ∨
      ∃ names v, readNamed w = some (names, v) ∧ readNamed (w ++ r) = some (names, v ++ r) ∧
        Quoted v := by
  obtain ⟨v, hv, hv', quoted⟩ := h.exists_skipGap r
  rw [readNamed, readNamed, hv, hv']
  rcases quoted.isPrefixOf?_cases ['\x7b'] (forall_mem_of_all (by decide)) r with
    ⟨no, no'⟩ | ⟨u, hu, hu', quoted⟩
  · rw [no, no']
    exact .inl ⟨rfl, rfl⟩
  · obtain ⟨a, b, -, hb, htake, hdrop, htake', hdrop'⟩ :=
      quoted.exists_span (p := isListed) (fun c hc => by
      simp only [isQuote, Bool.or_eq_true, decide_eq_true_eq] at hc
      rcases hc with rfl | rfl <;> decide) r
    simp only [hu, hu', Option.bind_eq_bind, Option.bind_some, htake, hdrop, htake', hdrop']
    rcases hb.isPrefixOf?_cases ['\x7d'] (forall_mem_of_all (by decide)) r with
      ⟨no, no'⟩ | ⟨z, hz, hz', quoted⟩
    · rw [no, no']
      exact .inl ⟨rfl, rfl⟩
    · simp only [hz, hz', Option.bind_some]
      split
      · exact .inl ⟨rfl, rfl⟩
      · exact .inr ⟨a, z, rfl, rfl, quoted⟩

variable (h : Quoted w) (hr : Breaks r)
include h hr

theorem readModule_append (clause : Clause) :
    readModule clause (w ++ r) = (readModule clause w).map (Prod.map id (· ++ r)) := by
  obtain ⟨v, hv, hv', quoted⟩ := h.exists_skipGap r
  rw [readModule, readModule, hv, hv']
  rcases quoted.isPrefixOf?_cases "from".toList (forall_mem_of_all (by decide)) r with
    ⟨no, no'⟩ | ⟨u, hu, hu', quoted⟩
  · rw [no, no']
    rfl
  · obtain ⟨t, ht, ht', quoted⟩ := quoted.exists_skipGap r
    obtain ⟨q, t, rfl⟩ := List.exists_cons_of_ne_nil quoted.ne_nil
    simp only [hu, hu', Option.bind_eq_bind, Option.bind_some, ht, ht', List.cons_append]
    rcases List.eq_nil_or_concat' t with rfl | ⟨t', c, rfl⟩
    · -- The quote that ends the text opens no module, since a line break follows it.
      obtain ⟨c, v, rfl, -⟩ := hr
      simp [isModule]
    · have inside : Quoted (t' ++ [c]) := Quoted.of_append (u := [q]) quoted (by simp)
      obtain ⟨a, b, -, hb, htake, hdrop, htake', hdrop'⟩ := inside.exists_span (p := isModule)
        (fun c hc => by simp [isModule, hc]) r
      obtain ⟨closing, rest, rfl⟩ := List.exists_cons_of_ne_nil hb.ne_nil
      simp only [htake, hdrop, htake', hdrop', List.cons_append]
      split <;> rfl

theorem readTail_append (default : List Char) :
    readTail default (w ++ r) = (readTail default w).map (Prod.map id (· ++ r)) := by
  rw [readTail, readTail]
  rcases h.readNamed_cases r with ⟨no, no'⟩ | ⟨names, v, hv, hv', quoted⟩
  · rw [no, no']
    exact h.readModule_append hr _
  · rw [hv, hv']
    exact quoted.readModule_append hr _

theorem readBehindName_append (name : List Char) :
    readBehindName name (w ++ r) = (readBehindName name w).map (Prod.map id (· ++ r)) := by
  obtain ⟨z, hz, hz', quoted⟩ := h.exists_skipGap r
  obtain ⟨d, t, rfl⟩ := List.exists_cons_of_ne_nil h.ne_nil
  obtain ⟨c, x, rfl⟩ := List.exists_cons_of_ne_nil quoted.ne_nil
  rcases eq_or_ne c ',' with rfl | hc
  · have inside : Quoted x := by
      refine quoted.of_append (u := [',']) ?_
      rintro rfl
      obtain ⟨y, q, text, hq⟩ := quoted
      have last : ',' = q := List.singleton_inj.mp
        (List.append_inj' (show [] ++ [','] = y ++ [q] from text) rfl).2
      subst last
      cases hq
    rw [readBehindName_of_comma hz, readBehindName_of_comma hz']
    exact inside.readTail_append hr name
  · rw [readBehindName_of_ne hz hc, readBehindName_of_ne (c := c) (t := x ++ r) hz' hc]
    rw [List.cons_append, List.head?_cons, List.head?_cons]
    split
    · exact quoted.readTail_append hr name
    · rfl

theorem readDefault_append :
    readDefault (w ++ r) = (readDefault w).map (Prod.map id (· ++ r)) := by
  obtain ⟨v, hv, hv', quoted⟩ := h.exists_skipGap r
  obtain ⟨name, t, rfl, hname, stop, htake, hdrop⟩ := exists_front isDefaultName v
  have first : (w ++ r).head? = w.head? := by
    obtain ⟨d, u, rfl⟩ := List.exists_cons_of_ne_nil h.ne_nil
    rfl
  have both : ∀ x, (∀ c ∈ (t ++ r).head?, isDefaultName c = false) →
    readBehindName name (t ++ r) = x →
      (readBehindName name t).map (Prod.map id (· ++ r)) = x →
      readDefault (w ++ r) = (readDefault w).map (Prod.map id (· ++ r)) := by
    intro x stop' hx hx'
    rw [List.append_assoc] at hv'
    rw [readDefault_eq, readDefault_eq, first, hv, hv', htake, hdrop,
      takeWhile_front hname stop',
      dropWhile_front hname stop', hx, ← hx']
    split <;> rfl
  rcases List.eq_nil_or_concat' t with rfl | ⟨t', last, rfl⟩
  · -- The name goes on to the end of the text, and the line break ends it.
    refine both none ?_ (readBehindName_breaks hr name) rfl
    obtain ⟨c, v, rfl, -⟩ := hr
    simp [isDefaultName, isGap]
  · have behind : Quoted (t' ++ [last]) := quoted.of_append (by simp)
    refine both _ ?_ (behind.readBehindName_append hr name) rfl
    obtain ⟨e, s, hs⟩ := List.exists_cons_of_ne_nil behind.ne_nil
    rw [hs] at stop ⊢
    exact stop

theorem readWildcard_append :
    readWildcard (w ++ r) = (readWildcard w).map (Prod.map id (· ++ r)) := by
  obtain ⟨v, hv, hv', quoted⟩ := h.exists_skipGap r
  rw [readWildcard, readWildcard, hv, hv']
  rcases quoted.isPrefixOf?_cases ['*'] (forall_mem_of_all (by decide)) r with
    ⟨no, no'⟩ | ⟨u, hu, hu', quoted⟩
  · rw [no, no']
    rfl
  obtain ⟨t, ht, ht', quoted⟩ := quoted.exists_skipGap r
  simp only [hu, hu', Option.bind_eq_bind, Option.bind_some, ht, ht']
  rcases quoted.isPrefixOf?_cases "as".toList (forall_mem_of_all (by decide)) r with
    ⟨no, no'⟩ | ⟨x, hx, hx', quoted⟩
  · rw [no, no']
    rfl
  have first : (x ++ r).head? = x.head? := by
    obtain ⟨d, u, rfl⟩ := List.exists_cons_of_ne_nil quoted.ne_nil
    rfl
  obtain ⟨y, hy, hy', quoted⟩ := quoted.exists_skipGap r
  obtain ⟨name, z, rfl, hname, stop, htake, hdrop⟩ := exists_front isWildcardName y
  rw [List.append_assoc] at hy'
  -- The name may end where the first text ends; it does not go on into the second one, which
  -- begins with a break.
  rcases List.eq_nil_or_concat' z with rfl | ⟨z', last, rfl⟩
  · have stop' : ∀ c ∈ r.head?, isWildcardName c = false := by
      obtain ⟨c, v, rfl, -⟩ := hr
      simp [isWildcardName, isGap]
    rw [List.nil_append] at hy'
    simp only [hx, hx', Option.bind_some, first, hy, hy', htake, hdrop,
      takeWhile_front hname stop',
      dropWhile_front hname stop', List.head?_nil, Option.any_none, Bool.and_false,
      readModule_breaks hr]
    split <;> rfl
  · have behind : Quoted (z' ++ [last]) := quoted.of_append (by simp)
    obtain ⟨e, s, hs⟩ := List.exists_cons_of_ne_nil behind.ne_nil
    have stop' : ∀ c ∈ (z' ++ [last] ++ r).head?, isWildcardName c = false := by
      rw [hs] at stop ⊢
      exact stop
    have start : (z' ++ [last] ++ r).head? = (z' ++ [last]).head? := by rw [hs]; rfl
    simp only [hx, hx', Option.bind_some, first, hy, hy', htake, hdrop,
      takeWhile_front hname stop',
      dropWhile_front hname stop', start, behind.readModule_append hr]
    split <;> rfl

/-- **A line break behind a quote ends what is read**: with it and what follows it, the same is
read as without. -/
theorem recognise_append : recognise (w ++ r) = (recognise w).map (Prod.map id (· ++ r)) := by
  rcases h.isPrefixOf?_cases "import".toList (forall_mem_of_all (by decide)) r with
    ⟨no, no'⟩ | ⟨v, hv, hv', quoted⟩
  · rw [recognise, recognise, no, no']
    rfl
  · rw [← List.append_eq_of_isPrefixOf?_eq_some hv, List.append_assoc, recognise_import,
      recognise_import, quoted.readDefault_append hr,
      quoted.readTail_append hr, quoted.readWildcard_append hr]
    cases readDefault v with
    | some found => rfl
    | none =>
        cases readTail [] v with
        | some found => rfl
        | none => rfl

end Quoted

end Attestation.ImportBlock
