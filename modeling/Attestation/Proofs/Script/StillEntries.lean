import Attestation.Proofs.Script.ImportScan
import Attestation.Proofs.Text.Pieces

/-!
# Entries inside of which no statement starts

The entries of an array come from a hand-written text or are the names of classes.  Either way
the scan passes over them without finding a statement.  A name may hold the word `import`, even
with `from` behind it, but no quote follows then.

* `IsHead`: what a statement starts with, as far as it takes to tell.
* `Peaceful`: a text without heads, so that no statement starts in it (`Peaceful.silent`).
* `Peaceful.join`: a list of peaceful entries is peaceful.

## Design notes

A scan for statements does not know of arrays, so a class with an unlucky name could be taken
for an import.  The names of classes only have letters and digits, and this is just enough: no
quote can follow in them.  Entries of a hand-written array are asked to be `Still`, which is
the weakest condition for a single entry.
-/

namespace Attestation

open Text

namespace ImportBlock

/-! ## Heads of statements -/

/-- The head of a statement: `import` and the character that starts its clause, or `import` and
`from` up to the quote. -/
inductive IsHead : List Char → Prop where
  | clause {c : Char} (starts : startsClause c = true) (hc : c ≠ 'f') :
      IsHead ("import".toList ++ [c])
  | module {k : List Char} {q : Char} (hk : ∀ c ∈ k, isGap c = true) (hq : isQuote q = true) :
      IsHead ("importfrom".toList ++ k ++ [q])

/-- A character that stands in no head. -/
def breaks (c : Char) : Bool := c ∉ "importfrom".toList && !startsClause c && !isQuote c

theorem recognise_import_f (r : List Char) :
    recognise ("import".toList ++ 'f' :: r) = readModule ⟨[], [], []⟩ ('f' :: r) := by
  have gap : isGap 'f' = false := by decide
  have noDefault : readDefault ('f' :: r) = none := by
    simp [readDefault, gap]
  have noNames : readNamed ('f' :: r) = none :=
    readNamed_eq_none_of_head (g := []) (by simp) gap (by decide)
  have noWildcard : readWildcard ('f' :: r) = none := by
    rw [readWildcard, skipGap_cons_of_not gap, isPrefixOf?_cons_of_ne (by decide)]
    rfl
  rw [recognise, isPrefixOf?_append]
  simp only [Option.bind_eq_bind, Option.bind_some, noDefault, readTail, noNames, noWildcard]
  cases readModule ⟨[], [], []⟩ ('f' :: r) <;> rfl

theorem exists_head {cs rest : List Char} {i : Import} (h : recognise cs = some (i, rest)) :
    ∃ w, IsHead w ∧ w <+: cs := by
  obtain ⟨source, _, _, heq, -, -, -, -, d, r, rfl, hd⟩ := eq_append_of_recognise h
  have text : cs = "import".toList ++ d :: (r ++ rest) := by rw [heq]; simp
  by_cases hf : d = 'f'
  · subst hf
    rw [text, recognise_import_f] at h
    obtain ⟨g, k, q, m, q', hfrom, hg, hk, hq, -⟩ := eq_append_of_readModule h
    -- The word `from` follows without a gap.
    obtain rfl : g = [] := by
      cases g with
      | nil => rfl
      | cons x g =>
          have hx : 'f' = x := by simpa using (List.cons.inj hfrom).1
          exact absurd (hg x (by simp)) (by rw [← hx]; decide)
    refine ⟨_, .module hk hq, m ++ q' :: rest, ?_⟩
    rw [text, hfrom]
    simp
  · exact ⟨_, .clause hd hf, r ++ rest, by rw [text]; simp⟩

namespace IsHead

variable {w : List Char} (h : IsHead w)
include h

theorem exists_cons : ∃ r, w = 'i' :: r := by
  cases h with
  | clause => exact ⟨_, rfl⟩
  | module => exact ⟨_, rfl⟩

theorem not_mem {c : Char} (hc : breaks c = true) : c ∉ w := by
  simp only [breaks, Bool.and_eq_true, Bool.not_eq_true', decide_eq_true_eq] at hc
  obtain ⟨⟨letter, starts⟩, quote⟩ := hc
  have part : c ∉ "import".toList := fun hm => letter (List.mem_append_left "from".toList hm)
  cases h with
  | clause hs =>
      rw [List.mem_append, List.mem_singleton, not_or]
      refine ⟨part, ?_⟩
      rintro rfl
      rw [starts] at hs
      cases hs
  | module hk hq =>
      rw [List.mem_append, List.mem_append, List.mem_singleton, not_or, not_or]
      refine ⟨⟨letter, fun hm => ?_⟩, ?_⟩
      · simp [startsClause, hk c hm] at starts
      · rintro rfl
        rw [quote] at hq
        cases hq

theorem exists_not_alphanum : ∃ c ∈ w, c.isAlphanum = false := by
  cases h with
  | @clause c hs hf =>
      refine ⟨c, by simp, ?_⟩
      simp only [startsClause, isGap, Bool.or_eq_true, decide_eq_true_eq] at hs
      rcases hs with ((((rfl | rfl) | rfl) | rfl) | rfl) | rfl
      all_goals first
        | exact absurd rfl hf
        | decide
  | @module k q _ hq =>
      refine ⟨q, by simp, ?_⟩
      simp only [isQuote, Bool.or_eq_true, decide_eq_true_eq] at hq
      rcases hq with rfl | rfl <;> decide

end IsHead

/-! ## Texts without heads -/

/-- A text in which no head of a statement stands. -/
def Peaceful (u : List Char) : Prop := ∀ w, IsHead w → ¬ w <:+: u

theorem Calm.peaceful {u : List Char} (h : Calm u) : Peaceful u := by
  intro w hw part
  cases hw with
  | clause hs => exact h _ hs part
  | @module k q =>
      exact h 'f' (by decide) (List.IsInfix.trans ⟨[], "rom".toList ++ k ++ [q], by simp⟩ part)

theorem peaceful_of_alphanum {u : List Char} (h : ∀ c ∈ u, c.isAlphanum = true) :
    Peaceful u := by
  intro w hw part
  obtain ⟨c, hc, other⟩ := hw.exists_not_alphanum
  rw [h c (part.subset hc)] at other
  cases other

namespace Peaceful

variable {u v : List Char} {c : Char}

theorem mono (h : Peaceful v) (sub : u <:+: v) : Peaceful u :=
  fun w hw part => h w hw (part.trans sub)

theorem append_cons_iff (hc : breaks c = true) : Peaceful (u ++ c :: v) ↔
    Peaceful u ∧ Peaceful v := by
  have split : ∀ {w}, IsHead w → (w <:+: u ++ c :: v ↔ w <:+: u ∨ w <:+: v) := fun hw =>
    infix_append_cons_iff (hw.not_mem hc)
  constructor
  · intro h
    exact ⟨fun w hw part => h w hw ((split hw).mpr (.inl part)),
      fun w hw part => h w hw ((split hw).mpr (.inr part))⟩
  · rintro ⟨hu, hv⟩ w hw part
    exact ((split hw).mp part).elim (hu w hw) (hv w hw)

theorem cons (hc : c ≠ 'i') (h : Peaceful v) : Peaceful (c :: v) := by
  intro w hw part
  obtain ⟨r, rfl⟩ := hw.exists_cons
  exact h _ hw ((infix_append_left_iff (u := [c]) (by simpa using Ne.symm hc)).mp part)

/-- No statement starts in a peaceful text, if what follows breaks off a head. -/
theorem silent (h : Peaceful u) (seam : ∀ c ∈ v.head?, breaks c = true) : Silent u v := by
  intro s hne hs
  cases hr : recognise (s ++ v) with
  | none => rfl
  | some found =>
      obtain ⟨w, hw, t, ht⟩ := exists_head hr
      rcases List.append_eq_append_iff.mp ht with ⟨a, ha, -⟩ | ⟨a, ha, hv⟩
      · exact absurd (List.IsInfix.trans ⟨[], a, by rw [ha]; simp⟩ hs.isInfix) (h w hw)
      · cases a with
        | nil => exact absurd (by rw [ha, List.append_nil]; exact hs.isInfix) (h w hw)
        | cons c a => exact absurd (by simp [ha]) (hw.not_mem (seam c (by simp [hv])))

/-- A list of peaceful entries is peaceful. -/
theorem join {es : List String} (h : ∀ e ∈ es, Peaceful e.toList) :
    Peaceful (join ", " es).toList := by
  rw [toList_join]
  induction es with
  | nil => exact peaceful_of_alphanum (by simp)
  | cons e more ih =>
      cases more with
      | nil => simpa using h e (by simp)
      | cons e' more =>
          have rest := ih fun x hx => h x (List.mem_cons_of_mem _ hx)
          rw [List.map_cons, List.map_cons, List.intercalate_cons_cons]
          have text : e.toList ++ ", ".toList
              ++ List.intercalate ", ".toList (e'.toList :: more.map String.toList)
              = e.toList ++ ',' :: ' ' :: List.intercalate ", ".toList
                ((e' :: more).map String.toList) := by
            simp
          rw [text, append_cons_iff (by decide)]
          exact ⟨h e (by simp), cons (by decide) rest⟩

end Peaceful

/-! ## Entries -/

/-- Behind the entry comes a comma or the end of the array, and no statement starts inside of
it.  The entries of an array are moved and written again, each behind one of these
characters. -/
def Still (e : String) : Prop := ∀ c v, c = ',' ∨ c = ']' → Silent e.toList (c :: v)

theorem Peaceful.still {e : String} (h : Peaceful e.toList) : Still e := by
  intro c v hc
  refine h.silent ?_
  simp only [List.head?_cons, Option.mem_some_iff, forall_eq']
  rcases hc with rfl | rfl <;> decide

theorem still_of_calm {e : String} (h : Calm e.toList) : Still e := h.peaceful.still

/-- In a word of letters and digits `import` can only be followed by `from`, and then no quote
comes. -/
theorem still_of_alphanum {e : String} (h : ∀ c ∈ e.toList, c.isAlphanum = true) : Still e :=
  (peaceful_of_alphanum h).still

/-- In an array of such entries no statement starts. -/
theorem silent_join {es : List String} (h : ∀ e ∈ es, Still e) (v : List Char) :
    Silent (join ", " es).toList (']' :: v) := by
  rw [toList_join]
  induction es with
  | nil => exact silent_nil _
  | cons e more ih =>
      cases more with
      | nil => simpa using h e (by simp) ']' v (.inr rfl)
      | cons e' more =>
          rw [List.map_cons, List.map_cons, List.intercalate_cons_cons, silent_append,
            silent_append]
          exact ⟨⟨h e (by simp) ',' _ (.inl rfl), silent_of_not_mem (by decide) _⟩,
            ih fun x hx => h x (List.mem_cons_of_mem _ hx)⟩

end ImportBlock

end Attestation
