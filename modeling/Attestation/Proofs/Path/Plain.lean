import Attestation.Path.Relative
import Attestation.Proofs.Text.Pieces

/-!
# Plain paths

A plain path is relative and made of names of letters, digits, hyphens, underscores and inner
dots.  The way from one such place to another only holds these characters, because what lies
above both of them is no part of it (`isSpecifier_specifier`).

## Design notes

The options of a verifier and the names of its files are plain, so everything that is derived
from them is made of a few characters.  This is what keeps specifiers apart from quotes,
brackets and blanks, and it is shown for the steps of a way one by one (`mem_steps`): a step is
either a parent step or a name of the target.
-/

namespace Attestation.Path

open Text

/-- The characters of a plain name. -/
def isNameChar (c : Char) : Bool := c.isAlphanum || ['-', '_', '.'].contains c

/-- A plain name of a file or directory. -/
structure IsPlainName (name : List Char) : Prop where
  nonempty : name ≠ []
  chars : ∀ c ∈ name, isNameChar c = true
  head : name.head? ≠ some '.'

/-- A relative path made of plain names.  It is its own normal form, and can stand in a
specifier as it is. -/
def IsPlain (p : Path) : Prop := ∀ name ∈ List.splitOn '/' p.text.toList, IsPlainName name

/-- The characters of the specifier of a plain file. -/
def isSpecifierChar (c : Char) : Bool := c.isAlphanum || ['-', '_', '.', '/'].contains c

/-- The specifier of a plain file. -/
structure IsSpecifier (s : String) : Prop where
  nonempty : s.toList ≠ []
  chars : ∀ c ∈ s.toList, isSpecifierChar c = true

theorem isSpecifierChar_of_isNameChar {c : Char} (h : isNameChar c = true) :
    isSpecifierChar c = true := by
  simp only [isNameChar, isSpecifierChar, List.contains_cons, List.contains_nil, Bool.or_false,
    Bool.or_eq_true, beq_iff_eq] at h ⊢
  tauto

theorem IsSpecifier.ne_of_mem {s : String} (h : IsSpecifier s) {c d : Char} (hc : c ∈ s.toList)
    (hd : isSpecifierChar d = false) : c ≠ d := by
  rintro rfl
  rw [h.chars c hc] at hd
  cases hd

theorem IsSpecifier.not_blank {s : String} (h : IsSpecifier s) {c : Char} (hc : c ∈ s.toList) :
    isBlank c = false := by
  cases hb : isBlank c with
  | false => rfl
  | true =>
      have plain := h.chars c hc
      have ascii : ∀ d ∈ blanks, isSpecifierChar d = false := forall_mem_of_all (by decide)
      rw [ascii c (by simpa [isBlank] using hb)] at plain
      cases plain

namespace IsPlainName

variable {name : List Char} (h : IsPlainName name)
include h

theorem not_slash : '/' ∉ name := fun hc => absurd (h.chars _ hc) (by decide)

theorem ne_up : name ≠ ['.', '.'] := by
  rintro rfl
  exact h.head rfl

theorem not_idle : isIdle name = false := by
  have dot : name ≠ ['.'] := by
    rintro rfl
    exact h.head rfl
  simp [isIdle, h.nonempty, dot]

theorem ofPiece?_eq : Component.ofPiece? name = some (.item (String.ofList name)) := by
  simp [Component.ofPiece?, h.not_idle, h.ne_up]

end IsPlainName

/-! ## Names from the root -/

/-- The components of a path behind its start. -/
def inner (p : Path) : List Component :=
  (List.splitOn '/' p.text.toList).filterMap Component.ofPiece?

theorem inner_of_isPlain {p : Path} (h : IsPlain p) :
    p.inner = (List.splitOn '/' p.text.toList).map fun name => .item (String.ofList name) := by
  rw [inner]
  have all : ∀ name ∈ List.splitOn '/' p.text.toList, IsPlainName name := h
  generalize List.splitOn '/' p.text.toList = pieces at all ⊢
  induction pieces with
  | nil => rfl
  | cons name more ih =>
      rw [List.filterMap_cons_some (all name (by simp)).ofPiece?_eq,
        ih fun x hx => all x (List.mem_cons_of_mem _ hx)]
      rfl

theorem isAbsolute_of_isPlain {p : Path} (h : IsPlain p) : p.isAbsolute = false := by
  rw [isAbsolute, decide_eq_false_iff_not]
  intro hc
  cases hp : p.text.toList with
  | nil => simp [hp] at hc
  | cons c r =>
      have slash : c = '/' := by simpa [hp] using hc
      have empty := h [] (by rw [hp, slash]; simp [splitOn_cons_self])
      exact empty.nonempty rfl

theorem follow_items (base : List String) (names : List (List Char)) :
    (names.map fun name => Component.item (String.ofList name)).foldl follow base
      = base ++ names.map String.ofList := by
  induction names generalizing base with
  | nil => simp
  | cons name more ih => simp [follow, ih]

/-- What the working directory adds to the names of a relative path does not depend on the
path. -/
theorem exists_base (here : Path) :
    ∃ base, ∀ p : Path, p.isAbsolute = false → names here p = p.inner.foldl follow base := by
  by_cases empty : here.text.isEmpty = true
  · refine ⟨[], fun p hp => ?_⟩
    have joined : here.join p = p := by
      have : here.text = "" := by simpa using empty
      simp [join, hp, this]
    rw [names, joined, components]
    simp only [hp, Bool.false_eq_true, if_false]
    -- A dot in front leads nowhere.
    split
    · rfl
    · rfl
  · -- The text of the working directory without a separator at its end.
    obtain ⟨dir, hdir⟩ : ∃ dir : List Char, ∀ p : Path, p.isAbsolute = false →
        (here.join p).text.toList = dir ++ '/' :: p.text.toList := by
      by_cases last : here.text.toList.getLast? = some '/'
      · obtain ⟨dir, hdir⟩ := List.getLast?_eq_some_iff.mp last
        refine ⟨dir, fun p hp => ?_⟩
        simp [join, hp, hdir]
      · refine ⟨here.text.toList, fun p hp => ?_⟩
        have text : here.join p = ⟨here.text ++ "/" ++ p.text⟩ := by
          simp [join, hp, last, empty]
        simp [text]
    -- Where a path starts is a matter of the working directory.
    have start : ∀ p : Path, p.isAbsolute = false →
        (here.join p).isAbsolute = decide ((dir ++ ['/']).head? = some '/') ∧
        startsHere (here.join p).text.toList
          = decide ((List.splitOn '/' dir).head? = some ['.']) := by
      intro p hp
      constructor
      · rw [isAbsolute, hdir p hp]
        cases dir <;> simp
      · rw [startsHere, hdir p hp, List.splitOn_append_cons_self]
        cases hs : List.splitOn '/' dir with
        | nil => exact absurd hs (List.splitOn_ne_nil _ _)
        | cons piece more => rfl
    refine ⟨((if decide ((dir ++ ['/']).head? = some '/') then [Component.root]
      else if decide ((List.splitOn '/' dir).head? = some ['.']) then [Component.here] else [])
        ++ (List.splitOn '/' dir).filterMap Component.ofPiece?).foldl follow [], fun p hp =>
        ?_⟩
    obtain ⟨absolute, here_⟩ := start p hp
    rw [names, components, absolute, here_, hdir p hp, List.splitOn_append_cons_self,
      List.filterMap_append,
      ← List.foldl_append]
    simp only [inner]
    split
    · simp
    · split <;> simp

/-! ## The entries and the parent of a plain path -/

theorem splitOn_entry {dir : Path} (hd : IsPlain dir) {name : String}
    (hn : IsPlainName name.toList) :
    List.splitOn '/' (dir.entry name).text.toList
      = List.splitOn '/' dir.text.toList ++ [name.toList] := by
  have relative : (⟨name⟩ : Path).isAbsolute = false := by
    rw [isAbsolute, decide_eq_false_iff_not]
    intro hc
    exact hn.not_slash (List.mem_of_mem_head? hc)
  have full : dir.text.isEmpty = false := by
    cases he : dir.text.isEmpty with
    | false => rfl
    | true =>
        have empty : dir.text = "" := by simpa using he
        exact absurd rfl (hd [] (by simp [empty])).nonempty
  have last : ¬ dir.text.toList.getLast? = some '/' := by
    intro hl
    obtain ⟨front, hfront⟩ := List.getLast?_eq_some_iff.mp hl
    have empty := hd [] (by rw [hfront, List.splitOn_append_cons_self]; simp)
    exact empty.nonempty rfl
  have text : dir.entry name = ⟨dir.text ++ "/" ++ name⟩ := by
    simp [entry, join, relative, full, last]
  have chars : (dir.entry name).text.toList = dir.text.toList ++ '/' :: name.toList := by
    simp [text]
  rw [chars, List.splitOn_append_cons_self, List.splitOn_eq_singleton hn.not_slash]

theorem IsPlain.entry {dir : Path} (hd : IsPlain dir) {name : String}
    (hn : IsPlainName name.toList) :
    IsPlain (dir.entry name) := by
  intro piece hp
  rw [splitOn_entry hd hn, List.mem_append, List.mem_singleton] at hp
  rcases hp with hp | rfl
  · exact hd piece hp
  · exact hn

theorem parent_of_isPlain {p : Path} (h : IsPlain p) :
    p.parent = some ⟨String.ofList
      (List.intercalate ['/'] (List.splitOn '/' p.text.toList).dropLast)⟩ := by
  have lead : p.lead = ([], (List.splitOn '/' p.text.toList).reverse) := by
    rw [Path.lead]
    split
    · next rest heq =>
        have empty := h [] (by rw [heq]; simp [splitOn_cons_self])
        exact absurd rfl empty.nonempty
    · rw [if_neg ?_]
      intro hs
      simp only [startsHere, decide_eq_true_eq] at hs
      have dot := h ['.'] (List.mem_of_mem_head? hs)
      exact dot.head rfl
  have kept : ∀ pieces : List (List Char), (∀ piece ∈ pieces, IsPlainName piece) →
      pieces.dropWhile isIdle = pieces := by
    intro pieces hp
    cases pieces with
    | nil => rfl
    | cons piece more => simp [(hp piece (by simp)).not_idle]
  have plain : ∀ piece ∈ (List.splitOn '/' p.text.toList).reverse, IsPlainName piece :=
    fun piece hp => h piece (List.mem_reverse.mp hp)
  obtain ⟨last, more, hsplit⟩ := List.exists_cons_of_ne_nil
    (l := (List.splitOn '/' p.text.toList).reverse) (by simp [List.splitOn_ne_nil])
  have front : (List.splitOn '/' p.text.toList).dropLast = more.reverse := by
    rw [← List.reverse_reverse (List.splitOn '/' p.text.toList), hsplit, List.reverse_cons,
      List.dropLast_concat]
  rw [parent, lead]
  simp only
  rw [kept _ plain, hsplit]
  simp only
  rw [kept more fun piece hp =>
    plain piece (by rw [hsplit]; exact List.mem_cons_of_mem _ hp), front]
  rfl

theorem IsPlain.parent {p : Path} (h : IsPlain p) :
    ∃ dir, p.parent = some dir ∧ (dir.text.isEmpty = true ∨ IsPlain dir) := by
  refine ⟨_, parent_of_isPlain h, ?_⟩
  by_cases hne : (List.splitOn '/' p.text.toList).dropLast = []
  · rw [hne]
    exact .inl (by decide)
  · refine .inr ?_
    have plain : ∀ piece ∈ (List.splitOn '/' p.text.toList).dropLast, IsPlainName piece :=
      fun piece hp => h piece (List.mem_of_mem_dropLast hp)
    intro piece hp
    rw [String.toList_ofList, List.splitOn_intercalate _ (fun x hx =>
      (plain x hx).not_slash) hne] at hp
    exact plain piece hp

/-! ## The way from one place to another -/

theorem dropCommon_append {α : Type} [DecidableEq α] (front a b : List α) :
    dropCommon (front ++ a) (front ++ b) = dropCommon a b := by
  induction front with
  | nil => rfl
  | cons x front ih => simp [dropCommon, ih]

theorem dropCommon_suffix {α : Type} [DecidableEq α] (a b : List α) :
    (dropCommon a b).2 <:+ b := by
  fun_induction dropCommon a b with
  | case1 a as bs ih => exact ih.trans (List.suffix_cons _ _)
  | case2 => exact List.suffix_rfl
  | case3 => exact List.suffix_rfl

/-- The path of the directory itself, or a plain one. -/
def IsPlainDir (p : Path) : Prop := p = ⟨"."⟩ ∨ IsPlain p

theorem mem_steps {here source target : Path} (hs : IsPlainDir source) (ht : IsPlain target)
    {c : Component} (hc : c ∈ steps here source target) :
    c = .up ∨ ∃ name ∈ List.splitOn '/' target.text.toList, c
      = .item (String.ofList name) := by
  obtain ⟨base, hbase⟩ := exists_base here
  have targetText : target.text.isEmpty = false := by
    cases he : target.text.isEmpty with
    | false => rfl
    | true =>
        have : target.text = "" := by simpa using he
        have empty := ht [] (by simp [this])
        exact absurd rfl empty.nonempty
  have sourceText : source.text.isEmpty = false := by
    rcases hs with rfl | hs
    · rfl
    · cases he : source.text.isEmpty with
      | false => rfl
      | true =>
          have : source.text = "" := by simpa using he
          have empty := hs [] (by simp [this])
          exact absurd rfl empty.nonempty
  -- Both paths start from the same base, so what they have in common is at least the base.
  have targetNames : names here target
      = base ++ (List.splitOn '/' target.text.toList).map String.ofList := by
    rw [hbase target (isAbsolute_of_isPlain ht), inner_of_isPlain ht, follow_items]
  obtain ⟨own, sourceNames⟩ : ∃ own, names here source = base ++ own := by
    rcases hs with rfl | hs
    · refine ⟨[], ?_⟩
      rw [hbase _ (by decide), List.append_nil]
      rfl
    · exact ⟨_, by rw [hbase source (isAbsolute_of_isPlain hs),
        inner_of_isPlain hs, follow_items]⟩
  simp only [steps, normal, targetText, sourceText, targetNames, sourceNames,
    Bool.false_eq_true, if_false,
    List.map_append] at hc
  rw [← List.cons_append, ← List.cons_append, dropCommon_append] at hc
  rcases List.mem_append.mp hc with hc | hc
  · obtain ⟨-, -, rfl⟩ := List.mem_map.mp hc
    exact .inl rfl
  · have member := (dropCommon_suffix _ _).subset hc
    rw [List.map_map, List.mem_map] at member
    obtain ⟨name, hname, rfl⟩ := member
    exact .inr ⟨name, hname, rfl⟩

/-- A specifier of an import starts with a dot. -/
theorem head?_specifier (here source target : Path) :
    (specifier here source target).toList.head? = some '.' := by
  unfold specifier dotted
  split
  · assumption
  · simp

/-- **The way to a plain place** only holds plain characters, wherever the working directory
is. -/
theorem isSpecifier_specifier {here source target : Path} (hs : IsPlainDir source)
    (ht : IsPlain target) :
    IsSpecifier (specifier here source target) := by
  have way : ∀ c ∈ (relative here source target).toList, isSpecifierChar c = true := by
    intro c hc
    rw [relative] at hc
    split at hc
    · exact (forall_mem_of_all (by decide) : ∀ c ∈ ".".toList, isSpecifierChar c = true) c hc
    · rcases mem_join hc with hc | ⟨s, hs', hc⟩
      · exact (forall_mem_of_all (by decide) : ∀ c ∈ "/".toList, isSpecifierChar c = true) c hc
      · obtain ⟨component, hcomponent, rfl⟩ := List.mem_map.mp hs'
        rcases mem_steps hs ht hcomponent with rfl | ⟨name, hname, rfl⟩
        · exact (forall_mem_of_all (by decide) : ∀ c ∈ "..".toList, isSpecifierChar c = true) c
            hc
        · rw [Component.text, String.toList_ofList] at hc
          exact isSpecifierChar_of_isNameChar ((ht name hname).chars c hc)
  rw [specifier, dotted]
  split
  · next hdot =>
      refine ⟨?_, way⟩
      intro hnil
      simp [hnil] at hdot
  · refine ⟨by simp, ?_⟩
    intro c hc
    rw [String.toList_append, List.mem_append] at hc
    rcases hc with hc | hc
    · exact (forall_mem_of_all (by decide) : ∀ c ∈ "./".toList, isSpecifierChar c = true) c hc
    · exact way c hc

end Attestation.Path
