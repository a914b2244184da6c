import Attestation.Proofs.Interface.Tags

/-!
# Documented parameters

A documentation of parameters is free text, and then documentations of parameters among entries
of other tags.  Its parameters are read in their order and with their comments, unless the tag
of another entry is the word `param` with a character behind it that belongs to no word
(`ParamDocumentation.params_text`).

## Main definitions

* `Doc.Param`, `Doc.Item`, `ParamDocumentation`: documentations of parameters by their parts.
* `Doc.Item.IsMistaken`: another tag that is read as a parameter.
* `ParamDocumentation.Documents`: the members of a struct are documented, each of them once.

## Design notes

The reader asks for a word boundary behind `param`, so `@parameter` is no parameter while
`@param-note` is one.  `IsMistaken` names exactly these tags.  The consequences for the struct
are part of the statement: which issues it has and which comments its members get follows from
the parameters that are read.
-/

namespace Attestation

open Text

/-! ## Documentations by their parts -/

namespace Doc

/-- The documentation of a parameter: blanks behind the tag, a name, blanks and a comment.  The
second blanks may be missing where there is no comment.  As with entries, the parts bring the
proofs that they can be told apart. -/
structure Param where
  gap : String
  name : String
  space : String
  comment : String
  gap_blank : IsGap gap
  gap_nonempty : gap ≠ ""
  name_solid : IsSolid name
  name_nonempty : name ≠ ""
  space_blank : IsGap space
  apart : comment ≠ "" → space ≠ ""
  comment_plain : '@' ∉ comment.toList

namespace Param

/-- The name of the parameter and its comment without outer blanks. -/
def pair (p : Param) : String × String := (p.name, trimString p.comment)

/-- The entry of the parameter. -/
def entry (p : Param) : Entry where
  tag := "param"
  gap := p.gap
  value := p.name ++ p.space ++ p.comment
  tag_solid := by decide
  gap_blank := p.gap_blank
  apart _ := p.gap_nonempty
  value_plain := by
    have name : '@' ∉ p.name.toList := fun mem => (p.name_solid _ mem).2 rfl
    have space : '@' ∉ p.space.toList := fun mem => absurd (p.space_blank _ mem) (by decide)
    simp [name, space, p.comment_plain]

end Param

/-- The documentation of a parameter or an entry of another tag. -/
inductive Item where
  | param (p : Param)
  | other (e : Entry) (tag_ne : e.tag ≠ "param")

namespace Item

/-- The entry of an item. -/
def entry : Item → Entry
  | .param p => p.entry
  | .other e _ => e

/-- The parameter that an item documents. -/
def pair? : Item → Option (String × String)
  | .param p => some p.pair
  | .other _ _ => none

/-- The tag of another entry is the word `param` with a character behind it that belongs to no
word.  There the word ends, and what follows is read as a name. -/
def IsMistaken : Item → Prop
  | .param _ => False
  | .other e _ => ∃ c more, e.tag.toList = "param".toList ++ c :: more ∧ isWord c = false

end Item

end Doc

/-- A documentation of parameters: free text and then items. -/
structure ParamDocumentation where
  lead : String
  items : List Doc.Item
  lead_plain : '@' ∉ lead.toList

namespace ParamDocumentation

/-- The documentation of the entries. -/
def documentation (d : ParamDocumentation) : Documentation where
  lead := d.lead
  entries := d.items.map Doc.Item.entry
  lead_plain := d.lead_plain

/-- The text of a documentation of parameters. -/
def text (d : ParamDocumentation) : String := d.documentation.text

/-- The documented parameters with their comments, in their order. -/
def pairs (d : ParamDocumentation) : List (String × String) := d.items.filterMap Doc.Item.pair?

/-- The members of a struct are documented, each of them once. -/
structure Documents (d : ParamDocumentation) (s : StructDefinition) : Prop where
  once : (d.pairs.map (·.1)).Nodup
  members : ∀ name, name ∈ d.pairs.map (·.1) ↔ name ∈ s.memberNames

end ParamDocumentation

/-! ## Reading a parameter -/

namespace Doc

theorem readParam_word {body name : List Char} (trimmed : trim body = name)
    (nonempty : name ≠ [])
    (solid : ∀ c ∈ name, isBlank c = false) :
    readParam body = .ok (String.ofList name, "") := by
  unfold readParam
  simp only [trimmed, splitAtBlank_of_solid solid]
  exact if_neg (by simpa using nonempty)

theorem readParam_words {body name rest : List Char} {b : Char}
    (trimmed : trim body = name ++ b :: rest)
    (solid : ∀ c ∈ name, isBlank c = false) (hb : isBlank b = true) :
    readParam body = .ok (String.ofList name, String.ofList (trim rest)) := by
  unfold readParam
  simp only [trimmed, splitAtBlank_append solid hb]
  exact if_neg (by simp)

/-- **A documented parameter** is read as its name and its comment, where the comment may have
several lines. -/
theorem readParam_param (p : Param) :
    readParam (p.gap.toList ++ (p.name ++ p.space ++ p.comment).toList) = .ok p.pair := by
  have solid : ∀ c ∈ p.name.toList, isBlank c = false := fun c hc => (p.name_solid c hc).1
  have nonempty : p.name.toList ≠ [] := String.toList_eq_nil_iff.not.mpr p.name_nonempty
  obtain ⟨blanks, hcomment, hblanks, ends⟩ := exists_trimEnd p.comment.toList
  rw [String.toList_append, String.toList_append]
  rcases ends with empty | ⟨front, last, hlast, notBlank⟩
  · -- Only blanks stand behind the name.
    rw [empty, List.nil_append] at hcomment
    have tail : ∀ c ∈ p.space.toList ++ p.comment.toList, isBlank c = true := by
      intro c hc
      exact (List.mem_append.mp hc).elim (p.space_blank c) fun hc => hblanks c (hcomment ▸ hc)
    have trimmed : trim (p.gap.toList ++ (p.name.toList ++ p.space.toList ++ p.comment.toList))
        = p.name.toList := by
      rw [List.append_assoc, ← List.append_assoc, trim_pad _ p.gap_blank tail,
        trimmed_of_no_blank solid]
    have noComment : trimString p.comment = "" := by
      rw [trimString, trim_all_blank (hcomment ▸ hblanks)]
    rw [readParam_word trimmed nonempty solid, String.ofList_toList, Param.pair, noComment]
  · rw [hlast] at hcomment
    -- A comment needs a blank in front of it, or it would belong to the name.
    obtain ⟨b, space, hspace⟩ : ∃ b space, p.space.toList = b :: space := by
      refine List.exists_cons_of_ne_nil (String.toList_eq_nil_iff.not.mpr (p.apart fun none_ =>
        ?_))
      simp [none_] at hcomment
    obtain ⟨first, more, hname⟩ := List.exists_cons_of_ne_nil nonempty
    have blank : ∀ c ∈ b :: space, isBlank c = true := hspace ▸ p.space_blank
    have trimmed : trim (p.gap.toList ++ (p.name.toList ++ p.space.toList ++ p.comment.toList))
        = p.name.toList ++ b :: (space ++ (front ++ [last])) := by
      have text : p.gap.toList ++ (p.name.toList ++ p.space.toList ++ p.comment.toList)
          = p.gap.toList ++ (p.name.toList ++ b :: (space ++ (front ++ [last])))
            ++ blanks := by
        rw [hcomment, hspace]
        simp
      rw [text, trim_pad _ p.gap_blank hblanks]
      exact trimmed_of_ends (solid first (hname ▸ List.mem_cons_self)) notBlank
        (by rw [hname, List.cons_append])
        (t := p.name.toList ++ b :: (space ++ front)) (by simp)
    have comment : trim (space ++ (front ++ [last])) = trim p.comment.toList := by
      have behind := trim_pad (front ++ [last]) (p := []) (by simp) hblanks
      have before := trim_pad (front ++ [last]) (q := []) (fun c hc =>
        blank c (List.mem_cons_of_mem b hc)) (by simp)
      rw [List.append_nil] at before
      rw [before, hcomment, ← behind, List.nil_append]
    rw [readParam_words trimmed solid (blank b List.mem_cons_self), comment,
      String.ofList_toList, Param.pair,
      trimString]

/-- Whatever starts with no blank is read as a parameter. -/
theorem exists_readParam_cons {c : Char} (hc : isBlank c = false) (r : List Char) :
    ∃ pair, readParam (c :: r) = .ok pair := by
  obtain ⟨t, ht⟩ := trimEnd_cons_of_not_blank hc r
  have trimmed : trim (c :: r) = c :: t := by rw [trim, trimStart_cons_of_not_blank hc, ht]
  unfold readParam
  simp only [trimmed]
  rw [if_neg (by simp)]
  cases splitAtBlank (c :: t) <;> exact ⟨_, rfl⟩

/-! ## Which entries are read -/

theorem paramBody_append (c : Char) (rest : List Char) :
    paramBody ("param".toList ++ c :: rest) = if isWord c then none else some (c :: rest) := by
  rw [paramBody, isPrefixOf?_append]
  rfl

/-- The text that is read as a parameter, if there is one in an item. -/
def Item.body? (i : Item) : Option (List Char) := paramBody i.entry.text

theorem body?_param (p : Param) :
    (Item.param p).body? = some (p.gap.toList ++ (p.name ++ p.space ++ p.comment).toList) := by
  obtain ⟨b, gap, hgap⟩ := List.exists_cons_of_ne_nil
    (String.toList_eq_nil_iff.not.mpr p.gap_nonempty)
  have noWord : ¬ isWord b = true := by
    intro word
    have blank := p.gap_blank b (hgap ▸ List.mem_cons_self)
    rw [isBlank_of_isWord word] at blank
    cases blank
  have text : (Item.param p).entry.text
      = "param".toList ++ (p.gap.toList ++ (p.name ++ p.space ++ p.comment).toList) := rfl
  rw [Item.body?, text, hgap, List.cons_append, paramBody_append, if_neg noWord]

theorem body?_mistaken {e : Entry} {tag_ne : e.tag ≠ "param"} {c : Char} {more : List Char}
    (htag : e.tag.toList = "param".toList ++ c :: more) (hc : isWord c = false) :
    (Item.other e tag_ne).body? = some (c :: (more ++ (e.gap.toList ++ e.value.toList))) := by
  rw [Item.body?, Item.entry, Entry.text, htag, List.append_assoc, List.cons_append,
    paramBody_append,
    if_neg (by simp [hc])]

theorem body?_other {e : Entry} {tag_ne : e.tag ≠ "param"}
    (right : ¬ (Item.other e tag_ne).IsMistaken) :
    (Item.other e tag_ne).body? = none := by
  rw [Item.body?, Item.entry]
  by_cases front : "param".toList <+: e.tag.toList
  · obtain ⟨rest, hrest⟩ := front
    cases rest with
    | nil => exact absurd (String.toList_inj.mp (by rw [← hrest, List.append_nil])) tag_ne
    | cons c rest =>
        have word : isWord c = true := by
          by_contra noWord
          exact right ⟨c, rest, hrest.symm, Bool.not_eq_true _ ▸ noWord⟩
        rw [Entry.text, ← hrest, List.append_assoc, List.cons_append,
          paramBody_append, if_pos word]
  · rw [paramBody, isPrefixOf?_eq_ite, if_neg ((prefix_text_iff (by decide) e).not.mpr front)]

/-- Parameters are read, and the entries that are mistaken for parameters. -/
theorem isSome_body?_iff (i : Item) : i.body?.isSome = true ↔
    i.pair?.isSome = true ∨ i.IsMistaken := by
  cases i with
  | param p => simp [Item.pair?, body?_param]
  | other e tag_ne =>
      simp only [Item.pair?, Option.isSome_none, Bool.false_eq_true, false_or]
      constructor
      · intro some_
        by_contra right
        rw [body?_other right] at some_
        cases some_
      · rintro ⟨c, more, htag, hc⟩
        rw [body?_mistaken htag hc]
        rfl

/-- What is read as a parameter has a name. -/
theorem exists_readParam (i : Item) {body : List Char} (h : i.body? = some body) :
    ∃ pair, readParam body = .ok pair := by
  cases i with
  | param p =>
      rw [body?_param] at h
      cases h
      exact ⟨_, readParam_param p⟩
  | other e tag_ne =>
      rcases (isSome_body?_iff (.other e tag_ne)).mp (by rw [h]; rfl) with none_ | ⟨c,
        more, htag, hc⟩
      · cases none_
      · rw [body?_mistaken htag hc] at h
        cases h
        exact exists_readParam_cons (e.tag_solid c (by simp [htag])).1 _

end Doc

/-! ## Reading all parameters -/

namespace ParamDocumentation

variable {d : ParamDocumentation}

/-- The bodies of the entries that are read as parameters. -/
def bodies (d : ParamDocumentation) : List (List Char) := d.items.filterMap Doc.Item.body?

theorem params_eq_mapM (d : ParamDocumentation) :
    Doc.params (some d.text) = d.bodies.mapM Doc.readParam := by
  rw [Doc.params, Option.getD_some, text, Doc.entries_text, documentation, List.map_map,
    List.filterMap_map]
  rfl

theorem exists_params (d : ParamDocumentation) :
    ∃ documented, Doc.params (some d.text) = .ok documented := by
  rw [params_eq_mapM, exists_mapM_eq_ok_iff]
  intro body hbody
  obtain ⟨i, -, hi⟩ := List.mem_filterMap.mp hbody
  exact Doc.exists_readParam i hi

/-- All parameters are read, in their order, if no other entry is taken for one. -/
theorem params_eq_ok (right : ∀ i ∈ d.items, ¬ i.IsMistaken) :
    Doc.params (some d.text) = .ok d.pairs := by
  rw [params_eq_mapM, bodies, pairs]
  generalize d.items = items at right ⊢
  induction items with
  | nil => rfl
  | cons i items ih =>
      have rest := ih fun j hj => right j (List.mem_cons_of_mem i hj)
      cases i with
      | param p =>
          rw [List.filterMap_cons_some (Doc.body?_param p), List.mapM_cons,
            Doc.readParam_param, rest]
          rfl
      | other e tag_ne =>
          rw [List.filterMap_cons_none
            (Doc.body?_other (right (.other e tag_ne) List.mem_cons_self)), rest]
          rfl

/-- An entry that is taken for a parameter is one too many. -/
theorem length_pairs_lt {i : Doc.Item} (hi : i ∈ d.items) (mistaken : i.IsMistaken) :
    d.pairs.length < d.bodies.length := by
  have read : ∀ items : List Doc.Item,
      items.countP (fun j => j.pair?.isSome) ≤ items.countP fun j => j.body?.isSome :=
      fun items =>
    List.countP_mono_left fun j _ hj => (Doc.isSome_body?_iff j).mpr (.inl hj)
  have taken : i.body?.isSome = true := (Doc.isSome_body?_iff i).mpr (.inr mistaken)
  have noPair : i.pair?.isSome = false := by
    cases i with
    | param p => exact absurd mistaken id
    | other e tag_ne => rfl
  obtain ⟨before, after, hitems⟩ := List.append_of_mem hi
  have front := read before
  have back := read after
  rw [pairs, bodies, List.length_filterMap_eq_countP, List.length_filterMap_eq_countP, hitems]
  simp only [List.countP_append, List.countP_cons, taken, noPair, if_true,
    Bool.false_eq_true, if_false]
  omega

theorem length_documented {documented : List (String × String)}
    (h : Doc.params (some d.text) = .ok documented) :
    documented.length = d.bodies.length := by
  rw [params_eq_mapM, mapM_eq_ok_iff] at h
  exact h.length_eq.symm

end ParamDocumentation

/-! ## Structs -/

/-- The problem is one of the documentation of members. -/
def Issue.IsAboutParam (i : Issue) : Prop :=
  i.kind ∈ ["duplicate_param_doc", "unknown_param_doc", "missing_param_doc"]

instance (i : Issue) : Decidable i.IsAboutParam := inferInstanceAs (Decidable (_ ∈ _))

theorem Issue.isError_of_isAboutParam {i : Issue} (h : i.IsAboutParam) : i.isError = true := by
  cases i <;> first | rfl | simp [IsAboutParam, kind] at h

theorem isAboutParam_of_mem_paramIssues {interface : String} {s : StructDefinition}
    {seen names : List String}
    {issue : Issue} (h : issue ∈ paramIssues interface s seen names) : issue.IsAboutParam := by
  induction names generalizing seen with
  | nil => cases h
  | cons name names ih =>
      rw [paramIssues, List.mem_append] at h
      rcases h with h | h
      · split at h
        · rw [List.mem_singleton.mp h]
          simp [Issue.IsAboutParam, Issue.kind]
        · split at h
          · cases h
          · rw [List.mem_singleton.mp h]
            simp [Issue.IsAboutParam, Issue.kind]
      · exact ih h

namespace StructDefinition

variable (s : StructDefinition) (interface : String)

/-- The errors of a struct are the problems of the documentation of its members. -/
theorem isError_iff {issue : Issue} (h : issue ∈ (s.reading interface).issues) :
    issue.isError = true ↔ issue.IsAboutParam := by
  refine ⟨fun error => ?_, Issue.isError_of_isAboutParam⟩
  rw [reading, List.mem_append, List.mem_append] at h
  rcases h with (h | h) | h
  · split at h
    · cases h
    · rw [List.mem_singleton.mp h] at error
      cases error
  · exact isAboutParam_of_mem_paramIssues h
  · obtain ⟨v, -, rfl⟩ := List.mem_map.mp h
    simp [Issue.IsAboutParam, Issue.kind]

theorem no_issue_iff_complete :
    (∀ issue ∈ (s.reading interface).issues, ¬ issue.IsAboutParam) ↔ s.Complete := by
  rw [← s.faults_eq_zero_iff, ← s.countP_reading interface, List.countP_eq_zero]
  exact forall₂_congr fun issue h => not_congr (s.isError_iff interface h).symm

end StructDefinition

namespace ParamDocumentation

variable {d : ParamDocumentation} {s : StructDefinition}

theorem named (hs : s.documentation = some d.text) : s.Named := by
  rw [StructDefinition.Named, hs]
  exact d.exists_params

theorem documented_eq (hs : s.documentation = some d.text)
    (right : ∀ i ∈ d.items, ¬ i.IsMistaken) :
    s.documented = d.pairs := by
  have read := (named hs).eq
  rw [hs, params_eq_ok right, Except.ok.injEq] at read
  exact read.symm

/-- Members that are documented once each are documented completely, unless another entry is
taken for a parameter. -/
theorem complete_iff (hs : s.documentation = some d.text) (documents : d.Documents s) :
    s.Complete ↔ ∀ i ∈ d.items, ¬ i.IsMistaken := by
  have members : (d.pairs.map (·.1)).toFinset = s.memberNames.toFinset := by
    ext name
    rw [List.mem_toFinset, List.mem_toFinset, documents.members]
  constructor
  · rintro ⟨once, same⟩ i hi mistaken
    -- The entry adds a name, which is no member or documents one again.
    have read := (named hs).eq
    rw [hs] at read
    have longer : d.pairs.length < s.paramNames.length := by
      rw [StructDefinition.paramNames, List.length_map, length_documented read]
      exact length_pairs_lt hi mistaken
    have bound := List.toFinset_card_le (d.pairs.map (·.1))
    rw [members, ← same, List.toFinset_card_of_nodup once, List.length_map] at bound
    omega
  · intro right
    rw [StructDefinition.Complete, StructDefinition.paramNames, documented_eq hs right]
    exact ⟨documents.once, members⟩

/-- A member is recorded with the comment of its own documentation. -/
def Explains (d : ParamDocumentation) (v : VariableDeclaration) (m : Member) : Prop :=
  ∃ p, .param p ∈ d.items ∧ p.name = v.name ∧
    m = { name := v.name, type := v.type, typeSimple := simpleType v.type,
          comment := trimString p.comment }

theorem explains_memberRecord (documents : d.Documents s) {v : VariableDeclaration}
    (hv : v ∈ s.members) :
    d.Explains v (memberRecord d.pairs v) := by
  have documented : v.name ∈ d.pairs.map (·.1) :=
    (documents.members v.name).mpr (List.mem_map_of_mem hv)
  cases found : d.pairs.find? (·.1 = v.name) with
  | none =>
      exact absurd documented (commentOf_eq_none_iff.mp
        (by rw [commentOf, found, Option.map_none]))
  | some pair =>
      have name : pair.1 = v.name := by simpa using List.find?_some found
      obtain ⟨i, hi, hpair⟩ := List.mem_filterMap.mp (List.mem_of_find?_eq_some found)
      cases i with
      | other e tag_ne => cases hpair
      | param p =>
          cases hpair
          have name : p.name = v.name := name
          have solid : ∀ c ∈ v.name.toList, isBlank c = false :=
            fun c hc => (p.name_solid c (name ▸ hc)).1
          have trimmed : trimString v.name = v.name := by
            rw [trimString, trimmed_of_no_blank solid, String.ofList_toList]
          refine ⟨p, hi, name, ?_⟩
          rw [memberRecord, trimmed, commentOf, found]
          rfl

/-- **Documented parameters** are read in their order and with their comments, and a struct
whose members are documented so, each of them once, gets every comment and has no problem with
them.  The only exception are further entries whose tag is the word `param` with a character
behind it that belongs to no word: each of them is read as a parameter, and it is reported. -/
theorem params_text (d : ParamDocumentation) :
    (Doc.params (some d.text) = .ok d.pairs ↔ ∀ i ∈ d.items, ¬ i.IsMistaken) ∧
    ∀ (interface : String) (s : StructDefinition), s.documentation = some d.text →
    d.Documents s →
      ∃ reading, StructReading.ofDefinition interface s = .ok reading ∧
        ((∀ issue ∈ reading.issues, ¬ issue.IsAboutParam) ↔ ∀ i ∈ d.items, ¬ i.IsMistaken) ∧
        ((∀ i ∈ d.items, ¬ i.IsMistaken) →
          List.Forall₂ d.Explains s.members reading.record.params) := by
  refine ⟨⟨fun read i hi mistaken => ?_, params_eq_ok⟩, fun interface s hs documents => ?_⟩
  · have longer := length_pairs_lt hi mistaken
    rw [length_documented read] at longer
    exact lt_irrefl _ longer
  · refine ⟨s.reading interface, StructDefinition.ofDefinition_eq_ok (named hs), ?_,
      fun right => ?_⟩
    · rw [s.no_issue_iff_complete, complete_iff hs documents]
    · rw [StructDefinition.reading_record, StructDefinition.record, documented_eq hs right,
        List.forall₂_map_right_iff, List.forall₂_same]
      exact fun v hv => explains_memberRecord documents hv

/-! ### Parameters among other entries -/

/-- Two parameters among other entries, one of them with a comment of several lines and one
without a comment. -/
def interleaved : ParamDocumentation where
  lead := "Free text (of no tag). "
  items := [
    .other ⟨"title", " ", "The `body`.\n", by decide, Doc.isGap_space, by decide, by decide⟩
      (by decide),
    .param ⟨" ", "second", "\t", "two [of\n  three] lines \n",
      Doc.isGap_space, by decide, by decide, by decide,
      Doc.isGap_tab, by decide, by decide⟩,
    .other ⟨"parameter", " ", "first none\n", by decide, Doc.isGap_space, by decide, by decide⟩
      (by decide),
    .param ⟨"\n ", "first", "",
      "", by decide, by decide, by decide, by decide, Doc.isGap_empty,
      Doc.apart_empty, Doc.plain_empty⟩,
    .other ⟨"custom:param", "",
      "", by decide, Doc.isGap_empty, Doc.apart_empty, Doc.plain_empty⟩ (by decide)]
  lead_plain := by decide

/-- A struct with these members. -/
def interleavedStruct : StructDefinition :=
  ⟨"RequestBody", some interleaved.text,
    [⟨"first", some "bool"⟩, ⟨"second", some "struct IPayment.Leaf[]"⟩]⟩

theorem documents_interleaved : interleaved.Documents interleavedStruct where
  once := by decide
  members := by
    intro name
    have documented : interleaved.pairs.map (·.1) = ["second", "first"] := by decide
    have declared : interleavedStruct.memberNames = ["first", "second"] := rfl
    rw [documented, declared]
    simp [or_comm]

theorem not_isMistaken_interleaved : ∀ i ∈ interleaved.items, ¬ i.IsMistaken := by
  have word : isWord 'e' = true := by decide
  simp [interleaved, Doc.Item.IsMistaken, word]

/-- Parameters among entries of other tags, `parameter` and `custom:param` among them, are read
in order, and the struct has no problem with them. -/
theorem params_text_interleaved :
    Doc.params (some interleaved.text) = .ok [("second", "two [of\n  three] lines"),
      ("first", "")] ∧
    ∃ reading, StructReading.ofDefinition "IPayment" interleavedStruct = .ok reading ∧
      (∀ issue ∈ reading.issues, ¬ issue.IsAboutParam) ∧
      List.Forall₂ interleaved.Explains interleavedStruct.members reading.record.params := by
  have right := not_isMistaken_interleaved
  obtain ⟨params, structs⟩ := params_text interleaved
  obtain ⟨reading, read, issues, explained⟩ :=
    structs "IPayment" interleavedStruct rfl documents_interleaved
  have pairs : interleaved.pairs = [("second", "two [of\n  three] lines"), ("first", "")] := by
    decide
  exact ⟨pairs ▸ params.mpr right, reading, read, issues.mpr right, explained right⟩

/-! ### An entry that is taken for a parameter -/

/-- A documented parameter, and an entry whose tag goes on behind the word `param`. -/
def annotated : ParamDocumentation where
  lead := ""
  items := [
    .param ⟨" ", "value", " ", "The value.\n",
      Doc.isGap_space, by decide, by decide, by decide,
      Doc.isGap_space, by decide, by decide⟩,
    .other ⟨"param-note", " ", "Kept.", by decide, Doc.isGap_space, by decide, by decide⟩
      (by decide)]
  lead_plain := Doc.plain_empty

/-- A struct with this member. -/
def annotatedStruct : StructDefinition :=
  ⟨"Request", some annotated.text, [⟨"value", some "uint256"⟩]⟩

/-- The other entry is read as a parameter and reported: `param-note` documents a member
`-note` that does not exist. -/
theorem exists_params_ne :
    ∃ (d : ParamDocumentation) (s : StructDefinition) (reading : StructReading),
      (∀ tag ∈ d.documentation.tags, ∀ ch ∈ tag.toList, ch.isAlphanum = true ∨
        ch ∈ [':', '-', '_']) ∧
      s.documentation = some d.text ∧ d.Documents s ∧
      d.pairs = [("value", "The value.")] ∧
      Doc.params (some d.text) = .ok [("value", "The value."), ("-note", "Kept.")] ∧
      StructReading.ofDefinition "IPayment" s = .ok reading ∧
      reading.issues = [.unknownParam "IPayment" "Request" "-note"] := by
  have chars : (annotated.documentation.tags.all fun tag => tag.toList.all fun ch =>
      ch.isAlphanum || [':', '-', '_'].contains ch) = true := by decide
  have named : annotatedStruct.Named := named rfl
  refine ⟨annotated, annotatedStruct, annotatedStruct.reading "IPayment", ?_, rfl,
    ⟨by decide, ?_⟩, by decide,
    by decide +kernel, StructDefinition.ofDefinition_eq_ok named, by decide +kernel⟩
  · simpa only [List.all_eq_true, Bool.or_eq_true, List.contains_iff_mem] using chars
  · intro name
    simp [annotated, annotatedStruct, pairs, Doc.Item.pair?, Doc.Param.pair,
      StructDefinition.memberNames]

end ParamDocumentation

end Attestation
