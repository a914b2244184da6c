import Attestation.Proofs.Interface.Acceptance
import Attestation.Proofs.Text.Pieces

/-!
# Tags of a documentation

A documentation is free text and then entries, each of them an at sign, a tag, blanks and a
value.  The entry of a tag is found by the front of its text, so an entry whose tag goes on
behind that front is taken for it if it comes first (`Extraction.tells_tagged`).

## Main definitions

* `Doc.Entry`, `Documentation`: documentations by their parts.
* `Documentation.value`: the value of the first entry with a tag.
* `Documentation.found`: what stands behind the front of the first entry that begins with a
  tag.
* `Documentation.Unshadowed`: the first entry that begins with a tag has exactly this tag.

## Design notes

Documentations are a type of parts whose invariants are fields, and every statement is about
the text that the parts are put together to.  So a value is what an author writes behind a tag,
and not what some reader makes of it; what is read agrees with it exactly for documentations
that are unshadowed.
-/

namespace Attestation

open Text

/-! ## Documentations by their parts -/

/-- A word of a tag or a name: no blank ends it, and no at sign starts a new entry in it. -/
def Doc.IsSolid (word : String) : Prop := ∀ c ∈ word.toList, isBlank c = false ∧ c ≠ '@'

/-- A gap is made of blanks. -/
def Doc.IsGap (gap : String) : Prop := ∀ c ∈ gap.toList, isBlank c = true

instance (word : String) : Decidable (Doc.IsSolid word) :=
  decidable_of_iff (word.toList.all fun c => !isBlank c && c != '@') (by simp [Doc.IsSolid])

instance (gap : String) : Decidable (Doc.IsGap gap) :=
  decidable_of_iff (gap.toList.all isBlank) (by simp [Doc.IsGap])

theorem Doc.isGap_empty : IsGap "" := by decide

theorem Doc.isGap_space : IsGap " " := by decide

theorem Doc.isGap_tab : IsGap "\t" := by decide

theorem Doc.plain_empty : '@' ∉ "".toList := by decide

theorem Doc.apart_empty {gap : String} : "" ≠ "" → gap ≠ "" := fun h => absurd rfl h

/-- An entry: a tag, blanks and a value.  The blanks may be missing only at the end of an entry
without a value. The proofs that the parts are what they are called come with them, so that
every text of entries is cut into these entries again. -/
structure Doc.Entry where
  tag : String
  gap : String
  value : String
  tag_solid : Doc.IsSolid tag
  gap_blank : Doc.IsGap gap
  apart : value ≠ "" → gap ≠ ""
  value_plain : '@' ∉ value.toList

/-- What stands behind the at sign of an entry. -/
def Doc.Entry.text (e : Doc.Entry) : List Char :=
  e.tag.toList ++ (e.gap.toList ++ e.value.toList)

/-- A documentation: free text and then entries. -/
structure Documentation where
  lead : String
  entries : List Doc.Entry
  lead_plain : '@' ∉ lead.toList

namespace Documentation

/-- The text of a documentation. -/
def text (d : Documentation) : String :=
  String.ofList (d.lead.toList ++ d.entries.flatMap fun e => '@' :: e.text)

/-- The tags of the entries. -/
def tags (d : Documentation) : List String := d.entries.map (·.tag)

/-- The value of the first entry with a tag, without outer blanks. -/
def value (d : Documentation) (name : String) : String :=
  match d.entries.find? (·.tag = name) with
  | some e => trimString e.value
  | none => ""

/-- What stands behind a name in the first entry whose tag begins with it, without outer
blanks.  This is what a search for an at sign and the name finds. -/
def found (d : Documentation) (name : String) : String :=
  match d.entries.find? (name.toList <+: ·.tag.toList) with
  | some e => String.ofList (trim (e.text.drop name.toList.length))
  | none => ""

/-- The first tag that begins with a name is this name.  A longer tag in front of it would be
found in its place. -/
def Unshadowed (d : Documentation) (name : String) : Prop :=
  ∀ tag ∈ d.tags.find? (name.toList <+: ·.toList), tag = name

instance (d : Documentation) (name : String) : Decidable (d.Unshadowed name) :=
  inferInstanceAs (Decidable (∀ tag ∈ d.tags.find? (name.toList <+: ·.toList), tag = name))

end Documentation

/-! ## Reading a tag -/

namespace Doc

theorem Entry.text_plain (e : Entry) : '@' ∉ e.text := by
  have gap : '@' ∉ e.gap.toList := fun mem => absurd (e.gap_blank _ mem) (by decide)
  have tag : '@' ∉ e.tag.toList := fun mem => (e.tag_solid _ mem).2 rfl
  simp [Entry.text, tag, gap, e.value_plain]

theorem splitOn_entries {lead : List Char} (plain : '@' ∉ lead) (entries : List Entry) :
    List.splitOn '@' (lead ++ entries.flatMap fun e => '@' :: e.text)
      = lead :: entries.map Entry.text := by
  induction entries generalizing lead with
  | nil => simpa using List.splitOn_eq_singleton plain
  | cons e entries ih =>
      rw [List.flatMap_cons, List.cons_append, List.splitOn_append_cons_self,
        List.splitOn_eq_singleton plain, ih e.text_plain]
      rfl

/-- An entry with the same tag and without a value. -/
def Entry.bare (e : Entry) : Entry where
  tag := e.tag
  gap := ""
  value := ""
  tag_solid := e.tag_solid
  gap_blank := isGap_empty
  apart := apart_empty
  value_plain := plain_empty

theorem Entry.text_bare (e : Entry) : e.bare.text = e.tag.toList := by
  simp [text, bare]

/-- **The entries of a documentation** are found at their at signs. -/
theorem entries_text (d : Documentation) : Doc.entries d.text = d.entries.map Entry.text := by
  rw [entries, Documentation.text, String.toList_ofList, splitOn_entries d.lead_plain,
    List.tail_cons]

/-- A name does not reach over the end of a tag, into the blanks behind it. -/
theorem prefix_text_iff {name : String} (solid : IsSolid name) (e : Entry) :
    name.toList <+: e.text ↔ name.toList <+: e.tag.toList := by
  constructor
  · intro start
    rcases List.prefix_or_prefix_of_prefix start (List.prefix_append _ _) with inside |
      ⟨more, hmore⟩
    · exact inside
    · cases more with
      | nil => rw [← hmore, List.append_nil]
      | cons c more =>
          rw [Entry.text, ← hmore, List.prefix_append_right_inj] at start
          have notBlank := (solid c (hmore ▸ by simp)).1
          cases hgap : e.gap.toList with
          | nil =>
              have noValue : e.value = "" := by
                by_contra hv
                exact e.apart hv (String.toList_eq_nil_iff.mp hgap)
              simp [hgap, noValue] at start
          | cons b gap =>
              rw [hgap, List.cons_append, List.cons_prefix_cons] at start
              have blank := e.gap_blank b (by simp [hgap])
              rw [← start.1, notBlank] at blank
              cases blank
  · exact fun inside => inside.trans (List.prefix_append _ _)

/-- **What is found for a tag**, given by the parts of the documentation.  The search does not
ask whether the tag ends with the name, so neither does `found`. -/
theorem tag_text {name : String} (solid : IsSolid name) (d : Documentation) :
    Doc.tag name (some d.text) = d.found name := by
  have front : (fun e : Entry => decide (name.toList <+: e.text)) = fun e =>
    decide (name.toList <+: e.tag.toList) :=
    funext fun e => decide_eq_decide.mpr (prefix_text_iff solid e)
  rw [tag, Option.getD_some, entries_text, firstM_isPrefixOf?, List.find?_map,
    Documentation.found]
  simp only [Function.comp_def, front]
  cases d.entries.find? fun e => decide (name.toList <+: e.tag.toList) <;> rfl

end Doc

/-! ## Longer tags in front -/

namespace Documentation

variable {name : String}

theorem find?_tags (d : Documentation) (p : String → Bool) :
    d.tags.find? p = (d.entries.find? fun e => p e.tag).map (·.tag) := by
  rw [tags, List.find?_map]
  rfl

/-- The value of a tag is found unless a longer tag comes first. -/
theorem found_eq_value {d : Documentation} (unshadowed : d.Unshadowed name) :
    d.found name = d.value name := by
  rw [Unshadowed, find?_tags] at unshadowed
  cases first : d.entries.find? (name.toList <+: ·.tag.toList) with
  | none =>
      have nowhere : d.entries.find? (·.tag = name) = none := by
        rw [List.find?_eq_none] at first ⊢
        intro e he same
        exact first e he (by simp [of_decide_eq_true same])
      rw [found, first, value, nowhere]
  | some e =>
      have same : e.tag = name := unshadowed e.tag (by rw [first]; rfl)
      have here : d.entries.find? (·.tag = name) = some e := by
        obtain ⟨-, before, after, hd, others⟩ := List.find?_eq_some_iff_append.mp first
        rw [List.find?_eq_some_iff_append]
        refine ⟨by simpa using same, before, after, hd, fun x hx => ?_⟩
        have other := others x hx
        simp only [Bool.not_eq_true', decide_eq_false_iff_not] at other ⊢
        rintro rfl
        exact other List.prefix_rfl
      rw [found, first, value, here]
      simp only
      rw [Doc.Entry.text, same, List.drop_left, trimString]
      have pad := trim_pad e.value.toList e.gap_blank (q := []) (by simp)
      rw [List.append_nil] at pad
      rw [pad]

/-- The documentation with the same tags and no values. -/
def bare (d : Documentation) : Documentation :=
  { d with entries := d.entries.map Doc.Entry.bare }

theorem tags_bare (d : Documentation) : d.bare.tags = d.tags := by
  rw [tags, bare, List.map_map]
  rfl

theorem value_bare (d : Documentation) : d.bare.value name = "" := by
  rw [value, bare, List.find?_map]
  cases d.entries.find? _ <;> rfl

/-- **The tags decide** whether the value of one of them is found, whatever the values are.
For a single text a shadowed value may be found by chance, if both entries say the same. -/
theorem unshadowed_iff {d : Documentation} :
    d.Unshadowed name ↔ ∀ d' : Documentation, d'.tags = d.tags →
    d'.found name = d'.value name := by
  constructor
  · intro unshadowed d' same
    refine found_eq_value ?_
    rwa [Unshadowed, same]
  · intro all tag htag
    rw [find?_tags, Option.mem_def, Option.map_eq_some_iff] at htag
    obtain ⟨e, first, rfl⟩ := htag
    have bareFirst : d.bare.entries.find? (name.toList <+: ·.tag.toList) = some e.bare := by
      rw [bare, List.find?_map]
      exact congrArg (Option.map Doc.Entry.bare) first
    have begins : name.toList <+: e.tag.toList := by simpa using List.find?_some first
    obtain ⟨more, hmore⟩ := begins
    -- Nothing may be left of the tag behind the name.
    have nothing := all d.bare d.tags_bare
    rw [value_bare, found, bareFirst, ← String.toList_inj, String.toList_ofList,
      Doc.Entry.text_bare, ← hmore,
      List.drop_left, trimmed_of_no_blank fun c hc =>
      (e.tag_solid c (hmore ▸ by simp [hc])).1] at nothing
    rw [← String.toList_inj, ← hmore, nothing, String.toList_empty, List.append_nil]

/-- A text is what a documentation tells for a tag: what is found for it, which is the value of
the tag, whatever the values are, exactly if no longer tag comes first. -/
structure Tells (d : Documentation) (name text : String) : Prop where
  found : text = d.found name
  value : d.Unshadowed name → text = d.value name
  shadowed : ¬ d.Unshadowed name → ∃ d' :
  Documentation, d'.tags = d.tags ∧ d'.found name ≠ d'.value name

theorem tells_tag (solid : Doc.IsSolid name) (d : Documentation) :
    d.Tells name (Doc.tag name (some d.text)) where
  found := Doc.tag_text solid d
  value unshadowed := (Doc.tag_text solid d).trans (found_eq_value unshadowed)
  shadowed shadowed := by
    by_contra right
    refine shadowed (unshadowed_iff.mpr fun d' same => ?_)
    by_contra wrong
    exact right ⟨d', same, wrong⟩

end Documentation

/-! ## The tags of an interface -/

/-- The texts that come from the documentation of an interface, with their tags. -/
def TypeRecord.tagged (r : TypeRecord) : List (String × String) :=
  [("notice", r.description), ("custom:name", r.name), ("custom:verification", r.verification),
    ("custom:lut", r.lut)]

/-- The texts that come from the documentation of a struct, with their tags. -/
def StructRecord.tagged (s : StructRecord) : List (String × String) :=
  [("notice", s.description), ("custom:above", s.above), ("custom:below", s.below)]

theorem tells_record {s : StructDefinition} {d : Documentation}
    (hd : s.documentation = some d.text) :
    ∀ p ∈ s.record.tagged, d.Tells p.1 p.2 := by
  simp only [StructRecord.tagged, StructDefinition.record, hd, List.forall_mem_cons,
    List.not_mem_nil,
    false_implies, implies_true, and_true]
  exact ⟨d.tells_tag (by decide), d.tells_tag (by decide), d.tells_tag (by decide)⟩

theorem tells_recordOf {c : ContractDefinition} {placed : List (Slot × StructReading)}
    {r : TypeRecord}
    {d : Documentation} (hr : Extraction.recordOf c placed = some r)
    (hd : c.documentation = some d.text) :
    ∀ p ∈ r.tagged, d.Tells p.1 p.2 := by
  simp only [Extraction.recordOf, Option.pure_def, Option.bind_eq_bind,
    Option.bind_eq_some_iff,
    Option.some.injEq] at hr
  obtain ⟨proof, -, request, -, response, -, requestBody, -, responseBody, -, rfl⟩ := hr
  simp only [TypeRecord.tagged, hd, List.forall_mem_cons, List.not_mem_nil, false_implies,
    implies_true, and_true]
  exact ⟨d.tells_tag (by decide), d.tells_tag (by decide), d.tells_tag (by decide),
    d.tells_tag (by decide)⟩

/-- **The texts of a record** are what the documentations of the interface and of its structs
tell for their tags: the value of the tag itself, unless a longer tag comes first, and nothing
where there is no such tag. -/
theorem Extraction.tells_tagged {u : SourceUnit} {c : ContractDefinition} {e : Extraction}
    {r : TypeRecord}
    (only : u.contracts = [c]) (read : Extraction.ofUnit u = .ok e)
    (record : e.record = some r) :
    (∀ d : Documentation, c.documentation = some d.text → ∀ p ∈ r.tagged, d.Tells p.1 p.2) ∧
    ∀ s ∈ c.structs, ∃ reading, StructReading.ofDefinition c.name s = .ok reading ∧
      ∀ d : Documentation, s.documentation = some d.text → ∀ p ∈ reading.record.tagged,
        d.Tells p.1 p.2 := by
  rw [Extraction.ofUnit, only] at read
  obtain ⟨named, rfl⟩ := Extraction.ofContract_eq_ok_iff.mp read
  refine ⟨fun d hd => tells_recordOf record hd, fun s hs => ?_⟩
  exact ⟨s.reading c.name, StructDefinition.ofDefinition_eq_ok (named s hs), fun d hd =>
    tells_record hd⟩

/-! ### A longer tag comes first -/

/-- A documentation with a tag of its own in front of the one that it extends. -/
def limitedInterface : Documentation where
  lead := ""
  entries := [
    ⟨"custom:name", " ", "Payment\n", by decide, Doc.isGap_space, by decide, by decide⟩,
    ⟨"custom:lutlimit", " ", "5\n", by decide, Doc.isGap_space, by decide, by decide⟩,
    ⟨"custom:lut", "\t", "Block timestamp.\n", by decide, Doc.isGap_tab, by decide, by decide⟩]
  lead_plain := Doc.plain_empty

/-- The documentation of a struct. -/
def describedProof : Documentation where
  lead := "Free text. "
  entries := [⟨"dev", " ", "none ", by decide, Doc.isGap_space, by decide, by decide⟩,
    ⟨"notice", "\n", " The proof. ", by decide, by decide, by decide, by decide⟩,
    ⟨"noticeboard", " ", "none", by decide, Doc.isGap_space, by decide, by decide⟩]
  lead_plain := by decide

/-- An interface with these documentations. -/
def limitedContract : ContractDefinition where
  name := "IPayment"
  kind := none
  documentation := some limitedInterface.text
  nodes := [some ⟨"Proof", some describedProof.text, []⟩,
    some (SourceUnit.sampleStruct "Request" "" []),
    some (SourceUnit.sampleStruct "Response" "" []),
    some (SourceUnit.sampleStruct "RequestBody" "" []),
    some (SourceUnit.sampleStruct "ResponseBody" "" [])]

theorem exists_record_limitedContract :
    ∃ e r, Extraction.ofUnit ⟨none, [some limitedContract]⟩ = .ok e ∧
    e.record = some r := by
  have read : Extraction.ofContract limitedContract
      = .ok (.ofPlaced limitedContract limitedContract.placed) :=
    Extraction.ofContract_eq_ok (by decide +kernel)
  obtain ⟨r, hr⟩ := Option.isSome_iff_exists.mp
    ((Extraction.isSome_recordOf_iff limitedContract).mpr (by decide +kernel))
  exact ⟨_, r, read, hr⟩

/-- The lookup table of the limited contract is `limit 5`, while the tags of its struct are
found although one goes on behind another. -/
theorem Extraction.tells_tagged_limitedContract :
    ∃ e r reading, Extraction.ofUnit ⟨none, [some limitedContract]⟩ = .ok e ∧
      e.record = some r ∧
      r.name = limitedInterface.value "custom:name" ∧ r.name = "Payment" ∧ r.lut = "limit 5" ∧
      StructReading.ofDefinition "IPayment" ⟨"Proof", some describedProof.text, []⟩
        = .ok reading ∧
      reading.record.description = describedProof.value "notice" ∧
      reading.record.description = "The proof." := by
  obtain ⟨e, r, read, record⟩ := exists_record_limitedContract
  obtain ⟨interface, structs⟩ := Extraction.tells_tagged (c := limitedContract) rfl read record
  have name : limitedInterface.Tells "custom:name" r.name :=
    interface limitedInterface rfl ("custom:name", r.name) (by simp [TypeRecord.tagged])
  have lut : limitedInterface.Tells "custom:lut" r.lut :=
    interface limitedInterface rfl ("custom:lut", r.lut) (by simp [TypeRecord.tagged])
  obtain ⟨reading, hreading, proof⟩ := structs ⟨"Proof", some describedProof.text, []⟩
    (by simp [limitedContract, ContractDefinition.structs])
  have description : describedProof.Tells "notice" reading.record.description :=
    proof describedProof rfl ("notice", reading.record.description)
      (by simp [StructRecord.tagged])
  have payment := name.value (by decide)
  have described := description.value (by decide)
  exact ⟨e, r, reading, read, record, payment, payment.trans (by decide),
    lut.found.trans (by decide), hreading,
    described, described.trans (by decide)⟩

/-- The value of a tag is not found when a tag that extends it comes first: the lookup table is
read off the entry in front of its own. -/
theorem Extraction.exists_tagged_ne :
    ∃ (d : Documentation) (u : SourceUnit) (c : ContractDefinition) (e : Extraction)
      (r : TypeRecord),
      (∀ tag ∈ d.tags, ∀ ch ∈ tag.toList, ch.isAlphanum = true ∨ ch ∈ [':', '-', '_']) ∧
      u.contracts = [c] ∧ c.documentation = some d.text ∧ Extraction.ofUnit u = .ok e ∧
      e.record = some r ∧
      d.value "custom:lut" = "Block timestamp." ∧ r.lut = "limit 5" := by
  obtain ⟨e, r, read, record⟩ := exists_record_limitedContract
  have chars : (limitedInterface.tags.all fun tag => tag.toList.all fun ch =>
      ch.isAlphanum || [':', '-', '_'].contains ch) = true := by decide
  refine ⟨limitedInterface, ⟨none, [some limitedContract]⟩, limitedContract, e, r, ?_, rfl,
    rfl, read, record,
    by decide, ?_⟩
  · simpa only [List.all_eq_true, Bool.or_eq_true, List.contains_iff_mem] using chars
  · have lut : r.lut = limitedInterface.found "custom:lut" := by
      rw [Extraction.ofUnit] at read
      obtain ⟨-, rfl⟩ := Extraction.ofContract_eq_ok_iff.mp read
      exact (tells_recordOf record rfl ("custom:lut", r.lut)
        (by simp [TypeRecord.tagged])).found
    exact lut.trans (by decide)

end Attestation
