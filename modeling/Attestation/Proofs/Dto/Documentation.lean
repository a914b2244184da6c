import Attestation.Declaration.Source
import Attestation.Proofs.Dto.Field
import Attestation.Proofs.Dto.SameSchema
import Attestation.Proofs.Text.DocBlock

/-!
# Documentation in generated scripts

The descriptions of structs and the comments of members become documentation blocks of the
plain interfaces and of the DTO classes (`emitted_documents`).  A block holds its text line by
line, and it is one comment exactly if the text does not hold the two characters that end a
comment; otherwise what stands behind them in the text is program text
(`exists_not_onlyAtEnd`).

## Main definitions

* `IsBlock`: lines that are a documentation block of a text.
* `Documents`: lines that are the documentation for a text.

## Design notes

Both emitters call the same function, and a statement about both is one about how they use it:
for which texts, and with which lines around it.  The lines of a block are those of the text,
where a carriage return at the end of a line is dropped and a last empty line does not count.
-/

namespace Attestation

open Text

/-- The lines open a documentation block, and those between its first and its last line are the
lines of the text without the blanks around it, each behind a star.  The lines of the text are
those that put together give it again. -/
structure IsBlock (text : String) (doc : List String) : Prop where
  opens : "/**".toList <+: (unlines doc).toList
  body : doc = ("/**" :: (linesString (trimString text)).map ("* " ++ ·)) ++ ["*/"]
  lines : unlines (linesString (trimString text)) = trimString text
  single : ∀ line ∈ linesString (trimString text), '\n' ∉ line.toList

/-- The lines are the documentation for a text: none if it is blank, and else a block, which
ends at its end and not before exactly if the text does not hold the end of a comment. -/
structure Documents (text : String) (doc : List String) : Prop where
  blank : isBlankString text = true → doc = []
  block : isBlankString text = false → '\r' ∉ text.toList → IsBlock text doc
  ends : isBlankString text = false → '\r' ∉ text.toList →
    (OnlyAtEnd "*/".toList (unlines doc).toList ↔ ¬ "*/".toList <:+: text.toList)

theorem isBlock_docLines {text : String} (full : isBlankString text = false)
    (plain : '\r' ∉ text.toList) :
    IsBlock text (docLines text) where
  opens := by
    rw [docLines_eq full plain, unlines, toList_join, List.map_append,
      intercalate_append (by simp) (by simp),
      List.append_assoc]
    refine (List.IsPrefix.trans ?_ (List.prefix_append _ _))
    cases bodyLines text with
    | nil => exact List.prefix_rfl
    | cons line more => exact ⟨_, rfl⟩
  body := docLines_eq full plain
  lines := (unlines_bodyLines full plain).1
  single := (unlines_bodyLines full plain).2

theorem documents_docLines (text : String) : Documents text (docLines text) where
  blank h := if_pos h
  block := isBlock_docLines
  ends := onlyAtEnd_docLines_iff

/-- **The documentation that the emitters write**, of structs and members of the interfaces,
and of members of the DTO classes, where decorators stand behind it.  Both use one definition
for the block, and so it is enough to prove `Documents` once. -/
theorem emitted_documents (attestationType : String) :
    (∀ r interfaces, Declaration.interfaces r = .ok interfaces →
      List.Forall₂ (fun s i => Documents s.description i.doc ∧
          List.Forall₂ (fun m (p : Declaration.Field) => Documents m.comment p.doc) s.params
            i.fields)
        (Declaration.structsInOrder r) interfaces) ∧
    ∀ m f, Dto.Field.ofMember attestationType m = .ok f →
      ∃ doc decorators, f.annotations = doc ++ decorators ∧
        (∀ line ∈ decorators, Dto.IsDecorator line) ∧
        Documents m.comment doc := by
  constructor
  · intro r interfaces h
    refine (mapM_eq_ok_iff.mp h).imp fun s i made => ?_
    obtain ⟨doc, -, fields⟩ := Declaration.Interface.ofStruct_eq_ok_iff.mp made
    refine ⟨doc ▸ documents_docLines s.description, fields.imp fun m p hp => ?_⟩
    obtain ⟨t, -, rfl⟩ := Declaration.Field.ofMember_eq_ok_iff.mp hp
    exact documents_docLines m.comment
  · intro m f h
    obtain ⟨t, shown, -, -, rfl⟩ := Dto.Field.ofMember_eq_ok_iff.mp h
    refine ⟨docLines m.comment, _, List.append_assoc _ _ _, fun line hline => ?_,
      documents_docLines m.comment⟩
    rcases List.mem_append.mp hline with hline | hline
    · exact Dto.isDecorator_validators hline
    · rw [List.mem_singleton.mp hline]
      exact Dto.isDecorator_propertyDecorator _ _

/-- A request that is described in two paragraphs. -/
def describedRequest : StructRecord :=
  { (default : StructRecord) with
    name := "Request"
    description := " A payment.\n\n  Paid at once. " }

/-- A member whose comment is one line. -/
def paidMember : Member := ⟨"paid", "bool", "bool", "Whether it is paid."⟩

/-- The documentation of that request and of that member. -/
theorem emitted_documents_described :
    ∃ i more f doc decorators,
      Declaration.interfaces { (default : TypeRecord) with request := describedRequest }
        = .ok (i :: more) ∧
      i.doc = ["/**", "* A payment.", "* ", "*   Paid at once.", "*/"] ∧
      IsBlock describedRequest.description i.doc ∧
      OnlyAtEnd "*/".toList (unlines i.doc).toList ∧
      Dto.Field.ofMember "Payment" paidMember = .ok f ∧ f.annotations = doc ++ decorators ∧
      (∀ line ∈ decorators, Dto.IsDecorator line) ∧ Documents paidMember.comment doc := by
  obtain ⟨interfaces, members⟩ := emitted_documents "Payment"
  have made : ∃ i more,
      Declaration.interfaces { (default : TypeRecord) with request := describedRequest }
        = .ok (i :: more) ∧
      i.doc = ["/**", "* A payment.", "* ", "*   Paid at once.", "*/"] :=
      ⟨_, _, rfl, by decide⟩
  obtain ⟨i, more, made, lines⟩ := made
  obtain ⟨⟨documents, -⟩, -⟩ := List.forall₂_cons.mp (interfaces _ _ made)
  obtain ⟨doc, decorators, parts, decorated, commented⟩ :=
    members paidMember _ (Dto.Field.ofMember_bool _ _ _ _)
  exact ⟨i, more, _, doc, decorators, made, lines, documents.block (by decide) (by decide),
    (documents.ends (by decide) (by decide)).mpr (by decide), Dto.Field.ofMember_bool _ _ _ _,
    parts, decorated,
    commented⟩

/-- A comment that ends a comment, and goes on. -/
def endingMember : Member := ⟨"paid", "bool", "bool", "Paid */ process.exit()"⟩

/-- The block of that comment ends within the comment, so that the rest of it is program text:
nothing in the emitters looks for the end of a comment. -/
theorem exists_not_onlyAtEnd :
    ∃ f doc decorators, isBlankString endingMember.comment = false ∧
      '\r' ∉ endingMember.comment.toList ∧
      Dto.Field.ofMember "Payment" endingMember = .ok f ∧ f.annotations = doc ++ decorators ∧
      doc = ["/**", "* Paid */ process.exit()", "*/"] ∧
      (∀ line ∈ decorators, Dto.IsDecorator line) ∧
      ¬ OnlyAtEnd "*/".toList (unlines doc).toList := by
  refine ⟨_, ["/**", "* Paid */ process.exit()", "*/"],
    ["@IsBoolean()", Dto.propertyDecorator endingMember.comment (some "true")],
    by decide, by decide,
    Dto.Field.ofMember_bool _ _ _ _, ?_, rfl, ?_, ?_⟩
  · have lines : docLines "Paid */ process.exit()"
        = ["/**", "* Paid */ process.exit()", "*/"] := by decide
    exact congrArg (fun doc => doc ++ ["@IsBoolean()"] ++ [_]) lines
  · exact List.forall_mem_cons.mpr
      ⟨by decide, List.forall_mem_singleton.mpr (Dto.isDecorator_propertyDecorator _ _)⟩
  · rintro ⟨-, only⟩
    have nothing := only "/**\n* Paid ".toList " process.exit()\n*/".toList (by decide)
    exact absurd nothing (by decide)

end Attestation
