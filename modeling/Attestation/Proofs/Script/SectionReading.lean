import Attestation.Proofs.Script.ImportLines
import Attestation.Proofs.Text.Trim
import Attestation.Script.CustomSection

/-!
# Reading a section

A section of hand-written code lies between two tags.  What is read from between them is
trimmed and does not hold the closing tag, and code that is written between them is read back
when no tag stands before it or in it.

## Design notes

A tag is found by its text, so a section can be lost by a tag that stands anywhere in front of
it, also in code or in an import.  All tags begin alike, and `mark` is that beginning: what does
not hold a mark holds no tag of any section, which is one condition in place of one for each
name.
-/

namespace Attestation.CustomSection

open Text

/-- What every tag starts with. -/
def mark : List Char := ['/', '/', '-', '$', '$', '$', '<']

theorem toList_openingTag (name : String) :
    (openingTag name).toList
      = mark ++ (['s', 't', 'a', 'r', 't', '-'] ++ name.toList ++ ['>']) := by
  simp [openingTag, marker, mark]

theorem toList_closingTag (name : String) :
    (closingTag name).toList = mark ++ (['e', 'n', 'd', '-'] ++ name.toList ++ ['>']) := by
  simp [closingTag, marker, mark]

theorem mark_prefix_openingTag (name : String) : mark <+: (openingTag name).toList := by
  rw [toList_openingTag]
  exact List.prefix_append _ _

theorem mark_prefix_closingTag (name : String) : mark <+: (closingTag name).toList := by
  rw [toList_closingTag]
  exact List.prefix_append _ _

theorem foreign_mark : Foreign mark where
  nonempty := by decide
  separators := forall_mem_of_all (by decide)
  head := by simp [mark]
  last := by simp [mark]

/-- Import lines hold a tag only inside their names and modules. -/
theorem mark_infix_lines {imports : List Import} (part : mark <:+: importLines imports) :
    ∃ i ∈ imports, ∃ s ∈ i.parts, mark <:+: s.toList :=
  infix_lines foreign_mark (fun _ => (infix_append_left_iff (by decide)).mp) part

/-! ## What is read -/

section Extract

variable {code name x : String} (h : extract code name = some x)
include h

theorem exists_of_extract : ∃ body behind rest, find? (closingTag name).toList behind
      = some (body, rest) ∧
    x = String.ofList (trim body) := by
  simp only [extract, Option.bind_eq_bind, Option.bind_eq_some_iff] at h
  obtain ⟨⟨_, behind⟩, _, ⟨body, rest⟩, hfind, hx⟩ := h
  exact ⟨body, _, rest, hfind, (Option.some.inj hx).symm⟩

/-- The code of a section has no outer blanks. -/
theorem trimmed_of_extract : Trimmed x.toList := by
  obtain ⟨body, -, -, -, rfl⟩ := exists_of_extract h
  rw [String.toList_ofList]
  exact trimmed_trim body

/-- The code of a section does not hold its closing tag. -/
theorem not_infix_of_extract : ¬ (closingTag name).toList <:+: x.toList := by
  obtain ⟨body, behind, rest, hfind, rfl⟩ := exists_of_extract h
  rw [String.toList_ofList]
  intro part
  refine not_infix_of_find? ?_ hfind (part.trans (infix_trim body))
  rw [toList_closingTag]
  simp [mark]

end Extract

/-! ## What is written is read -/

/-- **Reading a section that has been written**, behind a text without the opening tag and with
code that does not hold the closing tag. -/
theorem extract_eq_some {code name : String} {front note body rest : List Char}
    (blank : ' ' ∉ name.toList) (hfront : ¬ (openingTag name).toList <:+: front)
    (hnote : '\n' ∉ note)
    (hbody : ¬ (closingTag name).toList <:+: body)
    (text : code.toList = front ++ ' ' :: ((openingTag name).toList ++ (note ++
      '\n' :: (body ++ ' ' :: ((closingTag name).toList ++ rest))))) :
    extract code name = some (String.ofList (trim body)) := by
  have apart : ' ' ∉ (openingTag name).toList ∧ ' ' ∉ (closingTag name).toList := by
    rw [toList_openingTag, toList_closingTag]
    simp [mark, blank]
  have line : (note ++ '\n' :: (body ++ ' ' :: ((closingTag name).toList ++ rest))).dropWhile
    (· ≠ '\n')
      = '\n' :: (body ++ ' ' :: ((closingTag name).toList ++ rest)) := by
    refine dropWhile_front (fun c hc => ?_) (by simp)
    rw [decide_eq_true_eq]
    rintro rfl
    exact hnote hc
  have padded : trim (body ++ [' ']) = trim body := by
    have pad := trim_pad (p := []) (q := [' ']) body (by simp) (forall_mem_of_all (by decide))
    rwa [List.nil_append] at pad
  rw [extract, text, find?_append_cons apart.1 hfront]
  show (find? (closingTag name).toList ((note ++ _).dropWhile (· ≠ '\n')).tail >>= _) = _
  rw [line, List.tail_cons, find?_append_cons apart.2 hbody]
  show some (String.ofList (trim (body ++ [' ']))) = _
  rw [padded]

end Attestation.CustomSection
