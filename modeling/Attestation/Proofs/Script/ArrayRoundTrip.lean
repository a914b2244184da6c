import Attestation.Proofs.Script.ArrayAnchor
import Attestation.Proofs.Script.ArrayFault

/-!
# Entries are read back

Other entries can be written in place of those of an array, and the array is found again at its
place with the entries that have been written (`extract_text`).

## Main definitions

* `Writable`: a text that can be written as one entry.  All entries that are read are such
  texts.

## Design notes

Entries are written with a comma and a blank between them, whatever stood between them before.
A bare entry must not be blank and must not hold a comma or a bracket; an object keeps its
commas, and stands between others without any.  The text around the array does not change and
neither does the first occurrence of the anchor, since the anchor ends in front of the inside.
-/

namespace Attestation.ArrayLiteral

open Text

/-- A word without commas and brackets, or an object that is closed by its last character.
These are the entries that stay one entry between commas. -/
def Writable (e : String) : Prop :=
  (e.toList ≠ [] ∧ Trimmed e.toList ∧ ∀ c ∈ e.toList, c ≠ ',' ∧ isPlain c = true) ∨
    ∃ inside, Balanced inside ∧ e.toList = '\x7b' :: inside ++ ['\x7d']

theorem isEntry_iff_writable {e : String} : IsEntry e ↔ Writable e := by
  have bare : ∀ c, isBare c = true ↔ c ≠ ',' ∧ isPlain c = true := by
    intro c
    simp [isBare, isPlain, and_assoc]
  refine or_congr ⟨fun word => ⟨word.nonempty, word.trimmed, fun c hc =>
    (bare c).mp (word.all c hc)⟩, ?_⟩
    isObject_iff
  rintro ⟨nonempty, trimmed, all⟩
  exact ⟨nonempty, trimmed, fun c hc => (bare c).mpr (all c hc)⟩

/-- Entries that are read can be written. -/
theorem writable_of_extract {anchor : Anchor} {content : List Char} {a : ArrayLiteral}
    (found : extract anchor content = .ok a) : ∀ e ∈ a.entries, Writable e := by
  rw [extract] at found
  split at found
  · cases found
  · obtain ⟨-, -, -, -, inside⟩ := extractAt_eq_ok_iff.mp found
    intro e he
    exact isEntry_iff_writable.mp ((reads_iff.mpr inside).isEntry e he).1

/-- **Entries that are written are read back.**  The array is found where it was, with the text
around it unchanged, and writing the entries that are found there changes nothing.  All entries
that are found in any text can be written. -/
theorem extract_text {name : String} {content : List Char} {a : ArrayLiteral}
    (plain : ∀ c ∈ name.toList, isPlain c = true)
    (found : extract (.array name) content = .ok a) :
    Placed content a ∧
      (∀ es, (∀ e ∈ es, Writable e) →
        ∃ b, extract (.array name) (text { a with entries := es }) = .ok b ∧
        b.entries = es ∧ b.start = a.start ∧ b.before = a.before ∧ b.after = a.after ∧
        Placed (text { a with entries := es }) b ∧ b.text = text { a with entries := es }) ∧
      ∀ anchor other b, extract anchor other = .ok b → ∀ e ∈ b.entries, Writable e := by
  have unbracketed : Unbracketed name := fun c hc => (isPlain_iff.mp (plain c hc)).1
  obtain ⟨rfl, opens, -⟩ := (extract_eq_ok_iff unbracketed).mp found
  refine ⟨placed_of_text rfl, fun es writable => ?_, fun _ _ _ => writable_of_extract⟩
  have reads : Reads (join ", " es).toList es :=
    reads_join fun e he => isEntry_iff_writable.mpr (writable e he)
  exact ⟨⟨a.before, (join ", " es).toList, a.after, es⟩,
    (extract_eq_ok_iff unbracketed).mpr ⟨rfl, opens, reads⟩,
    rfl, rfl, rfl, rfl, placed_of_text rfl, rfl⟩

/-- A word and an object take the place of what stands in the array, before a second array of
the same name. -/
theorem extract_text_twoArrays :
    (∀ c ∈ "a".toList, isPlain c = true) ∧
      extract (.array "a") "a: [x,, y] a: []".toList = .ok ⟨"a: ".toList, "x,, y".toList,
        " a: []".toList, ["x", "y"]⟩ ∧
      (∀ e ∈ ["é z", "\x7bb: [1, 2]\x7d"], Writable e) ∧
      ∃ b, extract (.array "a") "a: [é z, \x7bb: [1, 2]\x7d] a: []".toList = .ok b ∧
        b.entries = ["é z", "\x7bb: [1, 2]\x7d"] := by
  have plain : ∀ c ∈ "a".toList, isPlain c = true := forall_mem_of_all (by decide)
  have found : extract (.array "a") "a: [x,, y] a: []".toList
      = .ok ⟨"a: ".toList, "x,, y".toList, " a: []".toList, ["x", "y"]⟩ := by decide
  have list : Balanced "1, 2".toList :=
    .plain (by decide) (.plain (by decide) (.plain (by decide) (.plain (by decide) .nil)))
  have inside : Balanced "b: [1, 2]".toList :=
    .plain (by decide) (.plain (by decide)
      (.plain (by decide) (.group (by decide : isOpening '[' = true) list .nil)))
  have writable : ∀ e ∈ ["é z", "\x7bb: [1, 2]\x7d"], Writable e := by
    intro e he
    rcases List.mem_pair.mp he with rfl | rfl
    · exact .inl ⟨by decide +kernel, (by decide +kernel : trim "é z".toList = "é z".toList),
        forall_mem_of_all (by decide +kernel)⟩
    · exact .inr ⟨_, inside, by decide⟩
  obtain ⟨b, again, entries, -⟩ := (extract_text plain found).2.1 _ writable
  exact ⟨plain, found, writable, b, again, entries⟩

end Attestation.ArrayLiteral
