import Attestation.Proofs.Script.ImportLines

/-!
# Import lines are read back

Statements that are made as a reader finds them, and that can be read back one by one, are read
back together from their lines, and the lines are the block (`ofText_renderImports`).  A
default import may be called `from`, and names may be renamed inside their braces.

## Design notes

Reading is a search for the leftmost match, so that a line is not read back for its own sake: a
match could begin inside the line before, or go on over its end.  Neither happens behind a
statement that ends with its quote and a semicolon, which is what the induction over the lines
uses.  That each line is read back when it stands alone is the condition, and not that its
parts are plain; it is decidable, and weaker.
-/

namespace Attestation

open Text

namespace Import

instance (p : Char → Bool) (s : String) : Decidable (IsWord p s) :=
  decidable_of_iff (s.toList ≠ [] ∧ trim s.toList = s.toList ∧ s.toList.all p = true)
    ⟨fun ⟨nonempty, trimmed, all⟩ => ⟨nonempty, trimmed, List.all_eq_true.mp all⟩,
      fun h => ⟨h.nonempty, h.trimmed, List.all_eq_true.mpr h.all⟩⟩

instance (i : Import) : Decidable i.WellFormed :=
  decidable_of_iff
    ((∀ s ∈ i.default.toList, IsWord ImportBlock.isDefaultName s) ∧
      (∀ s ∈ i.named.toList, IsWord isListedName s) ∧
      (∀ s ∈ i.wildcard.toList, IsWord ImportBlock.isWildcardName s) ∧
      trim i.module.toList = i.module.toList ∧ i.module.toList.all ImportBlock.isModule = true)
    ⟨fun ⟨default, named, wildcard, trimmed, module⟩ =>
        ⟨fun s hs => default s (Option.mem_toList.mpr hs), named,
          fun s hs => wildcard s (Option.mem_toList.mpr hs), trimmed,
            List.all_eq_true.mp module⟩,
      fun h => ⟨fun s hs => h.default s (Option.mem_toList.mp hs), h.named,
        fun s hs => h.wildcard s (Option.mem_toList.mp hs), h.trimmed,
          List.all_eq_true.mpr h.module⟩⟩

end Import

namespace ImportBlock

/-- The block of a text goes from where its first statement starts to where the text behind it
does. -/
theorem span_eq {cs front : List Char} (h : (ofText cs).front = some front) :
    (ofText cs).span = some (utf8Size front, utf8Size cs - utf8Size (ofText cs).back) := by
  rw [span, h, text_ofText]
  rfl

/-- **Lines are read back.**  From the lines of statements that can be read back exactly these
are found, in order and with their repetitions, and the block is the whole text.  The span
counts bytes, as it is used to cut the text. -/
theorem ofText_renderImports {imports : List Import} (nonempty : imports ≠ [])
    (wf : ∀ i ∈ imports, i.WellFormed) (legible : ∀ i ∈ imports, i.Legible) :
    (ofText (renderImports imports).toList).imports = imports ∧
      (ofText (renderImports imports).toList).span
        = some (0, utf8Size (renderImports imports).toList) := by
  have readable : Readable imports := ⟨wf, fun i hi => .inl (legible i hi)⟩
  have cut : Cut imports [] imports [] := {
    eq := by simp
    nonempty := nonempty
    front := by simp
    back := by simp
    first := fun i hi => legible i (List.mem_of_mem_head? hi)
    last := fun i hi => legible i (List.mem_of_getLast? hi) }
  have calm : Calm [] := fun c _ part => by simpa using List.infix_nil.mp part
  obtain ⟨found, front, back⟩ := cut.ofText_eq readable calm (silent_nil [])
  have text : [] ++ importLines imports ++ [] = (renderImports imports).toList := by
    rw [List.nil_append, List.append_nil, importLines]
  rw [text] at found front back
  constructor
  · rw [found, List.filter_eq_self]
    exact fun i hi => decide_eq_true (legible i hi)
  · rw [span_eq front, back]
    rfl

/-- Words of a statement as names, a statement without names and a module twice. -/
def oddImports : List Import :=
  [⟨some "from", NameSet.ofList ["as", "a as from"], none, "./m"⟩,
    ⟨none, NameSet.empty, none, "./m"⟩,
    ⟨none, NameSet.empty, some "import'", "x from y"⟩]

/-- Words such as `from` and `as` may be names, and quotes and blanks may stand in modules. -/
theorem ofText_renderImports_oddImports :
    (∀ i ∈ oddImports, i.WellFormed) ∧ (∀ i ∈ oddImports, i.Legible) ∧
      (ofText (renderImports oddImports).toList).imports = oddImports ∧
      (ofText (renderImports oddImports).toList).span = some (0, 99) :=
  have wf : ∀ i ∈ oddImports, i.WellFormed := by decide +kernel
  have legible : ∀ i ∈ oddImports, i.Legible := by decide +kernel
  have read := ofText_renderImports (by decide) wf legible
  ⟨wf, legible, read.1, read.2.trans (by decide)⟩

end ImportBlock

end Attestation
