import Attestation.Contract.Write
import Attestation.Proofs.Text.Quotes
import Attestation.Proofs.Text.Search

/-!
# Imports of generated contracts

The imports of a contract are read off its lines.  Those of a generated contract are the
specifiers that it was filled with, as long as these hold no double quote, no backslash and no
line end, and the name of its type is one line (`importsOf_text`).

* `Contract.importsOf`: the paths that a source imports.
* `Contract.readBack`: what is imported by lines that are meant to import certain paths.
* `Contract.Kind.imported`: the files that a contract is meant to import.
* `Contract.Quiet`: the start of a line that is no import.

## Design notes

What a contract imports is read off its text by a small reader, and not taken from the fillings
of the template: only so does a quote in a path show, which ends the specifier too early.  The
reader knows import lines and nothing else of the language, so the template is asked to hold no
line that it could mistake for one.
-/

namespace Attestation.Contract

open Text

/-! ## Reading imports -/

/-- The words in front of an imported path. -/
def importWord : List Char := "import \"".toList

/-- The path that a line imports. -/
def importOf? (line : List Char) : Option String :=
  (List.isPrefixOf? importWord line).bind fun rest => (untilQuote? rest).map fun (path, _) =>
  String.ofList path

/-- The paths that a source imports, in order. -/
def importsOf (text : String) : List String :=
  (List.splitOn '\n' text.toList).filterMap importOf?

theorem importsOf_unlines {lines : List String} (nonempty : lines ≠ [])
    (h : ∀ line ∈ lines, '\n' ∉ line.toList) :
    importsOf (unlines lines) = lines.filterMap fun line => importOf? line.toList := by
  have pieces : ∀ piece ∈ lines.map String.toList, '\n' ∉ piece := by
    intro piece hpiece
    obtain ⟨line, hline, rfl⟩ := List.mem_map.mp hpiece
    exact h line hline
  have text : (unlines lines).toList = List.intercalate ['\n'] (lines.map String.toList) :=
    toList_join _ _
  rw [importsOf, text, List.splitOn_intercalate _ pieces (by simpa using nonempty),
    List.filterMap_map]
  rfl

/-! ## Lines -/

/-- A text without line ends, as long as the words of an import, which are not what it starts
with.  Such a text at the front of a line keeps an import from being read there. -/
structure Quiet (s : String) : Prop where
  oneLine : '\n' ∉ s.toList
  long : importWord.length ≤ s.toList.length
  other : ¬ importWord <+: s.toList

instance (s : String) : Decidable (Quiet s) :=
  decidable_of_iff ('\n' ∉ s.toList ∧ importWord.length ≤ s.toList.length ∧
    ¬ importWord <+: s.toList)
    ⟨fun ⟨oneLine, long, other⟩ => ⟨oneLine, long, other⟩,
      fun h => ⟨h.oneLine, h.long, h.other⟩⟩

namespace Quiet

variable {s : String}

/-- What stands behind the start of a line does not make it an import. -/
theorem append (h : Quiet s) {t : String} (ht : '\n' ∉ t.toList) : Quiet (s ++ t) where
  oneLine := by simp [h.oneLine, ht]
  long := by
    rw [String.toList_append, List.length_append]
    exact h.long.trans (Nat.le_add_right _ _)
  other := by
    intro start
    rw [String.toList_append] at start
    exact h.other (List.prefix_of_prefix_length_le start (List.prefix_append _ _) h.long)

theorem importOf?_eq_none (h : Quiet s) : importOf? s.toList = none := by
  rw [importOf?, Option.bind_eq_none_iff]
  intro rest start
  exact absurd ⟨rest, List.append_eq_of_isPrefixOf?_eq_some start⟩ h.other

end Quiet

/-- A line that imports nothing. -/
structure ImportsNothing (line : String) : Prop where
  oneLine : '\n' ∉ line.toList
  nothing : importOf? line.toList = none

instance (line : String) : Decidable (ImportsNothing line) :=
  decidable_of_iff ('\n' ∉ line.toList ∧ importOf? line.toList = none)
    ⟨fun ⟨oneLine, nothing⟩ => ⟨oneLine, nothing⟩, fun h => ⟨h.oneLine, h.nothing⟩⟩

theorem Quiet.importsNothing {s : String} (h : Quiet s) : ImportsNothing s :=
  ⟨h.oneLine, h.importOf?_eq_none⟩

/-- The line that imports a path. -/
def importLine (path : String) : String := "import \"" ++ path ++ "\";"

/-- The paths that are read off the lines that import these. -/
def readBack (imports : List String) : List String :=
  imports.filterMap fun path => importOf? (importLine path).toList

theorem importOf?_importLine {path : String} (h : IsVerbatim path) :
    importOf? (importLine path).toList = some path := by
  have line : (importLine path).toList = importWord ++ (path.toList ++ '"' :: [';']) := by
    rw [importLine, String.toList_append, String.toList_append, List.append_assoc]
    rfl
  rw [line, importOf?, isPrefixOf?_append, Option.bind_some, untilQuote?_append h]
  exact congrArg some String.ofList_toList

theorem readBack_of_isVerbatim {imports : List String}
    (h : ∀ path ∈ imports, IsVerbatim path) :
    readBack imports = imports :=
  (List.filterMap_congr fun path hpath => importOf?_importLine (h path hpath)).trans
    List.filterMap_some

/-- Import lines between lines that import nothing. -/
theorem importsOf_lines {head more : List String} (imports : List String)
    (nonempty : head ≠ [])
    (hhead : ∀ line ∈ head, ImportsNothing line)
    (himports : ∀ path ∈ imports, '\n' ∉ path.toList)
    (hmore : ∀ line ∈ more, ImportsNothing line) :
    importsOf (unlines (head ++ (imports.map importLine ++ more))) = readBack imports := by
  have silent : ∀ lines : List String, (∀ line ∈ lines, ImportsNothing line) →
      lines.filterMap (fun line => importOf? line.toList) = [] :=
    fun lines h => List.filterMap_eq_nil_iff.mpr fun line hline => (h line hline).nothing
  rw [importsOf_unlines (by simp [nonempty]), List.filterMap_append, List.filterMap_append,
    silent head hhead,
    List.filterMap_map, silent more hmore, List.nil_append, List.append_nil]
  · rfl
  intro line hline
  rcases List.mem_append.mp hline with hline | hline
  · exact (hhead line hline).oneLine
  · rcases List.mem_append.mp hline with hline | hline
    · obtain ⟨path, hpath, rfl⟩ := List.mem_map.mp hline
      have inside := himports path hpath
      simp [importLine, inside]
    · exact (hmore line hline).oneLine

/-! ## Generated contracts -/

theorem importsNothing_headLines : ∀ line ∈ headLines, ImportsNothing line := by decide

section Sources

variable {name typeImport : String} (hname : '\n' ∉ name.toList)
  (htype : '\n' ∉ typeImport.toList)
include hname htype

theorem importsOf_verificationInterface :
    importsOf (verificationInterface name typeImport) = readBack [typeImport] := by
  have opening : Quiet "interface I" := by decide
  have function : Quiet "    function verify" := by decide
  have argument : Quiet "        I" := by decide
  refine importsOf_lines [typeImport] (by simp [headLines]) importsNothing_headLines
    (by simpa using htype) ?_
  simp only [List.forall_mem_cons]
  exact ⟨by decide, ((opening.append hname).append (by decide)).importsNothing,
    ((function.append hname).append (by decide)).importsNothing,
    ((argument.append hname).append (by decide)).importsNothing, by decide, by decide, nofun⟩

theorem importsOf_verification {interfaceImport : String}
    (hinterface : '\n' ∉ interfaceImport.toList) :
    importsOf (verification name typeImport interfaceImport) = readBack [typeImport,
      interfaceImport] := by
  have described : Quiet " * Contract mocking verifying " := by decide
  have opening : Quiet "contract " := by decide
  have inherited : Quiet "     * @inheritdoc I" := by decide
  have function : Quiet "    function verify" := by decide
  have argument : Quiet "        I" := by decide
  have result : Quiet "        return _proof.data.attestationType == bytes32(\"" := by decide
  refine importsOf_lines [typeImport, interfaceImport] (by simp [headLines])
    importsNothing_headLines
    (List.forall_mem_cons.mpr ⟨htype, List.forall_mem_singleton.mpr hinterface⟩) ?_
  simp only [List.forall_mem_cons]
  exact ⟨by decide, by decide, ((described.append hname).append
    (by decide)).importsNothing, by decide,
    ((((opening.append hname).append (by decide)).append hname).append
      (by decide)).importsNothing, by decide,
    ((inherited.append hname).append (by decide)).importsNothing, by decide,
    ((function.append hname).append (by decide)).importsNothing,
    ((argument.append hname).append (by decide)).importsNothing, by decide,
    ((result.append hname).append (by decide)).importsNothing, by decide, by decide, nofun⟩

theorem importsOf_temporary :
    importsOf (temporary name typeImport) = readBack [typeImport] := by
  have opening : Quiet "contract I" := by decide
  have request : Quiet "    function request(I" := by decide
  have response : Quiet "    function response(I" := by decide
  have proof : Quiet "    function proof(I" := by decide
  refine importsOf_lines [typeImport] (by simp [headLines]) importsNothing_headLines
    (by simpa using htype) ?_
  simp only [List.forall_mem_cons]
  exact ⟨by decide, ((opening.append hname).append (by decide)).importsNothing,
    ((request.append hname).append (by decide)).importsNothing, by decide,
    ((response.append hname).append (by decide)).importsNothing, by decide,
    ((proof.append hname).append (by decide)).importsNothing, by decide, nofun⟩

end Sources

/-- The files that a contract imports, where the type is declared in a file of `typeDir`. -/
def Kind.imported (typeDir : Path) (name : String) : Kind → List Path
  | .verification interfaceDir =>
      [typeDir.entry (TypeName.interfaceFile name), interfaceDir.entry (interfaceFile name)]
  | .verificationInterface => [typeDir.entry (TypeName.interfaceFile name)]
  | .temporary => [typeDir.entry (TypeName.interfaceFile name)]

/-- **A generated contract imports** the specifiers of the files that it is meant to import, if
these specifiers stand for themselves between double quotes. -/
theorem importsOf_text {here dir typeDir : Path} {name : String} {kind : Kind}
    (hname : '\n' ∉ name.toList)
    (verbatim : ∀ target ∈ kind.imported typeDir name,
      IsVerbatim (Path.specifier here dir target)) :
    importsOf (kind.text here dir typeDir name)
      = (kind.imported typeDir name).map (Path.specifier here dir) := by
  have specifiers : ∀ path ∈ (kind.imported typeDir name).map (Path.specifier here dir),
    IsVerbatim path :=
    List.forall_mem_map.mpr verbatim
  refine Eq.trans ?_ (readBack_of_isVerbatim specifiers)
  have oneLine := fun target htarget => (verbatim target htarget).not_newline
  cases kind with
  | verification interfaceDir =>
      exact importsOf_verification hname (oneLine _ (by simp [Kind.imported]))
        (oneLine _ (by simp [Kind.imported]))
  | verificationInterface =>
      exact importsOf_verificationInterface hname (oneLine _ (by simp [Kind.imported]))
  | temporary => exact importsOf_temporary hname (oneLine _ (by simp [Kind.imported]))

end Attestation.Contract
