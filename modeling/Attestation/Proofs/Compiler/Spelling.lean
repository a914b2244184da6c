import Attestation.Proofs.Path.Joining
import Attestation.Proofs.Path.Parent
import Attestation.Proofs.Record.Sparing

/-!
# Spellings of the interface directory

The interface directory is listed through the file system, which passes over dots and repeated
separators, while the sources of a build are looked up by their texts.  The texts agree for all
spellings of a directory that start alike, and then the spelling does not matter; but a leading
dot stays part of the text, and no build of plain sources has it
(`TypeUnit.loadAll_of_respells`).

## Main definitions

* `Path.Respells`: two ways to write the same moves.
* `BuildInfo.IsPlain`: builds of sources without a leading dot.
* `Plan.EndsAlike`: results that only differ in how the directory is written that could not be
  listed.

## Design notes

Spellings are compared by the moves that they ask of the file system, since that is what a user
means by the same directory.  A failure quotes the directory as it was written, so runs can
agree only up to that quote; this is what `Plan.EndsAlike` allows, and nothing else.
-/

namespace Attestation

open FileTree Plan Text

/-! ## Spellings -/

namespace Path

/-- Two ways to write a relative path. -/
structure Respells (p q : Path) : Prop where
  relative : p.isAbsolute = false
  relative' : q.isAbsolute = false
  moves : p.moves = q.moves

instance (p q : Path) : Decidable (p.Respells q) :=
  decidable_of_iff (p.isAbsolute = false ∧ q.isAbsolute = false ∧ p.moves = q.moves)
    ⟨fun ⟨relative, relative', moves⟩ => ⟨relative, relative', moves⟩,
      fun h => ⟨h.relative, h.relative', h.moves⟩⟩

/-- Paths that start with a dot as a piece of its own. -/
def IsDotted (p : Path) : Prop := startsHere p.text.toList = true

instance (p : Path) : Decidable p.IsDotted := inferInstanceAs (Decidable (_ = _))

/-- The dot that a path starts with, if it does. -/
def dot (p : Path) : List String := if p.IsDotted then ["."] else []

theorem texts_ofPiece? (cut : List (List Char)) :
    (cut.filterMap Component.ofPiece?).map Component.text = movesOf cut := by
  induction cut with
  | nil => rfl
  | cons piece more ih =>
      cases idle : isIdle piece with
      | true =>
          have nothing : Component.ofPiece? piece = none := by
            rw [Component.ofPiece?, if_pos idle]
          rw [List.filterMap_cons_none nothing, movesOf_cons_idle idle, ih]
      | false =>
          obtain ⟨c, something, text⟩ :
            ∃ c, Component.ofPiece? piece = some c ∧ c.text = String.ofList piece := by
            by_cases up : piece = ['.', '.']
            · subst up
              exact ⟨.up, rfl, rfl⟩
            · exact ⟨.item (String.ofList piece), by simp [Component.ofPiece?, idle, up], rfl⟩
          rw [List.filterMap_cons_some something, movesOf,
            List.filter_cons_of_pos (by simp [idle]), List.map_cons,
            List.map_cons, ih, text, movesOf]

theorem plainText_eq {p : Path} (relative : p.isAbsolute = false) :
    p.plainText = Text.join "/" (p.dot ++ p.moves) := by
  unfold plainText components
  dsimp only
  rw [if_neg (by simp [relative]), dot, moves, ← texts_ofPiece?]
  by_cases dotted : startsHere p.text.toList = true
  · rw [if_pos dotted, if_pos (show p.IsDotted from dotted)]
    rfl
  · rw [if_neg dotted, if_neg (show ¬ p.IsDotted from dotted)]
    rfl

theorem nonempty_of_mem {p : Path} {piece : String} (h : piece ∈ p.dot ++ p.moves) :
    piece ≠ "" := by
  rintro rfl
  rcases List.mem_append.mp h with first | inner
  · unfold dot at first
    split at first
    · exact absurd first (by decide)
    · cases first
  · obtain ⟨piece, hpiece, text⟩ := List.mem_map.mp inner
    obtain rfl : piece = [] := String.ofList_injective text
    exact absurd (List.mem_filter.mp hpiece).2 (by decide)

theorem mem_text_iff {p : Path} {c : Char} (separate : c ≠ '/') (dot : c ≠ '.') :
    c ∈ p.text.toList ↔ ∃ piece ∈ p.moves, c ∈ piece.toList := by
  constructor
  · intro h
    rw [show p.text.toList = List.intercalate ['/'] (List.splitOn '/' p.text.toList) from
      (List.intercalate_splitOn '/').symm] at h
    have pieces : c ∈ (Text.join "/"
      ((List.splitOn '/' p.text.toList).map String.ofList)).toList := by
      rw [toList_join, List.map_map]
      simpa using h
    rcases mem_join pieces with slash | ⟨name, hname, hc⟩
    · exact absurd (List.mem_singleton.mp slash) separate
    · obtain ⟨piece, hpiece, rfl⟩ := List.mem_map.mp hname
      refine ⟨_, List.mem_map.mpr ⟨piece, List.mem_filter.mpr ⟨hpiece, ?_⟩, rfl⟩, hc⟩
      rw [String.toList_ofList] at hc
      cases idle : isIdle piece with
      | false => rfl
      | true =>
          rcases Bool.or_eq_true_iff.mp idle with empty | here
          · rw [List.isEmpty_iff.mp empty] at hc
            cases hc
          · rw [of_decide_eq_true here] at hc
            exact absurd (List.mem_singleton.mp hc) dot
  · rintro ⟨name, hname, hc⟩
    obtain ⟨piece, hpiece, rfl⟩ := List.mem_map.mp hname
    rw [String.toList_ofList] at hc
    exact (infix_of_mem_splitOn (List.mem_filter.mp hpiece).1).subset hc

end Path

/-! ## Listings -/

namespace FileTree

variable {t : FileTree}

/-- What listing makes of where a walk ends. -/
def listed (t : FileTree) : Except IoError Target → Except IoError (List DirEntry)
  | .ok (.found place .dir) => .ok (t.entriesAt place)
  | .ok (.found _ (.file _)) => .error .notADirectory
  | .ok (.missing _) => .error .notFound
  | .error e => .error e

theorem list_eq_listed {p : Path} (h : IsPath p) :
    t.list p = t.listed (t.walk [] (pieces p)) := by
  have nul : ¬ p.text.toList.contains '\x00' = true := by simpa using h.1
  have empty : ¬ p.text.isEmpty = true := by simpa using h.2
  unfold list follow
  rw [if_neg nul, if_neg empty]
  cases t.walk [] (pieces p) with
  | error e => rfl
  | ok target =>
      cases target with
      | missing place => rfl
      | found place node =>
          cases node with
          | dir => rfl
          | file content => cases endsOpen p <;> rfl

/-- Dots do not matter to a listing.  They matter to where a walk ends: behind a file, or a
name that is missing, there is nothing that a dot could mean. -/
theorem listed_walk_filter (dir : Place) (names : List String) :
    t.listed (t.walk dir (names.filter (· ≠ "."))) = t.listed (t.walk dir names) := by
  induction names generalizing dir with
  | nil => rfl
  | cons name more ih =>
      by_cases here : name = "."
      · subst here
        rw [List.filter_cons_of_neg (by decide), ih]
        rfl
      rw [List.filter_cons_of_pos (by simpa using here)]
      by_cases up : name = ".."
      · subst up
        exact ih _
      rw [walk_name here up, walk_name here up]
      cases t.get? (dir ++ [name]) with
      | none => dsimp only; split <;> split <;> rfl
      | some node =>
          cases node with
          | dir => exact ih _
          | file content => dsimp only; split <;> split <;> rfl

/-- **A directory is listed alike under all its spellings**, but the empty path is none. -/
theorem list_resolve_of_respells {s : Settings} {p q : Path} (h : p.Respells q)
    (named : (s.resolve p).text ≠ "")
    (named' : (s.resolve q).text ≠ "") : t.list (s.resolve p) = t.list (s.resolve q) := by
  unfold Settings.resolve at named named' ⊢
  generalize s.root = root at named named' ⊢
  have text : ∀ {p : Path}, p.isAbsolute = false →
    (root.join p).text.toList = root.frontOf.toList ++ p.text.toList := by
    intro p relative
    rw [Path.join_of_relative root relative, String.toList_append]
  have nul : '\x00' ∈ (root.join p).text.toList ↔ '\x00' ∈ (root.join q).text.toList := by
    rw [text h.relative, text h.relative', List.mem_append, List.mem_append,
      Path.mem_text_iff (p := p) (by decide)
      (by decide), Path.mem_text_iff (p := q) (by decide) (by decide), h.moves]
  by_cases hp : '\x00' ∈ (root.join p).text.toList
  · have refused : ∀ {p : Path}, '\x00' ∈ p.text.toList → t.list p = .error .invalidInput := by
      intro p hp
      rw [list, follow, if_pos (by simpa using hp)]
      rfl
    rw [refused hp, refused (nul.mp hp)]
  · have way : (pieces (root.join p)).filter (· ≠ ".")
        = (pieces (root.join q)).filter (· ≠ ".") := by
      rw [Path.pieces_join root h.relative, Path.pieces_join root h.relative',
        List.filter_append, List.filter_append,
        ← Path.moves_eq_filter p, ← Path.moves_eq_filter q, h.moves]
    rw [list_eq_listed ⟨hp, named⟩, list_eq_listed ⟨fun hq => hp (nul.mpr hq), named'⟩,
      ← listed_walk_filter, way,
      listed_walk_filter]

end FileTree

/-! ## Sources -/

/-- Builds of sources without a leading dot. -/
def BuildInfo.IsPlain (b : BuildInfo) : Prop :=
  ∀ name ∈ b.sourceNames, ¬ "./".toList <+: name.toList

instance (b : BuildInfo) : Decidable b.IsPlain :=
  inferInstanceAs (Decidable (∀ name ∈ b.sourceNames, ¬ "./".toList <+: name.toList))

/-- The settings with another interface directory. -/
def Settings.withInterfaces (s : Settings) (dir : Path) : Settings :=
  { s with locations := { s.locations with typeInterfaceDefinitions := dir } }

namespace TypeUnit

variable {p q : Path}

theorem sourcePath_eq (relative : p.isAbsolute = false) (file : String) :
    sourcePath p file = join "/" (p.dot ++ p.moves ++ [file]) := by
  rw [sourcePath, Path.plainText_eq relative]
  cases parts : p.dot ++ p.moves with
  | nil =>
      rw [if_pos (by decide), List.nil_append]
      simp [join]
  | cons piece more =>
      have full : (join "/" (piece :: more)).toList ≠ [] := by
        intro empty
        have inside : piece.toList <:+: (join "/" (piece :: more)).toList :=
          infix_join List.mem_cons_self
        rw [empty, List.infix_nil, String.toList_eq_nil_iff] at inside
        exact Path.nonempty_of_mem (parts ▸ List.mem_cons_self) inside
      rw [if_neg (by simpa using full), ← String.toList_inj]
      simp only [String.toList_append, toList_join, List.map_append]
      rw [intercalate_append (by simp) (by simp), List.map_singleton,
        List.intercalate_singleton]

/-- A leading dot stays part of the path of a source. -/
theorem sourcePath_of_respells (h : p.Respells q) (dotted : p.IsDotted) (plain : ¬ q.IsDotted)
    (file : String) :
    sourcePath p file = "./" ++ sourcePath q file := by
  rw [sourcePath_eq h.relative, sourcePath_eq h.relative', h.moves, Path.dot, if_pos dotted,
    Path.dot, if_neg plain,
    ← String.toList_inj]
  simp only [String.toList_append, toList_join, List.map_append]
  rw [List.append_assoc, intercalate_append (by simp) (by simp)]
  rfl

/-- **Sources have the same paths** exactly under spellings that start alike.  Dots and
separators within a path go when its components are taken, and a dot in front does not. -/
theorem sourcePath_eq_iff (h : p.Respells q) (file : String) :
    sourcePath p file = sourcePath q file ↔ (p.IsDotted ↔ q.IsDotted) := by
  have longer : ∀ s : String, "./" ++ s ≠ s := by
    intro s same
    have length := congrArg (fun s : String => s.toList.length) same
    simp only [String.toList_append, List.length_append] at length
    exact absurd length (by simp)
  constructor
  · intro same
    by_cases dotted : p.IsDotted <;> by_cases dotted' : q.IsDotted
    · exact iff_of_true dotted dotted'
    · rw [sourcePath_of_respells h dotted dotted'] at same
      exact absurd same (longer _)
    · rw [sourcePath_of_respells ⟨h.relative', h.relative, h.moves.symm⟩ dotted'
        dotted] at same
      exact absurd same.symm (longer _)
    · exact iff_of_false dotted dotted'
  · intro alike
    rw [sourcePath_eq h.relative, sourcePath_eq h.relative', h.moves, Path.dot,
      if_congr alike rfl rfl, ← Path.dot]

end TypeUnit

/-! ## Loading -/

/-- Results that only differ in how the directory is written that could not be listed. -/
inductive Plan.EndsAlike {α : Type} (p q : Path) : Except Failure α × Workspace →
    Except Failure α × Workspace → Prop where
  | same (run : Except Failure α × Workspace) : EndsAlike p q run run
  | unlisted (e : IoError) (w : Workspace) :
      EndsAlike p q (.error ⟨[s!"Failed to read directory {p.text}"], .io e⟩, w)
        (.error ⟨[s!"Failed to read directory {q.text}"], .io e⟩, w)

namespace TypeUnit

variable {s : Settings} {p q : Path}

theorem runIn_filesEnding_eq (ending : String) (dir : Path) (v : Workspace) :
    (filesEnding ending dir).runIn v =
      match v.files.list dir with
      | .ok entries => (.ok (fileNames ending entries), v)
      | .error e => (.error ⟨[s!"Failed to read directory {dir.text}"], .io e⟩, v) := by
  have asked : (filesEnding ending dir).runIn v
      = ((checked s!"Failed to read directory {dir.text}" (v.files.list dir)).bind
        fun entries =>
          .done (fileNames ending entries)).runIn v := rfl
  rw [asked]
  cases v.files.list dir <;> rfl

/-- The build is loaded first, whatever the interface directory is. -/
theorem runIn_loadAll (s : Settings) (dir : Path) (w : Workspace) :
    (loadAll (s.withInterfaces dir)).runIn w =
      match (BuildInfo.load s).runIn w with
      | (.ok build, v) =>
          match v.files.list (s.resolve dir) with
          | .ok entries =>
              ((orFail .load ((fileNames ".sol" entries).mapM (find build dir))).map sorted, v)
          | .error e =>
              (.error ⟨[s!"Failed to read directory {(s.resolve dir).text}"], .io e⟩, v)
      | (.error failure, v) => (.error failure, v) := by
  have first : (loadAll (s.withInterfaces dir)).runIn w = ((BuildInfo.load s).bind fun build =>
      (filesEnding ".sol" (s.resolve dir)).bind fun files =>
        (ofExcept (orFail .load (files.mapM (find build dir)))).bind fun units => .done
        (sorted units)).runIn w := rfl
  rw [first, runIn_bind]
  rcases (BuildInfo.load s).runIn w with ⟨failure | build, v⟩
  · rfl
  dsimp only
  rw [runIn_bind, runIn_filesEnding_eq]
  cases v.files.list (s.resolve dir) with
  | error e => rfl
  | ok entries =>
      dsimp only
      cases (fileNames ".sol" entries).mapM (find build dir) <;> rfl

/-- A build of plain sources has none with a leading dot. -/
theorem find_of_isDotted {build : BuildInfo} (plain : build.IsPlain) (h : p.Respells q)
    (dotted : p.IsDotted)
    (plain' : ¬ q.IsDotted) (file : String) :
    find build p file = .error (.missingSource ("./" ++ sourcePath q file)) := by
  have key := sourcePath_of_respells h dotted plain' file
  have absent : build.sources.get? (sourcePath p file) = none := by
    cases found : build.sources.get? (sourcePath p file) with
    | none => rfl
    | some tree =>
        refine absurd ?_ (plain _ (NameMap.mem_names_of_get? found))
        rw [key, String.toList_append]
        exact List.prefix_append _ _
  rw [find, absent, key]

/-- With a build of plain sources, a leading dot makes loading fail on the first interface. -/
theorem runIn_loadAll_of_isDotted (h : p.Respells q) (named : (s.resolve p).text ≠ "")
    (named' : (s.resolve q).text ≠ "")
    (dotted : p.IsDotted) (plain : ¬ q.IsDotted) {w v : Workspace} {build : BuildInfo}
    {file : String} {more : List String}
    (built : (BuildInfo.load s).runIn w = (.ok build, v)) (sources : build.IsPlain)
    (files : (filesEnding ".sol" (s.resolve q)).runIn v = (.ok (file :: more), v)) :
    (loadAll (s.withInterfaces p)).runIn w
      = (.error (Failure.of (.load (.missingSource ("./" ++ sourcePath q file)))), v) := by
  rw [runIn_filesEnding_eq, ← list_resolve_of_respells h named named'] at files
  rw [runIn_loadAll, built]
  dsimp only
  cases listed : v.files.list (s.resolve p) with
  | error e =>
      rw [listed] at files
      cases files
  | ok entries =>
      rw [listed, Prod.mk.injEq, Except.ok.injEq] at files
      dsimp only
      rw [files.1, List.mapM_cons, find_of_isDotted sources h dotted plain]
      rfl

/-- **Spellings of the interface directory.**  The sources of all files are looked up alike
exactly under spellings that start alike, and then loading the types ends alike.  With a build
of plain sources, a leading dot makes it fail on the first interface, since the build knows its
source by the path without the dot. -/
theorem loadAll_of_respells (h : p.Respells q) (named : (s.resolve p).text ≠ "")
    (named' : (s.resolve q).text ≠ "") :
    (∀ file, sourcePath p file = sourcePath q file ↔ (p.IsDotted ↔ q.IsDotted)) ∧
    ((p.IsDotted ↔ q.IsDotted) → ∀ w, EndsAlike (s.resolve p) (s.resolve q)
      ((loadAll (s.withInterfaces p)).runIn w) ((loadAll (s.withInterfaces q)).runIn w)) ∧
    (p.IsDotted → ¬ q.IsDotted → ∀ w v build file more, (BuildInfo.load s).runIn w
      = (.ok build, v) → build.IsPlain →
      (filesEnding ".sol" (s.resolve q)).runIn v = (.ok (file :: more), v) →
      (loadAll (s.withInterfaces p)).runIn w
        = (.error (Failure.of (.load (.missingSource ("./" ++ sourcePath q file)))), v)) := by
  refine ⟨sourcePath_eq_iff h, fun alike w => ?_, ?_⟩
  · have found : ∀ build, find build p = find build q := by
      intro build
      funext file
      rw [find, find, (sourcePath_eq_iff h file).mpr alike]
    rw [runIn_loadAll, runIn_loadAll]
    rcases (BuildInfo.load s).runIn w with ⟨failure | build, v⟩
    · exact .same _
    dsimp only
    rw [list_resolve_of_respells h named named', found]
    cases v.files.list (s.resolve q) with
    | ok entries => exact .same _
    | error e => exact .unlisted e v
  · intro dotted plain w v build file more built sources files
    exact runIn_loadAll_of_isDotted h named named' dotted plain built sources files

/-! ### The usual project -/

/-- The usual project. -/
def usual : Workspace := { files := usualTree }

theorem runIn_build_usual : (BuildInfo.load usualSettings).runIn usual
    = (.ok ⟨NameMap.ofList [("contracts/interfaces/types/IT.sol", TypeRecord.smallType.tree)]⟩,
      usual) :=
  runIn_loadBuild_usual rfl rfl

theorem runIn_files_usual :
    (filesEnding ".sol" (usualSettings.resolve ⟨"contracts/interfaces/types"⟩)).runIn usual
      = (.ok ["IT.sol"], usual) := by
  rw [runIn_filesEnding_eq, show usual.files.list _ = .ok [⟨"IT.sol", true⟩] from rfl]
  exact congrArg (fun files => (Except.ok files, usual)) (List.mergeSort_singleton _)

/-- Dots and separators inside the path of the interface directory do not matter to the usual
project; a dot in front does. -/
theorem loadAll_of_respells_usual :
    (loadAll (usualSettings.withInterfaces ⟨"contracts//interfaces/./types/"⟩)).runIn usual
      = (.ok [TypeRecord.smallType], usual) ∧
    (loadAll (usualSettings.withInterfaces ⟨"./contracts/interfaces/types"⟩)).runIn usual
      = (.error (Failure.of (.load (.missingSource "./contracts/interfaces/types/IT.sol"))),
        usual) := by
  have plain : (loadAll (usualSettings.withInterfaces ⟨"contracts/interfaces/types"⟩)).runIn
    usual
      = (.ok [TypeRecord.smallType], usual) := runIn_loadTypes_usualTree rfl
  constructor
  · have alike := (@loadAll_of_respells usualSettings ⟨"contracts//interfaces/./types/"⟩
      ⟨"contracts/interfaces/types"⟩
      (by decide) (by decide) (by decide)).2.1 (by decide) usual
    rw [plain] at alike
    generalize (loadAll _).runIn usual = run at alike ⊢
    cases alike
    rfl
  · exact (@loadAll_of_respells usualSettings ⟨"./contracts/interfaces/types"⟩
      ⟨"contracts/interfaces/types"⟩
      (by decide) (by decide) (by decide)).2.2 (by decide) (by decide) usual usual _ _
        [] runIn_build_usual (by decide)
      runIn_files_usual

/-- With a dot in front of the interface directory the usual project has no source for its
interface. -/
theorem exists_respelling_missing : ∃ (s : Settings) (p q : Path) (w : Workspace),
    p.Respells q ∧
    (∃ build v, (BuildInfo.load s).runIn w = (.ok build, v) ∧ build.IsPlain) ∧
    (∃ units, ((loadAll (s.withInterfaces q)).runIn w).1 = .ok units) ∧
    ∃ source, ((loadAll (s.withInterfaces p)).runIn w).1
      = .error (Failure.of (.load (.missingSource source))) := by
  have missing := @runIn_loadAll_of_isDotted usualSettings ⟨"./contracts/interfaces/types"⟩
    ⟨"contracts/interfaces/types"⟩ (by decide) (by decide) (by decide) (by decide)
      (by decide) _ _ _ _ _
    runIn_build_usual (by decide) runIn_files_usual
  exact ⟨usualSettings, ⟨"./contracts/interfaces/types"⟩, ⟨"contracts/interfaces/types"⟩,
    usual, by decide,
    ⟨_, _, runIn_build_usual, by decide⟩,
    ⟨_, congrArg Prod.fst (runIn_loadTypes_usualTree rfl)⟩,
    ⟨_, congrArg Prod.fst missing⟩⟩

end TypeUnit

end Attestation
