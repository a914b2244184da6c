import Attestation.Command.Run
import Attestation.Proofs.Contract.Imports
import Attestation.Proofs.Workspace.WorkingDirectory

/-!
# Imports that resolve

A run that writes verification contracts and their interfaces writes files whose imports lead
to files that are there: the interface that declares the type, which the run leaves alone, and
the interface of the contract, which the same run has written (`written_resolves`).  The paths
may lead anywhere, with dots and parent steps, from any working directory, but the specifiers
are pasted into the sources as they are: where a name on the way holds a double quote, the
source imports something else (`exists_import_not_resolved`).

## Main definitions

* `FileTree.HoldsInterfaces`: directories whose files declare types and are named for them.
* `Contract.Declares`: the types of a directory that are meant.
* `Contract.Resolves`: specifiers that lead to the files that they are meant to lead to.

## Design notes

Relative paths are seen from the working directory of the process.  The plan is run in a tree
in which this directory is the root (`Plan.seenFrom`), since a parent step out of it must be
followed in the whole tree.  A specifier is followed from the place of the file that holds it,
as a compiler does it, and what is compared is the place that it leads to.
-/

namespace Attestation

open FileTree Text

/-! ## Files of types -/

/-- Every file of the directory at a place is named for a type. -/
def FileTree.HoldsInterfaces (t : FileTree) (dir : Place) : Prop :=
  ∀ file content, t.get? (dir ++ [file]) = some (.file content) →
    ∃ name, '/' ∉ name.toList ∧ file = TypeName.interfaceFile name

namespace TypeName

theorem dropEndString?_interfaceFile (name : String) :
    dropEndString? ".sol" (interfaceFile name) = some ("I" ++ name) := by
  have ending : ".sol".toList.isSuffixOf? (interfaceFile name).toList
      = some ("I" ++ name).toList := by
    rw [← isSuffixOf?_append ".sol".toList ("I" ++ name).toList, ← String.toList_append]
    rfl
  rw [dropEndString?, ending, Option.map_some, String.ofList_toList]

/-- The type that a file is named for is the one that it declares. -/
theorem ofFile_interfaceFile (name : String) : ofFile (interfaceFile name) = name := by
  have start : List.isPrefixOf? "I".toList ("I" ++ name).toList = some name.toList := by
    rw [String.toList_append, isPrefixOf?_append]
  rw [ofFile, dropEndString?_interfaceFile]
  dsimp only [Option.getD_some]
  rw [dropStart?, start, Option.map_some, String.ofList_toList, Option.getD_some]

theorem isEntryName_interfaceFile {name : String} (h : '/' ∉ name.toList) :
    IsEntryName (interfaceFile name) := by
  refine isEntryName_of_suffix ".sol".toList (suffix_append _ _) (by decide) ?_
  show '/' ∉ ("I" ++ name ++ ".sol").toList
  simp [h]

end TypeName

namespace Contract

theorem isEntryName_file {kind : Kind} {name : String} (h : '/' ∉ name.toList) :
    IsEntryName (kind.file name) := by
  cases kind with
  | verification interfaceDir =>
      refine isEntryName_of_suffix "Verification.sol".toList (suffix_append _ _) (by decide) ?_
      show '/' ∉ ("" ++ name ++ "Verification.sol").toList
      simp [h]
  | verificationInterface =>
      refine isEntryName_of_suffix "Verification.sol".toList (suffix_append _ _) (by decide) ?_
      show '/' ∉ ("I" ++ name ++ "Verification.sol").toList
      simp [h]
  | temporary =>
      refine isEntryName_of_suffix "Temporary.sol".toList (suffix_append _ _) (by decide) ?_
      show '/' ∉ ("I" ++ name ++ "Temporary.sol").toList
      simp [h]

/-- The type is meant, and a file of the directory at the place declares it. -/
def Declares (t : FileTree) (dir : Place) (specific : Option String) (name : String) : Prop :=
  TypeName.isMeant specific name = true ∧
  ∃ file content, t.get? (dir ++ [file]) = some (.file content) ∧
    (dropEndString? ".sol" file).isSome = true ∧ TypeName.ofFile file = name

section Declares

variable {t t' : FileTree} {dir : Place} {specific : Option String} {name : String}

/-- A type is declared in the file that is named for it. -/
theorem Declares.file (h : Declares t dir specific name) (interfaces : t.HoldsInterfaces dir) :
    '/' ∉ name.toList ∧ ∃ content, t.get? (dir ++ [TypeName.interfaceFile name])
      = some (.file content) := by
  obtain ⟨-, file, content, found, -, rfl⟩ := h
  obtain ⟨name, separate, rfl⟩ := interfaces file content found
  rw [TypeName.ofFile_interfaceFile]
  exact ⟨separate, content, found⟩

/-- Files in other directories do not matter. -/
theorem declares_iff {places : Set Place} (h : FileTree.ChangesOnly t t' places)
    (apart : ∀ file, dir ++ [file] ∉ places) : Declares t' dir specific name ↔
    Declares t dir specific name :=
  and_congr_right fun _ => exists_congr fun file => exists_congr fun content =>
    and_congr_left fun _ => h.elsewhere _ content (apart file)

end Declares

/-! ## Runs -/

section Run

variable {here dir : Path} {s : Settings} {specific : Option String} {kind : Kind}
  {w w' : Workspace}

/-- The directory in which the types of a project are declared. -/
def typeDir (s : Settings) : Path := s.resolve s.locations.typeInterfaceDefinitions

/-- The contract of a type as a file of a directory. -/
def output (here : Path) (s : Settings) (kind : Kind) (dir : Path) (name : String) :
    Path × String :=
  ((dir.entry (kind.file name)).seenFrom here, kind.text here dir (typeDir s) name)

/-- Nothing is written to find the types that are meant. -/
theorem fills_namesMeant : ((namesMeant s specific).seenFrom here).Fills ∅ [] := by
  unfold namesMeant typeNames
  simp only [Plan.seenFrom_bind, Plan.seenFrom_pure]
  refine Plan.fills_bind_of_empty (Plan.fills_bind_of_empty (Plan.fills_filesEnding _ _)
    fun _ => Plan.fills_pure _)
    fun _ => ?_
  split
  · rw [Plan.seenFrom_bind]
    exact Plan.fills_bind_of_empty (Plan.fills_log _) fun _ => Plan.fills_pure _
  · exact Plan.fills_pure _

theorem mem_namesMeant_iff {names : List String}
    (run : ((namesMeant s specific).seenFrom here).runIn w = (.ok names, w')) (name : String) :
    name ∈ names ↔ Declares w.files (placeOf ((typeDir s).seenFrom here)) specific name := by
  unfold namesMeant typeNames at run
  simp only [Plan.seenFrom_bind, Plan.seenFrom_pure] at run
  obtain ⟨all, v, listed, run⟩ := Plan.runIn_bind_ok_iff.mp run
  obtain ⟨files, v', found, listed⟩ := Plan.runIn_bind_ok_iff.mp listed
  obtain ⟨rfl, -⟩ := Plan.runIn_pure_ok_iff.mp listed
  have meant : (sortedNames (files.map TypeName.ofFile)).filter (TypeName.isMeant specific)
      = names := by
    split at run
    · rw [Plan.seenFrom_bind] at run
      obtain ⟨_, v'', -, run⟩ := Plan.runIn_bind_ok_iff.mp run
      exact (Plan.runIn_pure_ok_iff.mp run).1
    · exact (Plan.runIn_pure_ok_iff.mp run).1
  rw [← meant, List.mem_filter, (sortedNames_perm _).mem_iff, and_comm,
    Plan.runIn_seenFrom_filesEnding_ok found]
  refine and_congr_right fun _ => ?_
  simp only [List.mem_map, Plan.mem_fileNames_entriesAt_iff]
  constructor
  · rintro ⟨file, ⟨⟨content, there⟩, ends⟩, rfl⟩
    exact ⟨file, content, there, ends, rfl⟩
  · rintro ⟨file, content, there, ends, rfl⟩
    exact ⟨file, ⟨⟨content, there⟩, ends⟩, rfl⟩

/-- The contract of a type is given to the entry of the directory. -/
theorem fills_writeOne (lasting : kind ≠ .temporary) (hdir : dir.text ≠ "") (name : String) :
    ((writeOne here s kind dir name).seenFrom here).Fills
    {Path.names here (dir.entry (kind.file name))}
      [output here s kind dir name] := by
  unfold writeOne
  rw [if_neg lasting]
  exact Plan.fills_writeGenerated _ _ (Path.entry_ne_empty hdir (kind.file name))

/-- **The contracts of one kind** are written for the types that are meant, and for these only.
The list of writes and the change of the tree are given by the same names. -/
theorem runIn_writeAll_ok (lasting : kind ≠ .temporary) (hdir : dir.text ≠ "") {u : Unit}
    (run : ((writeAll here s kind specific dir).seenFrom here).runIn w = (.ok u, w')) :
    ∃ names : List String,
      (∀ name, name ∈ names ↔ Declares w.files (placeOf ((typeDir s).seenFrom here)) specific
        name) ∧
      FileTree.Fills w.files w'.files {q | ∃ name ∈ names,
        q = Path.names here (dir.entry (kind.file name))} ∧
      ((writeAll here s kind specific dir).seenFrom here).writes w
        = names.map (output here s kind dir) := by
  unfold writeAll at run ⊢
  simp only [Plan.seenFrom_bind, Plan.seenFrom_forM] at run ⊢
  obtain ⟨names, v, found, run⟩ := Plan.runIn_bind_ok_iff.mp run
  obtain ⟨looked, nothing⟩ := fills_namesMeant w names v found
  obtain ⟨filled, wrote⟩ :=
    Plan.fills_forM names (fun name _ => fills_writeOne lasting hdir name) v u w' run
  refine ⟨names, mem_namesMeant_iff found, by simpa using looked.trans filled, ?_⟩
  rw [Plan.writes_bind found, nothing, List.nil_append]
  exact wrote

/-- What is written is not written into the directory of the types. -/
theorem typePlace_notMem (kind : Kind) {names : List String} {place : Place}
    (apart : Path.names here dir ≠ place)
    (separate : ∀ name ∈ names, '/' ∉ name.toList) (file : String) :
    place ++ [file] ∉ {q | ∃ name ∈ names,
      q = Path.names here (dir.entry (kind.file name))} := by
  rintro ⟨name, hname, same⟩
  rw [Path.names_entry here dir (isEntryName_file (separate name hname))] at same
  exact apart (List.append_inj_left' same rfl).symm

end Run

/-! ## Resolution -/

/-- A specifier in a file of the directory `dir` leads to a file that is there: to the
interface that declares the type, which is as it was before, or to the interface of its
contract, which has been written.  Places are taken from the working directory, since the
options may start anywhere. -/
inductive Resolves (here : Path) (before after : FileTree) (written : List (Path × String))
    (typeDir interfaceDir dir : Path) (name specifier : String) : Prop where
  | declared (content : FileContent)
      (leads : Path.names here (dir.join ⟨specifier⟩)
        = Path.names here (typeDir.entry (TypeName.interfaceFile name)))
      (found : before.get? (Path.names here (dir.join ⟨specifier⟩)) = some (.file content))
      (kept : after.get? (Path.names here (dir.join ⟨specifier⟩)) = some (.file content))
  | generated (content : FileContent) (text : String)
      (leads : Path.names here (dir.join ⟨specifier⟩)
        = Path.names here (interfaceDir.entry (interfaceFile name)))
      (there : after.get? (Path.names here (dir.join ⟨specifier⟩)) = some (.file content))
      (wrote : ((interfaceDir.entry (interfaceFile name)).seenFrom here, text) ∈ written)

/-- The imports of the contract of a type in a directory lead to files that are there: the
specifiers that it is filled with, and what is read off its text, if these specifiers stand for
themselves between double quotes and the name of the type is one line. -/
structure ImportsResolve (here : Path) (before after : FileTree)
    (written : List (Path × String))
    (typeDir interfaceDir dir : Path) (name : String) (kind : Kind) (text : String) :
    Prop where
  filled : ∀ target ∈ kind.imported typeDir name,
    Resolves here before after written typeDir interfaceDir dir name
      (Path.specifier here dir target)
  read : '\n' ∉ name.toList →
  (∀ target ∈ kind.imported typeDir name, IsVerbatim (Path.specifier here dir target)) →
    importsOf text = (kind.imported typeDir name).map (Path.specifier here dir) ∧
      ∀ specifier ∈ importsOf text,
        Resolves here before after written typeDir interfaceDir dir name specifier

theorem importsResolve_text {here : Path} {before after : FileTree}
    {written : List (Path × String)}
    {typeDir interfaceDir dir : Path} {name : String} {kind : Kind}
    (filled : ∀ target ∈ kind.imported typeDir name,
      Resolves here before after written typeDir interfaceDir dir name
        (Path.specifier here dir target)) :
    ImportsResolve here before after written typeDir interfaceDir dir name kind
      (kind.text here dir typeDir name) := by
  refine ⟨filled, fun line verbatim => ?_⟩
  have read := importsOf_text line verbatim
  refine ⟨read, fun specifier hspecifier => ?_⟩
  rw [read] at hspecifier
  obtain ⟨target, htarget, rfl⟩ := List.mem_map.mp hspecifier
  exact filled target htarget

section Verification

variable (here : Path) (s : Settings) (specific : Option String)
  (outPath interfaceOutPath : Option Path)

/-- The directory that verification contracts are written to. -/
def verificationDir : Path := s.resolve (outPath.getD s.locations.verificationContracts)

/-- The directory that their interfaces are written to. -/
def interfaceDir : Path := s.resolve (interfaceOutPath.getD s.locations.verificationInterfaces)

/-- What the command does, seen from the working directory. -/
def verificationRun : Plan Unit :=
  (Command.plan here s (.verificationContract specific outPath interfaceOutPath)).seenFrom here

/-- The types of a project have a directory of their own, which nothing is written to.
Otherwise an import could lead to a file that the run itself has replaced. -/
structure TypesApart (t : FileTree) : Prop where
  /-- A command line gives no empty path. -/
  root : s.root.text ≠ ""
  interfaces : t.HoldsInterfaces (Path.names here (typeDir s))
  contracts : Path.names here (verificationDir s outPath) ≠ Path.names here (typeDir s)
  contractInterfaces : Path.names here (interfaceDir s interfaceOutPath)
    ≠ Path.names here (typeDir s)

variable {here s specific outPath interfaceOutPath} {w w' : Workspace}

theorem TypesApart.nonempty {t : FileTree}
    (apart : TypesApart here s outPath interfaceOutPath t) :
    (typeDir s).text ≠ "" ∧ (verificationDir s outPath).text ≠ "" ∧
    (interfaceDir s interfaceOutPath).text ≠ "" :=
  ⟨Path.join_ne_empty apart.root, Path.join_ne_empty apart.root, Path.join_ne_empty apart.root⟩

/-- The interfaces are written before the contracts. -/
theorem verificationRun_eq : verificationRun here s specific outPath interfaceOutPath =
    (writeAll here s .verificationInterface specific
      (interfaceDir s interfaceOutPath)).seenFrom here >>= fun _ =>
      (writeAll here s (.verification (interfaceDir s interfaceOutPath)) specific
        (verificationDir s outPath)).seenFrom here :=
  Plan.seenFrom_bind here _ _

/-- Both are written for the types that are declared before, whose interfaces stay as they are,
and the interfaces of the contracts are there in the end. -/
theorem runIn_verificationRun_ok (apart : TypesApart here s outPath interfaceOutPath w.files)
    (run : (verificationRun here s specific outPath interfaceOutPath).runIn w = (.ok (), w')) :
    ∃ names names' : List String,
      (∀ name ∈ names, Declares w.files (Path.names here (typeDir s)) specific name) ∧
      (∀ name ∈ names', name ∈ names) ∧
      (∀ file content, w'.files.get? (Path.names here (typeDir s) ++ [file])
        = some (.file content) ↔
        w.files.get? (Path.names here (typeDir s) ++ [file]) = some (.file content)) ∧
      (∀ name ∈ names, ∃ content, w'.files.get?
        (Path.names here ((interfaceDir s interfaceOutPath).entry
          (Kind.file name .verificationInterface)))
          = some (.file content)) ∧
      (verificationRun here s specific outPath interfaceOutPath).writes w =
        names.map (output here s .verificationInterface (interfaceDir s interfaceOutPath)) ++
        names'.map (output here s (.verification (interfaceDir s interfaceOutPath))
          (verificationDir s outPath)) := by
  obtain ⟨htype, hdir, hinterface⟩ := apart.nonempty
  rw [verificationRun_eq] at run ⊢
  obtain ⟨_, v, first, second⟩ := Plan.runIn_bind_ok_iff.mp run
  obtain ⟨names, mem, filled, wrote⟩ := runIn_writeAll_ok (by nofun) hinterface first
  obtain ⟨names', mem', filled', wrote'⟩ := runIn_writeAll_ok (by nofun) hdir second
  rw [Path.placeOf_seenFrom here htype] at mem mem'
  have separate : ∀ name ∈ names, '/' ∉ name.toList :=
    fun name hname => (((mem name).mp hname).file apart.interfaces).1
  have outside := typePlace_notMem .verificationInterface apart.contractInterfaces separate
  -- The second listing finds the same types, since the first contracts are not written among
  -- them.
  have same : ∀ name ∈ names', name ∈ names := fun name hname =>
    (mem name).mpr ((declares_iff filled.toChangesOnly outside).mp ((mem' name).mp hname))
  have outside' := typePlace_notMem (.verification (interfaceDir s interfaceOutPath))
    apart.contracts
    fun name hname => separate name (same name hname)
  refine ⟨names, names', fun name hname => (mem name).mp hname, same, fun file content => ?_,
    fun name hname => ?_, ?_⟩
  · exact (filled'.elsewhere _ content (outside' file)).trans
      (filled.elsewhere _ content (outside file))
  · obtain ⟨content, there⟩ := filled.file _ ⟨name, hname, rfl⟩
    exact filled'.stays _ content there
  · rw [Plan.writes_bind first, wrote, wrote']

/-- **Imports resolve.**  Each file that a run writes is the contract of a type that is meant
or the interface of such a contract, and its imports lead from its directory to the interface
of the type or to the interface of the contract. The specifiers are the ones that the templates
are filled with, and those that are read off the text as long as none of them holds a quote. -/
theorem written_resolves (apart : TypesApart here s outPath interfaceOutPath w.files)
    (run : (verificationRun here s specific outPath interfaceOutPath).runIn w = (.ok (), w')) :
    ∀ path text,
      (path, text) ∈ (verificationRun here s specific outPath interfaceOutPath).writes w →
      ∃ (name : String) (kind : Kind) (dir : Path), TypeName.isMeant specific name = true ∧
        (kind = .verificationInterface ∧ dir = interfaceDir s interfaceOutPath ∨
          kind = .verification (interfaceDir s interfaceOutPath) ∧
          dir = verificationDir s outPath) ∧
        path = (dir.entry (kind.file name)).seenFrom here ∧
        ImportsResolve here w.files w'.files
          ((verificationRun here s specific outPath interfaceOutPath).writes w)
          (typeDir s) (interfaceDir s interfaceOutPath) dir name kind text := by
  intro path text hmem
  obtain ⟨names, names', declares, again, kept, there, wrote⟩ :=
    runIn_verificationRun_ok apart run
  obtain ⟨htype, hdir, hinterface⟩ := apart.nonempty
  -- Both files import the interface of the type, and the contract also its own interface.
  have declared : ∀ name ∈ names, ∀ dir : Path, dir.text ≠ "" → Resolves here w.files w'.files
      ((verificationRun here s specific outPath interfaceOutPath).writes w) (typeDir s)
      (interfaceDir s interfaceOutPath)
      dir name (Path.specifier here dir
        ((typeDir s).entry (TypeName.interfaceFile name))) := by
    intro name hname dir hd
    obtain ⟨separate, content, found⟩ := (declares name hname).file apart.interfaces
    have leads := Path.names_join_specifier here hd
      (Path.entry_ne_empty htype (TypeName.interfaceFile name))
    have place := leads.trans (Path.names_entry here (typeDir s)
      (TypeName.isEntryName_interfaceFile separate))
    exact .declared content leads (place ▸ found) (place ▸ (kept _ content).mpr found)
  have generated : ∀ name ∈ names, ∀ dir : Path, dir.text ≠ "" → Resolves here w.files w'.files
      ((verificationRun here s specific outPath interfaceOutPath).writes w) (typeDir s)
      (interfaceDir s interfaceOutPath)
      dir name (Path.specifier here dir ((interfaceDir s interfaceOutPath).entry
        (interfaceFile name))) := by
    intro name hname dir hd
    have leads := Path.names_join_specifier here hd (Path.entry_ne_empty hinterface
      (interfaceFile name))
    obtain ⟨content, found⟩ := there name hname
    rw [Kind.file, ← leads] at found
    refine .generated content
      (Kind.text here (interfaceDir s interfaceOutPath) (typeDir s) name
        .verificationInterface) leads found ?_
    rw [wrote]
    exact List.mem_append_left _ (List.mem_map_of_mem hname)
  rw [wrote, List.mem_append] at hmem
  rcases hmem with hmem | hmem
  · obtain ⟨name, hname, same⟩ := List.mem_map.mp hmem
    obtain ⟨rfl, rfl⟩ := Prod.mk.inj same
    refine ⟨name, .verificationInterface, _, (declares name hname).1, .inl ⟨rfl, rfl⟩, rfl,
      importsResolve_text ?_⟩
    exact List.forall_mem_singleton.mpr (declared name hname _ hinterface)
  · obtain ⟨name, hname', same⟩ := List.mem_map.mp hmem
    obtain ⟨rfl, rfl⟩ := Prod.mk.inj same
    have hname := again name hname'
    refine ⟨name, .verification _, _, (declares name hname).1, .inr ⟨rfl, rfl⟩, rfl,
      importsResolve_text ?_⟩
    exact List.forall_mem_cons.mpr
      ⟨declared name hname _ hdir, List.forall_mem_singleton.mpr (generated name hname _ hdir)⟩

end Verification

/-! ## A small project -/

/-- The settings of a project next to the working directory. -/
def paymentSettings : Settings where
  root := ⟨"../p"⟩
  locations := { typeInterfaceDefinitions := ⟨"types"⟩, verificationContracts := ⟨"out"⟩ }
  verifier := {}
  prettier := none

/-- The files of the project, with one type. -/
def paymentFiles : FileTree where
  nodes := [(["w"], .dir), (["p"], .dir), (["p", "types"], .dir),
    (["p", "types", "IPayment.sol"], .file (.text "")),
    (["p", "out"], .dir), (["p", "api"], .dir), (["p", "a\"b"], .dir)]

/-- The run for that project, with a directory for the interfaces of the contracts. -/
abbrev paymentRun (interfaces : Path) : Plan Unit :=
  verificationRun ⟨"/w"⟩ paymentSettings none none (some interfaces)

/-- The contract that the run writes, with this directory. -/
def paymentContract (interfaces : Path) : String :=
  Kind.text ⟨"/w"⟩ (verificationDir paymentSettings none) (typeDir paymentSettings) "Payment"
    (.verification (interfaceDir paymentSettings (some interfaces)))

theorem typesApart_payment {interfaces : Path}
    (other : Path.names ⟨"/w"⟩ (interfaceDir paymentSettings (some interfaces))
      ≠ ["p", "types"]) :
    TypesApart ⟨"/w"⟩ paymentSettings none (some interfaces) paymentFiles where
  root := by decide
  interfaces := by
    intro file content found
    have place : Path.names ⟨"/w"⟩ (typeDir paymentSettings) = ["p", "types"] := by decide
    rw [place] at found
    have member := (get?_eq_some_iff (by simp)).mp found
    simp only [paymentFiles, List.mem_cons, Prod.mk.injEq, List.cons_append, List.nil_append,
      List.cons.injEq,
      List.not_mem_nil, or_false] at member
    obtain ⟨h, -⟩ | ⟨h, -⟩ | ⟨h, -⟩ | ⟨h, -⟩ | ⟨h, -⟩ | ⟨h, -⟩ | ⟨h, -⟩ := member <;> simp_all
    exact ⟨"Payment", by decide, by decide⟩
  contracts := by decide
  contractInterfaces := other

theorem runIn_namesMeant_payment {w : Workspace}
    (listed : w.files.list ((typeDir paymentSettings).seenFrom ⟨"/w"⟩)
      = .ok [⟨"IPayment.sol", true⟩]) :
    ((namesMeant paymentSettings none).seenFrom ⟨"/w"⟩).runIn w = (.ok ["Payment"], w) := by
  have files : ((Plan.filesEnding ".sol" (typeDir paymentSettings)).seenFrom ⟨"/w"⟩).runIn w
      = (.ok ["IPayment.sol"], w) := by
    unfold Plan.filesEnding
    simp only [Plan.seenFrom_bind, Plan.seenFrom_list, Plan.seenFrom_pure]
    exact Plan.runIn_bind_ok_iff.mpr ⟨_, w, Plan.runIn_list_ok_iff.mpr ⟨listed, rfl⟩,
      Plan.runIn_pure_ok_iff.mpr ⟨List.mergeSort_singleton _, rfl⟩⟩
  have names : ((typeNames paymentSettings).seenFrom ⟨"/w"⟩).runIn w
      = (.ok ["Payment"], w) := by
    unfold typeNames
    rw [Plan.seenFrom_bind]
    exact Plan.runIn_bind_ok_iff.mpr ⟨_, w, files,
      Plan.runIn_pure_ok_iff.mpr ⟨List.mergeSort_singleton _, rfl⟩⟩
  unfold namesMeant
  rw [Plan.seenFrom_bind, Plan.runIn_bind_of_ok names]
  rfl

/-- The contract of one kind is all that is written for that project. -/
theorem runIn_writeAll_payment {w : Workspace} {kind : Kind} (lasting : kind ≠ .temporary)
    {dir parent : Path}
    {between after : FileTree} (hdir : dir.text ≠ "")
    (listed : w.files.list ((typeDir paymentSettings).seenFrom ⟨"/w"⟩)
      = .ok [⟨"IPayment.sol", true⟩])
    (hparent : (dir.entry (kind.file "Payment")).parent = some parent)
    (made : w.files.makeDirs (parent.seenFrom ⟨"/w"⟩) = .ok between)
    (wrote : between.write ((dir.entry (kind.file "Payment")).seenFrom ⟨"/w"⟩)
      (kind.text ⟨"/w"⟩ dir (typeDir paymentSettings) "Payment") = .ok after) :
    ∃ w', ((writeAll ⟨"/w"⟩ paymentSettings kind none dir).seenFrom ⟨"/w"⟩).runIn w
      = (.ok (), w') ∧ w'.files = after ∧
      ((writeAll ⟨"/w"⟩ paymentSettings kind none dir).seenFrom ⟨"/w"⟩).writes w
        = [output ⟨"/w"⟩ paymentSettings kind dir "Payment"] := by
  have names := runIn_namesMeant_payment listed
  obtain ⟨w', one, files⟩ := Plan.exists_runIn_seenFrom_writeGenerated hparent made wrote
  have run : (["Payment"].forM fun name =>
    (writeOne ⟨"/w"⟩ paymentSettings kind dir name).seenFrom ⟨"/w"⟩).runIn w
      = (.ok (), w') := by
    unfold writeOne
    simp only [if_neg lasting]
    exact Plan.runIn_bind_ok_iff.mpr ⟨(), w', one, rfl⟩
  unfold writeAll
  rw [Plan.seenFrom_bind]
  simp only [Plan.seenFrom_forM]
  refine ⟨w', ?_, files, ?_⟩
  · rw [Plan.runIn_bind_of_ok names]
    exact run
  · rw [Plan.writes_bind names, (fills_namesMeant _ _ _ names).2, List.nil_append]
    exact (Plan.fills_forM _ (fun name _ => fills_writeOne lasting hdir name) _ _ _ run).2

/-- The project when the interface of the contract has been written to a place. -/
def paymentFilesWith (interfaces : Path) (place : Place) : FileTree :=
  paymentFiles.set place (.file
    (.text (Kind.text ⟨"/w"⟩ (interfaceDir paymentSettings (some interfaces))
    (typeDir paymentSettings) "Payment" .verificationInterface)))

/-- The run writes the interface of the contract, and then the contract. -/
theorem exists_runIn_paymentRun {interfaces parent : Path} (place : Place)
    (hparent : ((interfaceDir paymentSettings (some interfaces)).entry
      (Kind.file "Payment" .verificationInterface)).parent = some parent)
    (made : paymentFiles.makeDirs (parent.seenFrom ⟨"/w"⟩) = .ok paymentFiles)
    (wrote : paymentFiles.write (((interfaceDir paymentSettings (some interfaces)).entry
        (Kind.file "Payment" .verificationInterface)).seenFrom ⟨"/w"⟩)
      (Kind.text ⟨"/w"⟩ (interfaceDir paymentSettings (some interfaces))
        (typeDir paymentSettings) "Payment"
        .verificationInterface) = .ok (paymentFilesWith interfaces place))
    (listed : (paymentFilesWith interfaces place).list ⟨"/w/../p/types"⟩
      = .ok [⟨"IPayment.sol", true⟩])
    (made' : (paymentFilesWith interfaces place).makeDirs ⟨"/w/../p/out"⟩
      = .ok (paymentFilesWith interfaces place))
    (wrote' : (paymentFilesWith interfaces place).write ⟨"/w/../p/out/PaymentVerification.sol"⟩
      (paymentContract interfaces) = .ok ((paymentFilesWith interfaces place).set
        ["p", "out", "PaymentVerification.sol"]
        (.file (.text (paymentContract interfaces))))) :
    ∃ w', (paymentRun interfaces).runIn { files := paymentFiles } = (.ok (), w') ∧
      w'.files = (paymentFilesWith interfaces place).set ["p", "out",
        "PaymentVerification.sol"]
        (.file (.text (paymentContract interfaces))) ∧
      (⟨"/w/../p/out/PaymentVerification.sol"⟩, paymentContract interfaces)
        ∈ (paymentRun interfaces).writes { files := paymentFiles } := by
  have hinterface : (interfaceDir paymentSettings (some interfaces)).text ≠ "" :=
    Path.join_ne_empty (by decide)
  have hdir : (verificationDir paymentSettings none).text ≠ "" := by decide
  have htypes : (typeDir paymentSettings).seenFrom ⟨"/w"⟩ = ⟨"/w/../p/types"⟩ := by decide
  have hparent' : ((verificationDir paymentSettings none).entry
      (Kind.file "Payment" (.verification (interfaceDir paymentSettings
        (some interfaces))))).parent
        = some ⟨"../p/out"⟩ := by
    show ((verificationDir paymentSettings none).entry "PaymentVerification.sol").parent = _
    decide
  have hout : Path.seenFrom ⟨"../p/out"⟩ ⟨"/w"⟩ = ⟨"/w/../p/out"⟩ := by decide
  have hpath : ((verificationDir paymentSettings none).entry
      (Kind.file "Payment" (.verification (interfaceDir paymentSettings
        (some interfaces))))).seenFrom ⟨"/w"⟩
        = ⟨"/w/../p/out/PaymentVerification.sol"⟩ := by
    show ((verificationDir paymentSettings none).entry "PaymentVerification.sol").seenFrom
      ⟨"/w"⟩ = _
    decide
  have first : ({ files := paymentFiles } : Workspace).files.list
    ((typeDir paymentSettings).seenFrom ⟨"/w"⟩)
      = .ok [⟨"IPayment.sol", true⟩] := rfl
  -- The interface is written first, and the second run starts from the tree that holds it.
  obtain ⟨v, ran, between, -⟩ :=
    runIn_writeAll_payment (by nofun) hinterface first hparent made wrote
  rw [← between] at listed made' wrote' ⊢
  obtain ⟨w', ran', files, all⟩ :=
    runIn_writeAll_payment (by nofun) hdir (htypes ▸ listed) hparent' (hout ▸ made')
    (hpath ▸ wrote')
  rw [paymentRun, verificationRun_eq]
  refine ⟨w', Plan.runIn_bind_ok_iff.mpr ⟨(), v, ran, ran'⟩, files, ?_⟩
  rw [Plan.writes_bind ran, all, output, hpath]
  exact List.mem_append_right _ (List.mem_singleton.mpr rfl)

/-- Dots and a parent step on the way to the interfaces. -/
theorem written_resolves_payment :
    ∃ w', TypesApart ⟨"/w"⟩ paymentSettings none (some ⟨"./out/../api"⟩) paymentFiles ∧
      (paymentRun ⟨"./out/../api"⟩).runIn { files := paymentFiles } = (.ok (), w') ∧
      (⟨"/w/../p/out/PaymentVerification.sol"⟩, paymentContract ⟨"./out/../api"⟩)
        ∈ (paymentRun ⟨"./out/../api"⟩).writes { files := paymentFiles } ∧
      importsOf (paymentContract ⟨"./out/../api"⟩) = ["../types/IPayment.sol",
        "../api/IPaymentVerification.sol"] ∧
      ∃ (name : String) (kind : Kind) (dir : Path), TypeName.isMeant none name = true ∧
        (kind = .verificationInterface ∧
          dir = interfaceDir paymentSettings (some ⟨"./out/../api"⟩) ∨
          kind = .verification (interfaceDir paymentSettings (some ⟨"./out/../api"⟩)) ∧
            dir = verificationDir paymentSettings none) ∧
        ⟨"/w/../p/out/PaymentVerification.sol"⟩
          = (dir.entry (kind.file name)).seenFrom ⟨"/w"⟩ ∧
        ImportsResolve ⟨"/w"⟩ paymentFiles w'.files ((paymentRun ⟨"./out/../api"⟩).writes
          { files := paymentFiles })
          (typeDir paymentSettings)
          (interfaceDir paymentSettings (some ⟨"./out/../api"⟩)) dir name kind
          (paymentContract ⟨"./out/../api"⟩) := by
  have apart := typesApart_payment
    (show Path.names ⟨"/w"⟩ (interfaceDir paymentSettings (some ⟨"./out/../api"⟩))
    ≠ ["p", "types"] by decide)
  have hparent : ((interfaceDir paymentSettings (some ⟨"./out/../api"⟩)).entry
      (Kind.file "Payment" .verificationInterface)).parent
        = some ⟨"../p/./out/../api"⟩ := by decide
  have text : paymentContract ⟨"./out/../api"⟩
      = verification "Payment" "../types/IPayment.sol" "../api/IPaymentVerification.sol" :=
    congrArg₂ (verification "Payment") (by decide) (by decide)
  obtain ⟨w', run, -, member⟩ :=
    exists_runIn_paymentRun ["p", "api", "IPaymentVerification.sol"] hparent rfl rfl rfl rfl
      rfl
  refine ⟨w', apart, run, member, ?_, written_resolves apart run _ _ member⟩
  rw [text, importsOf_verification (by decide) (by decide) (by decide)]
  exact readBack_of_isVerbatim (by decide)

/-- With a double quote in the name of the directory of the interfaces, the contract imports
something that is not there: specifiers are written as they are, and the quote ends the
literal. -/
theorem exists_import_not_resolved :
    ∃ w', TypesApart ⟨"/w"⟩ paymentSettings none (some ⟨"a\"b"⟩) paymentFiles ∧
      (paymentRun ⟨"a\"b"⟩).runIn { files := paymentFiles } = (.ok (), w') ∧
      (⟨"/w/../p/out/PaymentVerification.sol"⟩, paymentContract ⟨"a\"b"⟩)
        ∈ (paymentRun ⟨"a\"b"⟩).writes { files := paymentFiles } ∧
      importsOf (paymentContract ⟨"a\"b"⟩) = ["../types/IPayment.sol", "../a"] ∧
      w'.files.get? (Path.names ⟨"/w"⟩ ((verificationDir paymentSettings none).join ⟨"../a"⟩))
        = none := by
  have apart := typesApart_payment
    (show Path.names ⟨"/w"⟩ (interfaceDir paymentSettings (some ⟨"a\"b"⟩))
    ≠ ["p", "types"] by decide)
  have hparent : ((interfaceDir paymentSettings (some ⟨"a\"b"⟩)).entry
      (Kind.file "Payment" .verificationInterface)).parent = some ⟨"../p/a\"b"⟩ := by decide
  have text : paymentContract ⟨"a\"b"⟩
      = verification "Payment" "../types/IPayment.sol" "../a\"b/IPaymentVerification.sol" :=
    congrArg₂ (verification "Payment") (by decide) (by decide)
  obtain ⟨w', run, files, member⟩ :=
    exists_runIn_paymentRun ["p", "a\"b", "IPaymentVerification.sol"] hparent rfl rfl rfl rfl
      rfl
  refine ⟨w', apart, run, member, ?_, ?_⟩
  · rw [text, importsOf_verification (by decide) (by decide) (by decide)]
    decide
  · have place : Path.names ⟨"/w"⟩ ((verificationDir paymentSettings none).join ⟨"../a"⟩)
        = ["p", "a"] := by decide
    rw [files, place, get?_set _ (by decide), if_neg (by decide), paymentFilesWith,
      get?_set _ (by decide),
      if_neg (by decide)]
    rfl

end Contract

end Attestation
