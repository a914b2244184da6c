import Attestation.Command.Run
import Attestation.Proofs.Dto.Written
import Attestation.Proofs.Path.Entry
import Attestation.Proofs.Record.Kept
import Attestation.Proofs.Verifier.LocalImports

/-!
# Installations

What an installation does to the files of a project and of the repository: it writes the DTO
script of the type from its record and changes no other DTO script (`holds_of_install`), and
the edit of the app module changes no other file (`readText_of_editAppModule`).

## Main definitions

* `foreign`: the places of files that are no DTO script of a type.
* `Ready`: a repository that takes the files of a verifier.

## Design notes

The scripts of a verifier lie in directories that the options name, and these may be any
directories, that of the DTO scripts included.  Files are therefore told apart by how their
names end and not by where they lie: no script of a verifier has a name that ends like that of
a DTO script.  The app module is the exception, since its name is an option as well.
-/

namespace Attestation.Verifier

open FileTree Plan Text

/-- Attestation types are named with a capital letter in front. -/
def IsCapital (name : String) : Prop := name.toList.head?.any Char.isUpper = true

instance : DecidablePred IsCapital :=
  fun name => inferInstanceAs (Decidable (name.toList.head?.any Char.isUpper = true))

/-- The user may give the name of the interface. -/
theorem bareName_append {t : String} (capital : IsCapital t) : bareName ("I" ++ t) = t := by
  have dropped : dropStart? "I" ("I" ++ t) = some t := by
    rw [dropStart?, String.toList_append, isPrefixOf?_append, Option.map_some,
      String.ofList_toList]
  rw [bareName, dropped]
  exact if_pos capital

/-! ## Other files -/

/-- The places of files that are no DTO script of a type. -/
def foreign : Set Place := {q | ∀ dir t, IsCapital t → q ≠ dir ++ [Dto.fileName t]}

theorem placeOf_mem_foreign {p : Path} (word : List Char) (ends : word <:+ p.text.toList)
    (shape : '/' ∉ word ∧ 2 < word.length ∧ ¬ word <:+ ".dto.ts".toList ∧
      ¬ ".dto.ts".toList <:+ word) :
    placeOf p ∈ foreign := by
  obtain ⟨slash, long, longer, shorter⟩ := shape
  obtain ⟨dir, name, place, last⟩ := exists_placeOf_of_suffix ends slash long
  rintro dir' t - same
  rw [place] at same
  have names := (List.cons.inj (List.append_inj_right' same rfl)).1
  rw [names, Dto.fileName_eq] at last
  rcases List.suffix_or_suffix_of_suffix last (List.suffix_append _ _) with h | h
  · exact longer h
  · exact shorter h

theorem genericDto_mem_foreign (dir : Path) :
    placeOf (dir.entry "generic.dto.ts") ∈ foreign := by
  rintro dir' t capital same
  rw [placeOf_entry (by decide)] at same
  have names := (List.cons.inj (List.append_inj_right' same rfl)).1
  obtain rfl : "generic" = t := Dto.fileName_inj names
  exact absurd capital (by decide)

section Scripts

variable {here repo : Path} {s : Settings} {o : Options} {n : Names} {clear : Bool}
  {w w' : Workspace}

theorem changesOnly_writeScript {label text : String} {path : Path}
    (h : placeOf path ∈ foreign) :
    (writeScript label path text).ChangesOnly foreign :=
  changesOnly_bind (changesOnly_writeGenerated h) fun _ => (keepsFiles_pure _).changesOnly

theorem keepsFiles_readIfThere (path : Path) : (readIfThere path).KeepsFiles := by
  refine keepsFiles_bind (keepsFiles_exists _) fun there => ?_
  split
  · exact keepsFiles_readText _ _
  · exact keepsFiles_pure _

/-- Without a formatter the files stay as they are. -/
theorem keepsFiles_format (unformatted : s.prettier = none) (files : List Path) :
    (Plan.format s.prettier files).KeepsFiles := by
  rw [unformatted]
  exact keepsFiles_log _

/-- A script with an extension of two parts is no DTO script. -/
theorem module_mem_foreign (dir : Path) (stem first : String) {whole : String}
    (shape : ('/' ∉ first.toList ∧ 2 < first.toList.length ∧
      ¬ first.toList <:+ ".dto.ts".toList ∧
      ¬ ".dto.ts".toList <:+ first.toList))
    (shape' : ('/' ∉ '.' :: whole.toList ∧ 2 < ('.' :: whole.toList).length ∧
      ¬ '.' :: whole.toList <:+ ".dto.ts".toList ∧
      ¬ ".dto.ts".toList <:+ '.' :: whole.toList)) :
    placeOf ((repo.join (dir.entry (stem ++ first))).withExtension whole) ∈ foreign := by
  have ends : first.toList <:+ (repo.join (dir.entry (stem ++ first))).text.toList :=
    (suffix_append _ _).trans ((Path.suffix_entry _ _).trans (Path.suffix_join _ _))
  rcases Path.suffix_withExtension (repo.join (dir.entry (stem ++ first))) whole with same |
    ends'
  · rw [same]
    exact placeOf_mem_foreign _ ends shape
  · exact placeOf_mem_foreign _ ends' shape'

/-- What the run for the scripts of a verifier has done: the DTO script is written from the
record, and no other DTO script changes. -/
theorem writes_of_writeScripts {record : TypeRecord} {written : List Path}
    (hname : '/' ∉ n.attestationType.toList)
    (h : (writeScripts here repo o n record).runIn w = (.ok written, w')) :
    ∃ text between, Dto.source n.attestationType record = .ok text ∧
      Writes w.files between (repo.join o.dtoRelPath) (Dto.fileName n.attestationType) text ∧
      ChangesOnly between w'.files foreign := by
  obtain ⟨text, v, ran, h⟩ := runIn_bind_ok_iff.mp h
  obtain ⟨built, rfl⟩ := runIn_ofExcept_ok_iff.mp ran
  obtain ⟨_, v, script, h⟩ := runIn_bind_ok_iff.mp h
  obtain ⟨_, v', wrote, last⟩ := runIn_bind_ok_iff.mp script
  obtain ⟨rfl, rfl⟩ := runIn_pure_ok_iff.mp last
  refine ⟨text, v'.files, built, writes_of_runIn (Dto.isEntryName_fileName hname) wrote, ?_⟩
  refine (show Plan.ChangesOnly _ foreign from ?_) _ _ _ h
  refine changesOnly_bind (changesOnly_writeScript (genericDto_mem_foreign _)) fun _ => ?_
  refine changesOnly_bind (keepsFiles_readIfThere _).changesOnly fun old => ?_
  refine changesOnly_bind (keepsFiles_ofExcept _).changesOnly fun service => ?_
  refine changesOnly_bind (changesOnly_writeScript (module_mem_foreign _ _ ".service"
    (by decide) (by decide))) fun _ => ?_
  refine changesOnly_bind
    (changesOnly_writeScript (module_mem_foreign _ _ ".controller" (by decide) (by decide)))
      fun _ => ?_
  dsimp only
  split
  · refine changesOnly_bind (changesOnly_writeScript ?_) fun _ =>
      (keepsFiles_pure _).changesOnly
    exact placeOf_mem_foreign _ ((suffix_append _ ".controller.spec.ts").trans
      (Path.suffix_entry _ _)) (by decide)
  · exact (keepsFiles_pure _).changesOnly

/-- What the edit of the app module has done. -/
theorem exists_of_editAppModule {u : Unit} (unformatted : s.prettier = none)
    (h : (editAppModule here s repo o n clear).runIn w = (.ok u, w')) :
    ∃ content wired, w.files.readText (repo.join o.appModuleRelativePath) = .ok content ∧
      wire here o n clear content.toList = .ok wired ∧
      ChangesOnly w.files w'.files {placeOf (repo.join o.appModuleRelativePath)} ∧
      w'.files.get? (placeOf (repo.join o.appModuleRelativePath))
        = some (.file (.text (String.ofList wired))) := by
  obtain ⟨content, v, asked, h⟩ := runIn_bind_ok_iff.mp h
  obtain ⟨read, rfl⟩ := runIn_readText_ok_iff.mp asked
  obtain ⟨wired, v, ran, h⟩ := runIn_bind_ok_iff.mp h
  obtain ⟨made, rfl⟩ := runIn_ofExcept_ok_iff.mp ran
  obtain ⟨_, v, wrote, h⟩ := runIn_bind_ok_iff.mp h
  have wrote := runIn_write_ok wrote
  obtain ⟨_, v', printed, h⟩ := runIn_bind_ok_iff.mp h
  have after : w'.files = v.files := by
    rw [(keepsFiles_format unformatted _).files_eq h, (keepsFiles_print _).files_eq printed]
  obtain ⟨-, hne, -, set⟩ := write_eq_set wrote
  refine ⟨content, wired, read, orFail_eq_ok_iff.mp (inContext_eq_ok_iff.mp made), ?_, ?_⟩
  · rw [after]
    exact changesOnly_of_write (AddsDirs.refl _) wrote
  · rw [after, set, get?_set _ hne, if_pos rfl]

/-- A text that is there before the app module is edited stays, unless it is the app module
itself: that one has the verifier wired in. -/
theorem readText_of_editAppModule {u : Unit} (unformatted : s.prettier = none) {dir : Path}
    {name text : String}
    (entry : IsEntryName name) (held : Holds w.files dir name text)
    (h : (editAppModule here s repo o n clear).runIn w = (.ok u, w')) :
    (placeOf (repo.join o.appModuleRelativePath) = placeOf (dir.entry name) →
      ∃ wired, wire here o n clear text.toList = .ok wired ∧
        w'.files.readText (dir.entry name) = .ok (String.ofList wired)) ∧
    (placeOf (repo.join o.appModuleRelativePath) ≠ placeOf (dir.entry name) →
      w'.files.readText (dir.entry name) = .ok text) := by
  obtain ⟨content, wired, read, made, changes, app⟩ := exists_of_editAppModule unformatted h
  rw [placeOf_entry entry]
  constructor
  · intro here
    have there := get?_of_readText read
    rw [here, held.here] at there
    cases there
    rw [here] at app
    exact ⟨wired, made, Holds.readText entry ⟨held.path,
      changes.keepsDirs.walk held.walked, app⟩⟩
  · intro other
    exact (changes.keeps held fun hmem => other hmem.symm).readText entry

/-- The runs that an installation is made of. -/
theorem exists_of_install {given dataSource : String} {u : Unit}
    (h : (install here s given dataSource false).runIn w = (.ok u, w')) :
    let o := s.verifier.resolve dataSource
    let repo := s.resolve o.repoPath
    let n := Names.make o (bareName given) dataSource
    ∃ records record written v v₁ v₂,
      (TypeRecord.loadAll (s.resolve s.locations.configs) (some (bareName given))).runIn w
        = (.ok records, v) ∧
      records.get? (bareName given) = some record ∧
      (writeScripts here repo o n record).runIn v = (.ok written, v₁) ∧
      (Plan.format s.prettier written).runIn v₁ = (.ok (), v₂) ∧
      (editAppModule here s repo o n false).runIn v₂ = (.ok u, w') := by
  intro o repo n
  obtain ⟨records, v, loaded, h⟩ := runIn_bind_ok_iff.mp h
  cases found : records.get? (bareName given) with
  | none =>
      rw [found] at h
      cases h
  | some record =>
      rw [found] at h
      obtain ⟨written, v₁, scripts, h⟩ := runIn_bind_ok_iff.mp h
      obtain ⟨_, v₂, formatted, h⟩ := runIn_bind_ok_iff.mp h
      exact ⟨records, record, written, v, v₁, v₂, loaded, found, scripts, formatted, h⟩

/-- What an installation has done when it edits the app module: the DTO script of the type is
written from its record, and no other DTO script has changed. -/
theorem holds_of_install {t dataSource : String} {u : Unit} (capital : IsCapital t)
    (unformatted : s.prettier = none)
    (h : (install here s ("I" ++ t) dataSource false).runIn w = (.ok u, w')) :
    let o := s.verifier.resolve dataSource
    let repo := s.resolve o.repoPath
    ∃ records record v,
      (TypeRecord.loadAll (s.resolve s.locations.configs) (some t)).runIn w
        = (.ok records, v) ∧
      records.get? t = some record ∧
      ('/' ∉ t.toList → ∃ text v', Dto.source t record = .ok text ∧
        Holds v'.files (repo.join o.dtoRelPath) (Dto.fileName t) text ∧
        ChangesOnly w.files v'.files ({placeOf (repo.join o.dtoRelPath) ++ [Dto.fileName t]} ∪
          foreign) ∧
        (editAppModule here s repo o (Names.make o t dataSource) false).runIn v'
          = (.ok u, w')) := by
  intro o repo
  obtain ⟨records, record, written, v, v₁, v₂, loaded, found, scripts, formatted, edited⟩ :=
    exists_of_install h
  rw [bareName_append capital] at loaded found scripts edited
  refine ⟨records, record, v, loaded, found, fun hname => ?_⟩
  obtain ⟨text, between, built, wrote, others⟩ := writes_of_writeScripts hname scripts
  refine ⟨text, v₂, built, ?_⟩
  rw [(keepsFiles_format unformatted _).files_eq formatted]
  refine ⟨others.keeps wrote.holds fun hmem => hmem _ t capital rfl, ?_, edited⟩
  rw [← (TypeRecord.keepsFiles_loadAll _ _).files_eq loaded]
  exact (wrote.mono Set.subset_union_left).trans (others.mono Set.subset_union_right)

/-- An installation leaves a script in the repository that is made from the record that was
loaded, and a script in another directory as it was. -/
theorem readText_of_install {t dataSource old text : String} {dir : Path}
    {records : NameMap TypeRecord}
    {record : TypeRecord} {v : Workspace} {u : Unit} (capital : IsCapital t)
    (hname : '/' ∉ t.toList)
    (unformatted : s.prettier = none) (ho : s.verifier.resolve dataSource = o)
    (hrepo : s.resolve o.repoPath = repo)
    (loaded : (TypeRecord.loadAll (s.resolve s.locations.configs) (some t)).runIn w
      = (.ok records, v))
    (found : records.get? t = some record) (built : Dto.source t record = .ok text)
    (held : Holds w.files dir (Dto.fileName t) old)
    (apart : placeOf dir ≠ placeOf (repo.join o.dtoRelPath))
    (app : ∀ d ∈ [dir, repo.join o.dtoRelPath],
      placeOf (repo.join o.appModuleRelativePath) ≠ placeOf (d.entry (Dto.fileName t)))
    (h : (install here s ("I" ++ t) dataSource false).runIn w = (.ok u, w')) :
    w'.files.readText (dir.entry (Dto.fileName t)) = .ok old ∧
      w'.files.readText ((repo.join o.dtoRelPath).entry (Dto.fileName t)) = .ok text := by
  subst ho hrepo
  obtain ⟨records', record', v₁, loaded', found', installed⟩ :=
    holds_of_install capital unformatted h
  obtain rfl := Except.ok.inj (Prod.mk.inj (loaded.symm.trans loaded')).1
  obtain rfl := Option.some.inj (found.symm.trans found')
  obtain ⟨text', v₂, built', written, changes, edited⟩ := installed hname
  obtain rfl := Except.ok.inj (built.symm.trans built')
  have held := changes.keeps held (by
    rintro (same | other)
    · exact apart (List.append_inj_left' same rfl)
    · exact other _ t capital rfl)
  have entry := Dto.isEntryName_fileName hname
  exact ⟨(readText_of_editAppModule unformatted entry held edited).2 (app _ (by simp)),
    (readText_of_editAppModule unformatted entry written edited).2 (app _ (by simp))⟩

end Scripts

/-! ## Repositories that take a verifier -/

/-- The repository takes the files of a new verifier: their directories are there, and its app
module is none of them. So an installation can write them all, one after the other. -/
structure Ready (files : FileTree) (repo : Path) (o : Options) (n : Names) : Prop where
  dto : files.Accepts ((repo.join o.dtoRelPath).entry (Dto.fileName n.attestationType))
  generic : files.Accepts ((repo.join o.dtoGenericRelPath).entry "generic.dto.ts")
  service : files.Accepts ((repo.join n.serviceModule).withExtension "service.ts")
  controller : files.Accepts ((repo.join n.controllerModule).withExtension "controller.ts")
  test : o.controllerTests = true →
  files.Accepts ((repo.join n.controllerDir).entry s!"{n.fileStem}.controller.spec.ts")
  appModule : files.Accepts (repo.join o.appModuleRelativePath)
  /-- There is no service yet, and none of the scripts before it is written there. -/
  fresh : files.get? (placeOf ((repo.join n.serviceModule).withExtension "service.ts"))
    = none ∧
    placeOf ((repo.join n.serviceModule).withExtension "service.ts")
      ∉ [placeOf ((repo.join o.dtoRelPath).entry (Dto.fileName n.attestationType)),
        placeOf ((repo.join o.dtoGenericRelPath).entry "generic.dto.ts")]
  apart : placeOf (repo.join o.appModuleRelativePath)
    ∉ [placeOf ((repo.join o.dtoRelPath).entry (Dto.fileName n.attestationType)),
      placeOf ((repo.join o.dtoGenericRelPath).entry "generic.dto.ts"),
      placeOf ((repo.join n.serviceModule).withExtension "service.ts"),
      placeOf ((repo.join n.controllerModule).withExtension "controller.ts"),
      placeOf ((repo.join n.controllerDir).entry s!"{n.fileStem}.controller.spec.ts")]

section Success

variable {here repo : Path} {s : Settings} {o : Options} {n : Names} {w : Workspace}

/-- A script is written where its directory is there, and nothing else changes. -/
theorem exists_runIn_writeScript (label text : String) {path : Path}
    (h : w.files.Accepts path) :
    ∃ w', (writeScript label path text).runIn w = (.ok path, w') ∧
      (∀ p, w.files.Accepts p → w'.files.Accepts p) ∧
      ∀ q, q ≠ placeOf path → w'.files.get? q = w.files.get? q := by
  obtain ⟨w', wrote, files⟩ := exists_runIn_writeGenerated_of_accepts label text h
  refine ⟨w', runIn_bind_of_ok wrote, fun p hp => files ▸ hp.set h _, fun q hq => ?_⟩
  rw [files, h.get?_set, if_neg hq]

/-- The scripts of a new verifier are written. -/
theorem exists_runIn_writeScripts {record : TypeRecord} {text : String}
    (ready : Ready w.files repo o n)
    (built : Dto.source n.attestationType record = .ok text) :
    ∃ written w', (writeScripts here repo o n record).runIn w = (.ok written, w') ∧
      w'.files.Accepts (repo.join o.appModuleRelativePath) ∧
      w'.files.get? (placeOf (repo.join o.appModuleRelativePath))
        = w.files.get? (placeOf (repo.join o.appModuleRelativePath)) := by
  obtain ⟨missing, before⟩ := ready.fresh
  have apart := ready.apart
  simp only [List.mem_cons, List.not_mem_nil, or_false, not_or] at before apart
  obtain ⟨service, made, -⟩ := exists_serviceSource_imports here o n
  -- Each write leaves the other places as they are and still open for the writes to come.
  obtain ⟨w₁, wrote₁, accepts₁, get₁⟩ := exists_runIn_writeScript "DTO" text ready.dto
  obtain ⟨w₂, wrote₂, accepts₂, get₂⟩ :=
    exists_runIn_writeScript "generic DTO" Dto.genericSource
    (accepts₁ _ ready.generic)
  have there₂ := accepts₂ _ (accepts₁ _ ready.service)
  have old : (readIfThere ((repo.join n.serviceModule).withExtension "service.ts")).runIn w₂
      = (.ok "", w₂) := by
    refine runIn_bind_of_ok (runIn_exists_ok_iff.mpr ⟨there₂.exists_eq_false ?_, rfl⟩)
    rw [get₂ _ before.2, get₁ _ before.1, missing]
  obtain ⟨w₃, wrote₃, accepts₃, get₃⟩ :=
    exists_runIn_writeScript "verifier service" service there₂
  obtain ⟨w₄, wrote₄, accepts₄, get₄⟩ :=
    exists_runIn_writeScript "verifier controller" (controllerSource here o n)
    (accepts₃ _ (accepts₂ _ (accepts₁ _ ready.controller)))
  rw [writeScripts, runIn_bind_of_ok (runIn_ofExcept_ok_iff.mpr ⟨built, rfl⟩),
    runIn_bind_of_ok wrote₁,
    runIn_bind_of_ok wrote₂, runIn_bind_of_ok old,
    runIn_bind_of_ok (runIn_ofExcept_ok_iff.mpr ⟨made, rfl⟩),
    runIn_bind_of_ok wrote₃, runIn_bind_of_ok wrote₄]
  have accepts := accepts₄ _ (accepts₃ _ (accepts₂ _ (accepts₁ _ ready.appModule)))
  have same : w₄.files.get? (placeOf (repo.join o.appModuleRelativePath))
      = w.files.get? (placeOf (repo.join o.appModuleRelativePath)) := by
    rw [get₄ _ apart.2.2.2.1, get₃ _ apart.2.2.1, get₂ _ apart.2.1, get₁ _ apart.1]
  dsimp only
  split
  · next tests =>
      obtain ⟨w₅, wrote₅, accepts₅, get₅⟩ :=
        exists_runIn_writeScript "controller spec" (controllerTestSource here o n)
        (accepts₄ _ (accepts₃ _ (accepts₂ _ (accepts₁ _ (ready.test tests)))))
      exact ⟨_, w₅, runIn_bind_of_ok wrote₅, accepts₅ _ accepts,
        (get₅ _ apart.2.2.2.2).trans same⟩
  · exact ⟨_, w₄, rfl, accepts, same⟩

/-- A verifier is wired into an app module that can be wired. -/
theorem exists_runIn_editAppModule {content : String} {wired : List Char}
    (unformatted : s.prettier = none)
    (accepts : w.files.Accepts (repo.join o.appModuleRelativePath))
    (there : w.files.get? (placeOf (repo.join o.appModuleRelativePath))
      = some (.file (.text content)))
    (made : wire here o n false content.toList = .ok wired) :
    ∃ w', (editAppModule here s repo o n false).runIn w = (.ok (), w') := by
  have updated : inContext s!"Failed to update app module {(repo.join o.appModuleRelativePath).text}"
      (orFail .edit (wire here o n false content.toList)) = .ok wired :=
    inContext_eq_ok_iff.mpr (orFail_eq_ok_iff.mpr made)
  obtain ⟨w', wrote, -⟩ := exists_runIn_write
    s!"Failed to write {(repo.join o.appModuleRelativePath).text}"
    (accepts.write (String.ofList wired))
  rw [editAppModule, runIn_bind_of_ok
    (runIn_readText_ok_iff.mpr ⟨accepts.readText there, rfl⟩),
    runIn_bind_of_ok (runIn_ofExcept_ok_iff.mpr ⟨updated, rfl⟩), runIn_bind_of_ok wrote,
    unformatted]
  exact ⟨_, rfl⟩

/-- A new verifier is installed for a type whose record is found. -/
theorem exists_runIn_install {t dataSource content text : String}
    {records : NameMap TypeRecord} {record : TypeRecord}
    {wired : List Char} (capital : IsCapital t) (unformatted : s.prettier = none)
    (ho : s.verifier.resolve dataSource = o) (hrepo : s.resolve o.repoPath = repo)
    (hn : Names.make o t dataSource = n) (ready : Ready w.files repo o n)
    (loaded : (TypeRecord.loadAll (s.resolve s.locations.configs) (some t)).runIn w
      = (.ok records, w))
    (found : records.get? t = some record)
    (built : Dto.source n.attestationType record = .ok text)
    (there : w.files.get? (placeOf (repo.join o.appModuleRelativePath))
      = some (.file (.text content)))
    (made : wire here o n false content.toList = .ok wired) :
    ∃ w', (install here s ("I" ++ t) dataSource false).runIn w = (.ok (), w') := by
  subst ho hrepo hn
  obtain ⟨written, w₁, scripts, accepts, same⟩ := exists_runIn_writeScripts ready built
  obtain ⟨w₂, formatted⟩ : ∃ w₂, (Plan.format s.prettier written).runIn w₁ = (.ok (), w₂) := by
    rw [unformatted]
    exact ⟨_, rfl⟩
  rw [← (keepsFiles_format unformatted _).files_eq formatted] at accepts same
  obtain ⟨w', edited⟩ := exists_runIn_editAppModule unformatted accepts (same.trans there) made
  refine ⟨w', ?_⟩
  simp only [install, bareName_append capital, Bool.false_eq_true, if_false]
  rw [runIn_bind_of_ok loaded, found]
  exact (runIn_bind_of_ok scripts).trans ((runIn_bind_of_ok formatted).trans edited)

end Success

end Attestation.Verifier
