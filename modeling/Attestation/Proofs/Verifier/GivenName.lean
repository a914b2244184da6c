import Attestation.Proofs.Record.Sparing
import Attestation.Proofs.Verifier.SameDto
import Attestation.Proofs.Workspace.Requests

/-!
# Types and the names of their interfaces

For all commands the user may give a type by its name or by that of its interface.  An
installation takes an `I` in front of a capital for that of an interface, without a look at the
types that there are.  This is right for the types whose names cannot be misread
(`Verifier.IsUnambiguous`), and for these both names install the same verifier
(`Invocation.verifierTemplate_isMeant`).

## Main definitions

* `Verifier.IsUnambiguous`: names that cannot be taken for the name of another interface.
* `Verifier.IsAbout`: runs that concern one type.

## Design notes

That two names mean the same is said of runs and not of results: with either name the run shows
the same and leaves the same files, also when it fails.  Runs are compared by what the user
sees of them, because the log names the command as it was given.
-/

namespace Attestation

open FileTree Plan Text

/-! ## Names -/

theorem TypeName.isMeant_iff {given t : String} : isMeant (some given) t = true ↔
    given = t ∨ given = "I" ++ t := by
  have dropped : dropStart? "I" given = some t ↔ given = "I" ++ t := by
    constructor
    · intro h
      rw [← String.toList_inj, String.toList_append]
      exact toList_of_dropStart? h
    · rintro rfl
      rw [dropStart?, String.toList_append, isPrefixOf?_append, Option.map_some,
        String.ofList_toList]
  simp [isMeant, dropped]

namespace Verifier

/-- The name starts with a capital, and not with the `I` of an interface in front of one.
The reading takes an `I` in front of a capital for that of an interface, whatever types there
are. -/
def IsUnambiguous (t : String) : Prop := IsCapital t ∧ ∀ rest, dropStart? "I" t = some rest →
    ¬ IsCapital rest

/-- A name is left as it is when no interface can be meant. -/
theorem bareName_eq_self_iff {given : String} :
    bareName given = given ↔ ∀ rest, dropStart? "I" given = some rest → ¬ IsCapital rest := by
  unfold bareName
  cases dropped : dropStart? "I" given with
  | none => simp
  | some name =>
      have shorter : name ≠ given := by
        intro same
        have chars := congrArg List.length (toList_of_dropStart? dropped)
        rw [same] at chars
        simp at chars
      dsimp only
      split
      · next capital =>
          exact ⟨fun same => absurd same shorter, fun h => absurd capital (h name rfl)⟩
      · next small =>
          refine ⟨fun _ rest hrest => ?_, fun _ => rfl⟩
          cases hrest
          exact small

/-- **Both names are read as the type exactly when its name is unambiguous.** -/
theorem bareName_of_isMeant_iff (t : String) :
    (∀ given, TypeName.isMeant (some given) t = true → bareName given = t) ↔
    IsUnambiguous t := by
  constructor
  · intro h
    have own := h t (TypeName.isMeant_iff.mpr (.inl rfl))
    refine ⟨?_, bareName_eq_self_iff.mp own⟩
    by_contra small
    have other := h ("I" ++ t) (TypeName.isMeant_iff.mpr (.inr rfl))
    have kept : bareName ("I" ++ t) = "I" ++ t := by
      refine bareName_eq_self_iff.mpr fun rest hrest => ?_
      have chars := toList_of_dropStart? hrest
      rw [String.toList_append] at chars
      rwa [← String.toList_inj.mp (List.append_cancel_left chars)]
    have chars := congrArg (fun s => s.toList.length) (kept.symm.trans other)
    simp at chars
  · rintro ⟨capital, single⟩ given meant
    rcases TypeName.isMeant_iff.mp meant with rfl | rfl
    · exact bareName_eq_self_iff.mpr single
    · exact bareName_append capital

end Verifier

/-! ## Loading -/

theorem SettingsFile.asksOnly_load (path : Path) : (load path).AsksOnly Request.Looks := by
  refine (asksOnly_readText trivial).bind fun text => ?_
  split
  · exact .done _
  · exact .fail _

theorem Settings.asksOnly_load (e : Environment) (root : Path) (named : Option Path) :
    (Settings.load e root named).AsksOnly Request.Looks := by
  refine AsksOnly.bind ?_ fun found => ?_
  · unfold SettingsFile.find
    split
    · refine (asksOnly_exists trivial).bind fun there => ?_
      split
      · exact .done _
      · exact .fail _
    · refine (asksOnly_exists trivial).bind fun there => ?_
      split
      · exact .done _
      · exact .done _
  · split
    · exact (asksOnly_log trivial).bind fun _ => (SettingsFile.asksOnly_load _).bind fun _ =>
        .done _
    · exact .done _

namespace TypeRecord

section AsksOnly

variable {kind : Request → Prop}

theorem asksOnly_load {path : Path} (h : kind (.readText path)) :
    (load path).AsksOnly kind := by
  refine (asksOnly_readText h).bind fun text => ?_
  split
  · exact .done _
  · exact .fail _

/-- Loading lists the directory and reads the files with the ending of records. -/
theorem asksOnly_loadAll {dir : Path} (specific : Option String) (listed : kind (.list dir))
    (reads : ∀ file, ".json".toList <:+ file.toList → kind (.readText (dir.entry file))) :
    (loadAll dir specific).AsksOnly kind := by
  refine asksOnly_filesEnding listed fun entries => asksOnly_foldlM (fun found file hfile =>
    ?_) _
  obtain ⟨-, ends⟩ := mem_fileNames_iff.mp hfile
  obtain ⟨front, dropped⟩ := Option.isSome_iff_exists.mp ends
  have suffix : ".json".toList <:+ file.toList :=
    ⟨front.toList, (toList_of_dropEndString? dropped).symm⟩
  unfold addFile
  dsimp only
  split
  · exact (asksOnly_load (reads file suffix)).bind fun _ => .done _
  · exact .done _

end AsksOnly

/-- A record that is loaded is read from a text. -/
theorem exists_text_of_load {path : Path} {record : TypeRecord} {w w' : Workspace}
    (h : (load path).runIn w = (.ok record, w')) : ∃ text, w.files.readText path = .ok text ∧
      parse text = some record := by
  obtain ⟨text, v, asked, h⟩ := runIn_bind_ok_iff.mp h
  obtain ⟨read, rfl⟩ := runIn_readText_ok_iff.mp asked
  split at h
  · next parsed =>
      obtain ⟨rfl, -⟩ := runIn_pure_ok_iff.mp h
      exact ⟨text, read, parsed⟩
  · cases h

/-- A file of a directory has the record of a type. -/
def IsRecordOf (files : FileTree) (dir : Path) (t : String) (record : TypeRecord) : Prop :=
  ∃ file text, dropEnds ".json" file = t ∧ files.readText (dir.entry file) = .ok text ∧
    parse text = some record

/-- The record of a type that is meant is found under its name when there is a file for it. -/
theorem exists_get?_of_loadAll {dir : Path} {specific : Option String} {t : String}
    {content : FileContent}
    {records : NameMap TypeRecord} {w w' : Workspace}
    (meant : TypeName.isMeant specific t = true)
    (there : w.files.get? (placeOf dir ++ [fileName t]) = some (.file content))
    (once : ¬ ".json".toList <:+ t.toList)
    (h : (loadAll dir specific).runIn w = (.ok records, w')) :
    ∃ record, records.get? t = some record ∧ IsRecordOf w.files dir t record := by
  obtain ⟨files, v, listed, h⟩ := runIn_bind_ok_iff.mp h
  have same : v.files = w.files := (keepsFiles_filesEnding _ _).files_eq listed
  have hfile : fileName t ∈ files := by
    rw [runIn_filesEnding_ok listed]
    exact mem_fileNames_entriesAt_iff.mpr ⟨⟨content, there⟩, isSome_dropEndString?_fileName t⟩
  -- Invariant over the files that are done: what is found under the name is the record of its
  -- file, and it is found once that file is among them.
  have inv := foldlM_runIn_induction
    (fun done (m : NameMap TypeRecord) u => u.files = w.files ∧
      (∀ record, m.get? t = some record → IsRecordOf w.files dir t record) ∧
      (fileName t ∈ done → ∃ record, m.get? t = some record)) ?_ ⟨same, ?_, nofun⟩ h
  · obtain ⟨-, isRecord, found⟩ := inv
    obtain ⟨record, hrecord⟩ := found hfile
    exact ⟨record, hrecord, isRecord record hrecord⟩
  · intro done file m m' u u' _ ⟨hu, isRecord, found⟩ run
    have hu' : u'.files = w.files :=
      ((keepsFiles_addFile dir specific m file).files_eq run).trans hu
    refine ⟨hu', ?_⟩
    unfold addFile at run
    dsimp only at run
    split at run
    · obtain ⟨read, u₁, loaded, run⟩ := runIn_bind_ok_iff.mp run
      obtain ⟨rfl, -⟩ := runIn_pure_ok_iff.mp run
      obtain ⟨text, hread, parsed⟩ := exists_text_of_load loaded
      rw [hu] at hread
      refine ⟨fun record hrecord => ?_, fun hmem => ?_⟩
      · rw [NameMap.get?_insert] at hrecord
        split at hrecord
        · next named =>
            cases hrecord
            exact ⟨file, text, named, hread, parsed⟩
        · exact isRecord record hrecord
      · rw [NameMap.get?_insert]
        split
        · exact ⟨read, rfl⟩
        · next other =>
            refine found ((List.mem_append.mp hmem).resolve_right fun last => other ?_)
            rw [← List.mem_singleton.mp last, dropEnds_fileName once]
    · next unmeant =>
        obtain ⟨rfl, -⟩ := runIn_pure_ok_iff.mp run
        refine ⟨isRecord, fun hmem =>
          found ((List.mem_append.mp hmem).resolve_right fun last => unmeant ?_)⟩
        rwa [← List.mem_singleton.mp last, dropEnds_fileName once]
  · intro record hrecord
    rw [NameMap.get?_empty] at hrecord
    cases hrecord

end TypeRecord

namespace Verifier

/-- What a run shows when it concerns one type: its verifier is taken out of the app module, or
its records cannot be loaded, or its verifier is installed with a record of it. -/
inductive IsAbout (here : Path) (s : Settings) (t dataSource : String) (clear : Bool)
    (w : Workspace) :
    Except Failure Unit × FileTree × String → Prop where
  | unwired : clear = true → IsAbout here s t dataSource clear w
      ((editAppModule here s (s.resolve (s.verifier.resolve dataSource).repoPath)
        (s.verifier.resolve dataSource)
        (Names.make (s.verifier.resolve dataSource) t dataSource) true).visible w)
  | unloaded {failure : Failure} : clear = false →
      ((TypeRecord.loadAll (s.resolve s.locations.configs) (some t)).runIn w).1
        = .error failure →
      IsAbout here s t dataSource clear w (.error failure, w.files, w.output)
  | installed {record : TypeRecord} : clear = false →
      TypeRecord.IsRecordOf w.files (s.resolve s.locations.configs) t record →
      IsAbout here s t dataSource clear w (Plan.visible (do
        let written ← writeScripts here (s.resolve (s.verifier.resolve dataSource).repoPath)
          (s.verifier.resolve dataSource)
          (Names.make (s.verifier.resolve dataSource) t dataSource) record
        Plan.format s.prettier written
        editAppModule here s (s.resolve (s.verifier.resolve dataSource).repoPath)
          (s.verifier.resolve dataSource)
          (Names.make (s.verifier.resolve dataSource) t dataSource) false) w)

variable {here : Path} {s : Settings} {t dataSource : String} {clear : Bool} {w : Workspace}

/-- An installation concerns the type that its name is read as. -/
theorem isAbout_install {given : String} {content : FileContent} (read : bareName given = t)
    (there : w.files.get? (placeOf (s.resolve s.locations.configs) ++ [TypeRecord.fileName t])
      = some (.file content))
    (once : ¬ ".json".toList <:+ t.toList) :
    IsAbout here s t dataSource clear w ((install here s given dataSource clear).visible
      w) := by
  unfold install
  dsimp only
  rw [read]
  cases clear with
  | true => exact .unwired rfl
  | false =>
      rw [if_neg Bool.false_ne_true]
      have looks : (TypeRecord.loadAll (s.resolve s.locations.configs) (some t)).AsksOnly
        Request.Looks :=
        TypeRecord.asksOnly_loadAll (some t) trivial fun _ _ => trivial
      cases loaded : (TypeRecord.loadAll (s.resolve s.locations.configs) (some t)).runIn w with
      | mk result v =>
          cases result with
          | error failure =>
              have failed := congrArg Prod.fst loaded
              rw [visible_bind_of_error looks failed]
              exact .unloaded rfl failed
          | ok records =>
              obtain ⟨record, found, isRecord⟩ := TypeRecord.exists_get?_of_loadAll
                (TypeName.isMeant_iff.mpr (.inl rfl)) there once loaded
              rw [looks.visible_bind loaded, found]
              exact .installed rfl isRecord

end Verifier

/-! ## Runs -/

/-- Once the settings are loaded, a run shows what its command shows. -/
theorem Invocation.visible_plan {here : Path} {e : Environment} {i : Invocation} {s : Settings}
    {w v : Workspace}
    (loaded : (Settings.load e i.root i.config).runIn w = (.ok s, v)) :
    (i.plan here e).visible w = (i.command.plan here s).visible w := by
  rw [Invocation.plan, (Settings.asksOnly_load e i.root i.config).visible_bind loaded]
  exact (asksOnly_log trivial).visible_bind rfl

open Verifier in
/-- **The name of a type and that of its interface install the same verifier**, and it is that
of the type, when and only when the name of the type is unambiguous: the runs end alike, leave
the same files and show the same, and concern the type.  The two runs differ in the events that
they log, which name what was given. -/
theorem Invocation.verifierTemplate_isMeant (here : Path) (e : Environment) (root : Path)
    (config : Option Path)
    (t dataSource : String) (clear : Bool) (w : Workspace) :
    ((∀ given, TypeName.isMeant (some given) t = true → bareName given = t) ↔
      IsUnambiguous t) ∧
      (IsUnambiguous t → ∀ given, TypeName.isMeant (some given) t = true →
        (Invocation.plan here e ⟨root, config,
          .verifierTemplate given dataSource clear⟩).visible w
            = (Invocation.plan here e ⟨root, config,
              .verifierTemplate t dataSource clear⟩).visible w ∧
          ∀ s v content, (Settings.load e root config).runIn w = (.ok s, v) →
            w.files.get? (placeOf (s.resolve s.locations.configs) ++ [TypeRecord.fileName t])
              = some (.file content) →
            ¬ ".json".toList <:+ t.toList →
            IsAbout here s t dataSource clear w
              ((Invocation.plan here e ⟨root, config,
                .verifierTemplate given dataSource clear⟩).visible w)) := by
  refine ⟨bareName_of_isMeant_iff t, fun unambiguous given meant => ?_⟩
  have read := (bareName_of_isMeant_iff t).mpr unambiguous
  refine ⟨?_, fun s v content loaded there once => ?_⟩
  · cases loaded : (Settings.load e root config).runIn w with
    | mk result v =>
        cases result with
        | error failure =>
            have looks := Settings.asksOnly_load e root config
            have failed := congrArg Prod.fst loaded
            rw [Invocation.plan, visible_bind_of_error looks failed, Invocation.plan,
              visible_bind_of_error looks failed]
        | ok s =>
            -- A run asks for the name in one place, where it is made bare.
            have same : install here s given dataSource clear
                = install here s t dataSource clear := by
              rw [install, install, read given meant,
                read t (TypeName.isMeant_iff.mpr (.inl rfl))]
            rw [Invocation.visible_plan loaded, Invocation.visible_plan loaded]
            exact congrArg (·.visible w) same
  · rw [Invocation.visible_plan loaded]
    exact isAbout_install (read given meant) there once

namespace Verifier

/-- The failure for a type that has no record. -/
def unrecorded (t : String) : Failure :=
  Failure.of (.other s!"No config for attestation type {t}, run the `config` command first")

/-- Nothing is installed for a type that has no record. -/
theorem runIn_install_unrecorded {here : Path} {s : Settings} {given t dataSource : String}
    {w v : Workspace}
    {records : NameMap TypeRecord} (read : bareName given = t)
    (loaded : (TypeRecord.loadAll (s.resolve s.locations.configs) (some t)).runIn w
      = (.ok records, v))
    (absent : records.get? t = none) :
    ((install here s given dataSource false).runIn w).1 = .error (unrecorded t) := by
  unfold install
  dsimp only
  rw [read, if_neg Bool.false_ne_true, runIn_bind_of_ok loaded, absent]
  rfl

end Verifier

/-- A project that has the record of one type. -/
def namedTree (t : String) : FileTree where
  nodes := [(["p"], .dir), (["p", "generated"], .dir), (["p", "generated", "config"], .dir),
    (["p", "generated", "config", TypeRecord.fileName t],
      .file (.text TypeRecord.smallRecord.render))]
  distinct := by simp

/-- The run for a name in that project. -/
def namedRun (given : String) : Plan Unit :=
  Invocation.plan ⟨"/"⟩ {} ⟨⟨"p"⟩, none, .verifierTemplate given "BTC" false⟩

/-- `Payment` can be given by the name of its interface. -/
theorem Invocation.verifierTemplate_isMeant_payment :
    (namedRun "IPayment").visible { files := namedTree "Payment" }
        = (namedRun "Payment").visible { files := namedTree "Payment" } ∧
      Verifier.IsAbout ⟨"/"⟩ usualSettings "Payment" "BTC" false
        { files := namedTree "Payment" }
        ((namedRun "IPayment").visible { files := namedTree "Payment" }) := by
  have unambiguous : Verifier.IsUnambiguous "Payment" := by
    refine ⟨by decide, fun rest hrest => ?_⟩
    cases (show dropStart? "I" "Payment" = none from rfl).symm.trans hrest
  have there : (namedTree "Payment").get? ["p", "generated", "config", "Payment.json"]
      = some (.file (.text TypeRecord.smallRecord.render)) := rfl
  obtain ⟨same, about⟩ := (Invocation.verifierTemplate_isMeant ⟨"/"⟩ {} ⟨"p"⟩ none "Payment"
    "BTC" false
    { files := namedTree "Payment" }).2 unambiguous "IPayment" rfl
  exact ⟨same, about usualSettings _ _ rfl there (by decide)⟩

theorem runIn_namedRun {given t kept : String} {records : NameMap TypeRecord}
    (read : Verifier.bareName given = t)
    (listed : (namedTree kept).list ⟨"p/generated/config"⟩
      = .ok [⟨TypeRecord.fileName kept, true⟩])
    (ending : (dropEndString? ".json" (TypeRecord.fileName kept)).isSome = true)
    (added : (TypeRecord.addFile ⟨"p/generated/config"⟩ (some t) .empty
      (TypeRecord.fileName kept)).runIn
      { files := namedTree kept } = (.ok records, { files := namedTree kept }))
    (absent : records.get? t = none) :
    ((namedRun given).runIn { files := namedTree kept }).1
      = .error (Verifier.unrecorded t) := by
  have settings : (Settings.load {} ⟨"p"⟩ none).runIn { files := namedTree kept }
      = (.ok usualSettings, { files := namedTree kept }) := rfl
  have names : fileNames ".json" [⟨TypeRecord.fileName kept, true⟩]
      = [TypeRecord.fileName kept] := by
    rw [fileNames, List.filter_cons_of_pos (by simp [ending]), List.filter_nil]
    exact List.mergeSort_singleton _
  have loaded : (TypeRecord.loadAll ⟨"p/generated/config"⟩ (some t)).runIn
    { files := namedTree kept }
      = (.ok records, { files := namedTree kept }) := by
    refine runIn_bind_ok_iff.mpr ⟨[TypeRecord.fileName kept], _, ?_,
      runIn_bind_ok_iff.mpr ⟨records, _, added, rfl⟩⟩
    exact runIn_bind_ok_iff.mpr ⟨_, _, runIn_list_ok_iff.mpr ⟨listed, rfl⟩,
      runIn_pure_ok_iff.mpr ⟨names, rfl⟩⟩
  have configs : usualSettings.resolve usualSettings.locations.configs
      = ⟨"p/generated/config"⟩ := rfl
  rw [← configs] at loaded
  have shown : (namedRun given).visible { files := namedTree kept }
      = (Verifier.install ⟨"/"⟩ usualSettings given "BTC" false).visible
        { files := namedTree kept } :=
    @Invocation.visible_plan ⟨"/"⟩ {} ⟨⟨"p"⟩, none, .verifierTemplate given "BTC" false⟩ _ _ _
      settings
  rw [visible, visible, Prod.mk.injEq] at shown
  exact shown.1.trans (Verifier.runIn_install_unrecorded read loaded absent)

/-- A type `IBAN` is taken for the interface of a type `BAN`, and the interface `Ipayment` for
a type of its own. Neither has a record, so both runs fail. -/
theorem exists_verifierTemplate_misread :
    (∃ record, TypeRecord.IsRecordOf (namedTree "IBAN") ⟨"p/generated/config"⟩ "IBAN" record) ∧
      TypeName.isMeant (some "IBAN") "IBAN" = true ∧
      ((namedRun "IBAN").runIn { files := namedTree "IBAN" }).1
        = .error (Verifier.unrecorded "BAN") ∧
      (∃ record, TypeRecord.IsRecordOf (namedTree "payment") ⟨"p/generated/config"⟩ "payment"
        record) ∧
      TypeName.isMeant (some "Ipayment") "payment" = true ∧
      ((namedRun "Ipayment").runIn { files := namedTree "payment" }).1
        = .error (Verifier.unrecorded "Ipayment") := by
  have parsed : TypeRecord.parse TypeRecord.smallRecord.render = some TypeRecord.smallRecord :=
    TypeRecord.parse_render (by rintro j (h | h | h) <;> cases h)
  have added : (TypeRecord.addFile ⟨"p/generated/config"⟩ (some "Ipayment") .empty
    (TypeRecord.fileName "payment")).runIn
      { files := namedTree "payment" }
        = (.ok (NameMap.empty.insert "payment" TypeRecord.smallRecord),
          { files := namedTree "payment" }) := by
    refine runIn_bind_ok_iff.mpr ⟨TypeRecord.smallRecord, _, ?_, rfl⟩
    refine runIn_bind_ok_iff.mpr ⟨TypeRecord.smallRecord.render, _,
      runIn_readText_ok_iff.mpr ⟨rfl, rfl⟩, ?_⟩
    rw [parsed]
    rfl
  exact ⟨⟨_, "IBAN.json", _, rfl, rfl, parsed⟩, rfl, runIn_namedRun rfl rfl rfl rfl rfl,
    ⟨_, "payment.json", _, rfl, rfl, parsed⟩, rfl, runIn_namedRun rfl rfl rfl added rfl⟩

end Attestation
