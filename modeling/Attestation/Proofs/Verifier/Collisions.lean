import Attestation.Proofs.Verifier.Bystanders

/-!
# Verifiers that share names

The classes of a verifier are named for its data source and its type, one behind the other; its
files for the small letters of the one and the kebab form of the other.  Different verifiers
can agree in either, such as `BT` with `CPayment` and `BTC` with `Payment`.  Where they do not,
no command for the one touches the other (`isApart_make`).

## Main definitions

* `Call`, `callAll`: calls of the command, one after the other.
* `IsApart`: what is known of a verifier among others.

## Design notes

A formatter is a program outside of this project, so it is a parameter of a workspace and not
part of the model.  What is asked of it is that it leaves alone what it is not given
(`Programs.Confines`), and only for the calls that name one.

Calls may fail, and may come in any number; a script of another verifier is a file that no
request of theirs concerns, so that it can be exchanged for any other content without a
difference to the run (`Plan.AsksOnly.runIn_refill`).
-/

namespace Attestation.Verifier

open FileTree Text ArrayLiteral ImportBlock

/-! ## Calls -/

/-- A call of the command that installs verifiers and takes them out. -/
structure Call where
  settings : Settings
  /-- The name that the user gives for the type. -/
  given : String
  dataSource : String
  clear : Bool

namespace Call

variable (here : Path)

/-- What the call does. -/
def plan (c : Call) : Plan Unit := install here c.settings c.given c.dataSource c.clear

/-- The app module that the call edits. -/
def appModule (c : Call) : Path :=
  (c.settings.resolve (c.settings.verifier.resolve c.dataSource).repoPath).join
    (c.settings.verifier.resolve c.dataSource).appModuleRelativePath

/-- The call is for a verifier that has not the files of the given one, a script is not its app
module, and its formatter leaves the script alone.  Nothing is asked of its classes, which only
matter to the app module. -/
structure Spares (c : Call) (programs : Programs) (t d : String) (script : Path) : Prop where
  type : IsAlphanum (bareName c.given)
  source : IsAlphanum c.dataSource
  apart : ¬ SameFiles (bareName c.given) c.dataSource t d
  appModule : placeOf c.appModule ≠ placeOf script
  formatter : ∀ command ∈ c.settings.prettier, programs.Confines command (placeOf script)

end Call

/-- How calls end that are made one after the other, and the workspace behind them. -/
def callAll (here : Path) : List Call → Workspace → List (Except Failure Unit) × Workspace
  | [], w => ([], w)
  | c :: more, w =>
      let (result, behind) := (c.plan here).runIn w
      let (results, last) := callAll here more behind
      (result :: results, last)

section Calls

variable {here : Path} {q : Place} {calls : List Call} {w : Workspace}
  (avoid : ∀ c ∈ calls, (c.plan here).AsksOnly (Request.Avoids w.programs q))
include avoid

theorem callAll_refill (content : FileContent) :
    callAll here calls (w.refill q content)
      = ((callAll here calls w).1, (callAll here calls w).2.refill q content) := by
  induction calls generalizing w with
  | nil => rfl
  | cons c more ih =>
      rw [List.forall_mem_cons] at avoid
      rw [callAll, callAll, avoid.1.runIn_refill]
      dsimp only
      rw [ih (by rw [Plan.programs_runIn]; exact avoid.2)]

theorem callAll_keeps_file {content : FileContent}
    (there : w.files.get? q = some (.file content)) :
    (callAll here calls w).2.files.get? q = some (.file content) := by
  induction calls generalizing w with
  | nil => exact there
  | cons c more ih =>
      rw [List.forall_mem_cons] at avoid
      exact ih (by rw [Plan.programs_runIn]; exact avoid.2) (avoid.1.keeps_file there)

end Calls

/-! ## A verifier among others -/

/-- **What is known of a verifier among others**: with whom it shares names, and that commands
for all the others leave it alone. -/
structure IsApart (here : Path) (t d : String) : Prop where
  /-- The classes are those of another verifier exactly when data source and type read the same
  one behind the other. -/
  classes : ∀ o t' d', IsAlphanum t' → IsAlphanum d' →
    ((Names.make o t' d').serviceClass = (Names.make o t d).serviceClass ↔ d' ++ t' = d ++ t) ∧
    ((Names.make o t' d').controllerClass = (Names.make o t d).controllerClass ↔
      d' ++ t' = d ++ t)
  /-- The files are those of another verifier exactly when the data sources are the same in
  small letters and the types have the same kebab form. -/
  modules : ∀ o t' d', IsAlphanum t' → IsAlphanum d' →
    ((Names.make o t' d').serviceModule = (Names.make o t d).serviceModule ↔
      SameFiles t' d' t d) ∧
    ((Names.make o t' d').controllerModule = (Names.make o t d).controllerModule ↔
      SameFiles t' d' t d)
  /-- Calls for verifiers with other files keep each script, and what they do does not depend
  on it. -/
  scripts : ∀ (o : Options) (repo : Path), ∀ script ∈ (Names.make o t d).scripts,
    ∀ (calls : List Call) (w : Workspace),
    (∀ c ∈ calls, c.Spares w.programs t d (repo.join script)) → ∀ content,
      callAll here calls (w.refill (placeOf (repo.join script)) content)
        = ((callAll here calls w).1,
          (callAll here calls w).2.refill (placeOf (repo.join script)) content) ∧
      (w.files.get? (placeOf (repo.join script)) = some (.file content) →
        (callAll here calls w).2.files.get? (placeOf (repo.join script))
          = some (.file content))
  /-- In an app module that imports it, it stays wired while a verifier with other files and
  classes is wired. -/
  wired : ∀ o t' d', IsAlphanum t' → IsAlphanum d' → ¬ SameFiles t' d' t d →
  d' ++ t' ≠ d ++ t →
    (∀ i ∈ own here o (Names.make o t' d'), ∀ name ∈ arrayNames,
      ¬ Occurs name i.module.toList) →
    ∀ clear content result, ArraysBehind content →
      (∃ i ∈ (ofText content).imports, ∃ j ∈ own here o (Names.make o t d),
        i.module = j.module) →
      wire here o (Names.make o t' d') clear content = .ok result →
      StaysWired here o (Names.make o t d) content result

/-- **A verifier is apart from all others with which it shares no names.**  Its names come
about by putting data source and type together, so verifiers share them exactly where these
texts meet; all other calls leave its scripts alone and do not look at them, and keep it
wired. -/
theorem isApart_make (here : Path) {t d : String} (ht : IsAlphanum t) (hd : IsAlphanum d) :
    IsApart here t d where
  classes _ _ _ _ _ := ⟨serviceClass_eq_iff, controllerClass_eq_iff⟩
  modules o _ _ ht' hd' := ⟨serviceModule_eq_iff o ht' hd' ht hd,
    controllerModule_eq_iff o ht' hd' ht hd⟩
  scripts o repo script hscript calls w spare content := by
    have avoid : ∀ c ∈ calls, (c.plan here).AsksOnly (Request.Avoids w.programs
      (placeOf (repo.join script))) := by
      intro c hc
      have spares := spare c hc
      exact asksOnly_install spares.type spares.source ht hd hscript spares.apart here c.clear
        rfl spares.formatter
        spares.appModule
    exact ⟨callAll_refill avoid content, callAll_keeps_file avoid⟩
  wired o t' d' ht' hd' files classes still clear content result behind imported run := by
    refine staysWired_of_wire (isAlphanum_controllerClass o ht' hd')
      (isAlphanum_serviceClass o ht' hd')
      (isAlphanum_controllerClass o ht hd)
      (isAlphanum_serviceClass o ht hd) ?_ ?_ ?_ still behind imported run
    · exact fun same => classes (controllerClass_eq_iff.mp same.symm)
    · exact fun same => classes (serviceClass_eq_iff.mp same.symm)
    · exact fun i hi j hj => own_module_ne ht' hd' ht hd files hi hj

/-! ## Payments with different data sources -/

/-- An app module with the Bitcoin verifier of payments. -/
def paymentModule : List Char :=
  ("import \x7b BTCPaymentVerifierService \x7d from './service/btc/btc-payment-verifier.service';\n"
    ++ "controllers: [BTCPaymentVerifierController], providers: [BTCPaymentVerifierService]").toList

/-- A repository with that app module and the service of that verifier. -/
def paymentTree : FileTree where
  nodes := [(["verifier-server-template"], .dir), (["verifier-server-template", "src"], .dir),
    (["verifier-server-template", "src", "app.module.ts"],
      .file (.text (String.ofList paymentModule))),
    (["verifier-server-template", "src", "service"], .dir),
    (["verifier-server-template", "src", "service", "btc"], .dir),
    (["verifier-server-template", "src", "service", "btc", "btc-payment-verifier.service.ts"],
      .file (.text "// by hand"))]
  distinct := by simp

/-- A formatter that ends each of its files with one line break. -/
def tidy : Programs
  | "prettier", "--write" :: paths, files =>
      some { writes := paths.filterMap fun path =>
        (files.readText ⟨path⟩).toOption.map fun text =>
        (⟨path⟩, String.ofList (trimEnd text.toList ++ ['\n'])) }
  | _, _, _ => none

/-- It reads and writes its files alone. -/
theorem confines_tidy (q : Place) : tidy.Confines "prettier" q := by
  intro program options cut files others
  obtain ⟨rfl, rfl⟩ := List.cons.inj
    ((by decide : (words "prettier".toList).map String.ofList = ["prettier"]).symm.trans cut)
  constructor
  · intro t content
    have same : ∀ file ∈ files, (t.refill q content).readText ⟨file.text⟩
        = t.readText ⟨file.text⟩ :=
      fun file hfile => readText_refill (others file hfile)
    simp only [tidy, List.nil_append, List.filterMap_map]
    rw [List.filterMap_congr fun file hfile => by rw [Function.comp_apply, same file hfile]]
    rfl
  · rintro t outcome ⟨⟩ file hfile
    obtain ⟨path, hpath, written⟩ := List.mem_filterMap.mp hfile
    obtain ⟨text, -, rfl⟩ := Option.map_eq_some_iff.mp written
    obtain ⟨own, hown, rfl⟩ := List.mem_map.mp hpath
    exact others own hown

/-- A call that takes out the Dogecoin verifier of payments, with a formatter. -/
def dogeCall : Call := ⟨{ usualSettings with prettier := some "prettier" },
    "IPayment", "DOGE", true⟩

theorem imports_paymentModule : (ofText paymentModule).imports
    = [.ofNames "./service/btc/btc-payment-verifier.service"
      ["BTCPaymentVerifierService"]] := by
  unfold paymentModule
  rw [String.toList_append, String.toList_ofList, String.toList_ofList]
  decide +kernel

theorem arraysBehind_paymentModule : ArraysBehind paymentModule := by
  unfold paymentModule
  rw [String.toList_append, String.toList_ofList, String.toList_ofList]
  exact arraysBehind_of_all (by decide +kernel)

/-- What the Dogecoin verifier imports. -/
theorem own_doge : own ⟨"/"⟩ .template (Names.make .template "Payment" "DOGE")
    = [.ofNames "./controller/doge/doge-payment-verifier.controller"
      ["DOGEPaymentVerifierController"],
      .ofNames "./service/doge/doge-payment-verifier.service"
        ["DOGEPaymentVerifierService"]] := by
  rw [own_template _ isAlphanum_payment isAlphanum_doge]
  decide +kernel

theorem exists_wire_paymentModule : ∃ result,
    wire ⟨"/"⟩ .template (Names.make .template "Payment" "DOGE") true paymentModule
      = .ok result := by
  have doge := own_doge
  rw [own, List.cons.injEq, List.cons.injEq] at doge
  obtain ⟨controller, service, -⟩ := doge
  have ok : (wire ⟨"/"⟩ .template (Names.make .template "Payment" "DOGE") true
    paymentModule).toOption.isSome = true := by
    unfold wire wireImports paymentModule
    rw [controller, service, String.toList_append, String.toList_ofList, String.toList_ofList]
    decide +kernel
  exact (Option.isSome_iff_exists.mp ok).imp fun _ => ok_of_toOption

/-- The app module imports the service of the Bitcoin verifier. -/
theorem exists_imported_paymentModule : ∃ i ∈ (ofText paymentModule).imports,
    ∃ j ∈ own ⟨"/"⟩ .template (Names.make .template "Payment" "BTC"), i.module = j.module := by
  rw [imports_paymentModule, own_template _ isAlphanum_payment isAlphanum_btc]
  exact ⟨_, List.mem_cons_self, _, List.mem_cons_of_mem _ List.mem_cons_self,
    by decide +kernel⟩

/-- The Bitcoin verifier of payments keeps its service and its place in the app module when the
Dogecoin verifier is taken out and the app module is put into shape. -/
theorem isApart_payment : IsApart ⟨"/"⟩ "Payment" "BTC" ∧
    (callAll ⟨"/"⟩ [dogeCall] { files := paymentTree, programs := tidy }).2.files.get?
        ["verifier-server-template", "src", "service", "btc",
          "btc-payment-verifier.service.ts"]
      = some (.file (.text "// by hand")) ∧
    ∃ result, wire ⟨"/"⟩ .template (Names.make .template "Payment" "DOGE") true paymentModule
      = .ok result ∧
      StaysWired ⟨"/"⟩ .template (Names.make .template "Payment" "BTC") paymentModule
        result := by
  have apart := isApart_make ⟨"/"⟩ isAlphanum_payment isAlphanum_btc
  have differ : ¬ SameFiles "Payment" "DOGE" "Payment" "BTC" := by decide +kernel
  refine ⟨apart, ?_, ?_⟩
  · have place : placeOf ((⟨"p/../verifier-server-template"⟩ : Path).join
      (Names.make .template "Payment" "BTC").serviceFile)
        = ["verifier-server-template", "src", "service", "btc",
          "btc-payment-verifier.service.ts"] := by decide +kernel
    have spares : ∀ c ∈ [dogeCall], c.Spares tidy "Payment" "BTC"
        ((⟨"p/../verifier-server-template"⟩ : Path).join
          (Names.make .template "Payment" "BTC").serviceFile) := by
      rw [List.forall_mem_singleton]
      refine ⟨isAlphanum_payment, isAlphanum_doge, differ, ?_, fun command configured => ?_⟩
      · rw [place]
        decide +kernel
      · obtain rfl := Option.some.inj configured
        exact confines_tidy _
    have kept := (apart.scripts .template ⟨"p/../verifier-server-template"⟩ _
      List.mem_cons_self [dogeCall]
      { files := paymentTree, programs := tidy } spares (.text "// by hand")).2
    rw [place] at kept
    exact kept rfl
  · obtain ⟨result, run⟩ := exists_wire_paymentModule
    have brackets : ∀ i ∈ own ⟨"/"⟩ .template (Names.make .template "Payment" "DOGE"),
      '[' ∉ i.module.toList := by
      rw [own_doge]
      decide
    exact ⟨result, run, apart.wired .template "Payment" "DOGE" isAlphanum_payment
      isAlphanum_doge differ (by decide)
      (fun i hi _ _ => not_occurs_of_not_mem (brackets i hi)) true paymentModule result
        arraysBehind_paymentModule
      exists_imported_paymentModule run⟩

/-- Taking out a verifier takes out one whose classes have the same names. -/
theorem wire_colliding : wire ⟨"/"⟩ .template (Names.make .template "CPayment" "BT") true
      "controllers: [BTCPaymentVerifierController], providers: [BTCPaymentVerifierService]".toList
    = .ok "controllers: [], providers: []".toList := by
  have own_bt : own ⟨"/"⟩ .template (Names.make .template "CPayment" "BT")
      = [.ofNames "./controller/bt/bt-c-payment-verifier.controller"
        ["BTCPaymentVerifierController"],
        .ofNames "./service/bt/bt-c-payment-verifier.service"
          ["BTCPaymentVerifierService"]] := by
    rw [own_template _ ⟨by decide, forall_mem_of_all (by decide)⟩
      ⟨by decide, forall_mem_of_all (by decide)⟩]
    decide +kernel
  rw [own, List.cons.injEq, List.cons.injEq] at own_bt
  obtain ⟨controller, service, -⟩ := own_bt
  unfold wire wireImports
  rw [controller, service, String.toList_ofList, String.toList_ofList]
  decide +kernel

/-- **Verifiers that collide.**  `BT` with `CPayment` has the classes of `BTC` with `Payment`,
so that taking it out of an app module takes out the other; data sources that only differ in
capitals, and types with one kebab form, have the same files; and options can make a script of
a verifier the app module. -/
theorem exists_collision :
    ((Names.make .template "CPayment" "BT").serviceClass
        = (Names.make .template "Payment" "BTC").serviceClass ∧
      (Names.make .template "CPayment" "BT").controllerClass
        = (Names.make .template "Payment" "BTC").controllerClass ∧
      wire ⟨"/"⟩ .template (Names.make .template "CPayment" "BT") true
          "controllers: [BTCPaymentVerifierController], providers: [BTCPaymentVerifierService]".toList
        = .ok "controllers: [], providers: []".toList) ∧
    ((Names.make .template "Payment" "btc").serviceModule
        = (Names.make .template "Payment" "BTC").serviceModule ∧
      (Names.make .template "Payment" "btc").controllerModule
        = (Names.make .template "Payment" "BTC").controllerModule) ∧
    ((Names.make .template "payment" "BTC").serviceModule
        = (Names.make .template "Payment" "BTC").serviceModule ∧
      (Names.make .template "payment" "BTC").controllerModule
        = (Names.make .template "Payment" "BTC").controllerModule) ∧
    ∃ o : Options, (⟨"p"⟩ : Path).join o.appModuleRelativePath
      = (⟨"p"⟩ : Path).join (Names.make o "Payment" "BTC").serviceFile :=
  ⟨⟨by decide +kernel, by decide +kernel, wire_colliding⟩,
    by decide +kernel, by decide +kernel,
    { Options.template with appModuleRelativePath :=
      ⟨"src/service/btc/btc-payment-verifier.service.ts"⟩ },
    by decide +kernel⟩

end Attestation.Verifier
