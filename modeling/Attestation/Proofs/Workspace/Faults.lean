import Attestation.Proofs.Workspace.Run

/-!
# Plans that fail for known reasons

A plan that loads something fails when a fault is in the files, and only then.  A plan that
loads before it changes anything gives up on a fault with all files unchanged.

* `Plan.FailsFor`: the plan fails exactly for the faults that are listed.
* `Plan.GivesUpFor`: a fault ends the plan before it changes anything.

The statement `Plan.givesUpFor_bind` puts a plan that only looks in front of one that gives up.

## Design notes

To say that a command gives up on every fault one has to know what its faults are.  They are
collected along the plan, as a predicate on the files, and `FailsFor` is an equivalence: a
listed fault does occur, and no other failure is possible as long as nothing has been changed.
-/

namespace Attestation.Plan

variable {α β : Type} {files : FileTree}

/-- The plan fails for the faults that are listed and for nothing else: with one of them if
there is any, and never without one.  Plans in a row fail for the faults of either, the first
one first. -/
structure FailsFor (p : Plan α) (files : FileTree) (fault : Failure → Prop) : Prop where
  error : ∀ w failure, w.files = files → (p.runIn w).1 = .error failure → fault failure
  ok : ∀ w a, w.files = files → (p.runIn w).1 = .ok a → ∀ failure, ¬ fault failure

/-- If there is a fault, then the plan fails with one, and all files and directories are as
before.  It may still fail in another way when there is none. -/
def GivesUpFor (p : Plan α) (files : FileTree) (fault : Failure → Prop) : Prop :=
  ∀ w, w.files = files → (∃ failure, fault failure) →
    ∃ failure, fault failure ∧ (p.runIn w).1 = .error failure ∧ (p.runIn w).2.files = files

section FailsFor

variable {fault fault' : Failure → Prop}

theorem FailsFor.congr {p : Plan α} (h : p.FailsFor files fault)
    (same : ∀ failure, fault failure ↔ fault' failure) :
    p.FailsFor files fault' where
  error w failure hw run := (same failure).mp (h.error w failure hw run)
  ok w a hw run failure found := h.ok w a hw run failure ((same failure).mpr found)

theorem failsFor_pure (a : α) (sound : ∀ failure, ¬ fault failure) :
    (pure a : Plan α).FailsFor files fault where
  error _ _ _ run := by cases run
  ok _ _ _ _ := sound

theorem failsFor_fail {failure : Failure} (h : fault failure) :
    (fail failure : Plan α).FailsFor files fault where
  error _ _ _ run := by
    cases run
    exact h
  ok _ _ _ run := by cases run

theorem failsFor_bind {p : Plan α} {f : α → Plan β} (looks : p.KeepsFiles)
    (error : ∀ w failure, w.files = files → (p.runIn w).1 = .error failure → fault failure)
    (ok : ∀ w a, w.files = files → (p.runIn w).1 = .ok a → (f a).FailsFor files fault) :
    (p >>= f).FailsFor files fault := by
  have follow : ∀ w, w.files = files →
      (∃ failure, fault failure ∧ ((p >>= f).runIn w).1 = .error failure) ∨
        ∃ a v, v.files = files ∧ (f a).FailsFor files fault ∧
          (p >>= f).runIn w = (f a).runIn v := by
    intro w hw
    have step : (p >>= f).runIn w = (p.bind f).runIn w := rfl
    rw [step, runIn_bind]
    cases run : p.runIn w with
    | mk result v =>
        have kept : v.files = files := (looks.files_eq run).trans hw
        cases result with
        | error failure =>
            exact .inl ⟨failure, error w failure hw (congrArg Prod.fst run), rfl⟩
        | ok a => exact .inr ⟨a, v, kept, ok w a hw (congrArg Prod.fst run), rfl⟩
  constructor
  · intro w failure hw run
    obtain ⟨failure', found, whole⟩ | ⟨a, v, hv, second, whole⟩ := follow w hw
    · rw [whole, Except.error.injEq] at run
      exact run ▸ found
    · exact second.error v failure hv (whole ▸ run)
  · intro w b hw run
    obtain ⟨failure', -, whole⟩ | ⟨a, v, hv, second, whole⟩ := follow w hw
    · rw [whole] at run
      cases run
    · exact second.ok v b hv (whole ▸ run)

/-- What is made of the value of a plan does not make it fail. -/
theorem FailsFor.bind_pure {p : Plan α} (h : p.FailsFor files fault) (looks : p.KeepsFiles)
    (g : α → β) :
    (p >>= fun a => pure (g a)).FailsFor files fault :=
  failsFor_bind looks h.error fun w a hw run => failsFor_pure (g a) (h.ok w a hw run)

theorem failsFor_log {event : Log.Event} {f : Unit → Plan β}
    (h : (f ()).FailsFor files fault) :
    (log event >>= f).FailsFor files fault :=
  failsFor_bind (keepsFiles_log event) (fun _ _ _ run => by cases run) fun _ _ _ _ => h

theorem failsFor_ofExcept {result : Except Failure α} {f : α → Plan β}
    (error : ∀ failure, result = .error failure → fault failure)
    (ok : ∀ a, result = .ok a → (f a).FailsFor files fault) :
    (ofExcept result >>= f).FailsFor files fault := by
  cases result with
  | error failure => exact failsFor_fail (error failure rfl)
  | ok a => exact ok a rfl

theorem failsFor_exists {path : Path} {f : Bool → Plan β}
    (h : (f (files.exists path)).FailsFor files fault) :
    (Plan.exists path >>= f).FailsFor files fault := by
  refine failsFor_bind (keepsFiles_exists path) (fun _ _ _ run => by cases run) fun w there hw
    run => ?_
  have same : w.files.exists path = there := Except.ok.inj run
  rwa [← same, hw]

/-- What a plan does with the answer to a question about files. -/
theorem failsFor_checked {p : Plan α} {context : String} (answer : FileTree → Except IoError α)
    {f : α → Plan β}
    (looks : p.KeepsFiles) (asks : ∀ w, p.runIn w = (checked context (answer w.files)).runIn w)
    (error : ∀ e, answer files = .error e → fault ⟨[context], .io e⟩)
    (ok : ∀ a, answer files = .ok a → (f a).FailsFor files fault) :
    (p >>= f).FailsFor files fault := by
  refine failsFor_bind looks (fun w failure hw run => ?_) fun w a hw run => ?_
  · rw [asks, hw] at run
    cases found : answer files with
    | error e =>
        rw [found] at run
        exact Except.error.inj run ▸ error e found
    | ok a =>
        rw [found] at run
        cases run
  · rw [asks, hw] at run
    cases found : answer files with
    | error e =>
        rw [found] at run
        cases run
    | ok b =>
        rw [found] at run
        exact Except.ok.inj run ▸ ok b found

theorem failsFor_readText {context : String} {path : Path} {f : String → Plan β}
    (error : ∀ e, files.readText path = .error e → fault ⟨[context], .io e⟩)
    (ok : ∀ text, files.readText path = .ok text → (f text).FailsFor files fault) :
    (readText context path >>= f).FailsFor files fault :=
  failsFor_checked (·.readText path) (keepsFiles_readText context path) (fun _ => rfl) error ok

theorem failsFor_list {context : String} {path : Path} {f : List DirEntry → Plan β}
    (error : ∀ e, files.list path = .error e → fault ⟨[context], .io e⟩)
    (ok : ∀ entries, files.list path = .ok entries → (f entries).FailsFor files fault) :
    (list context path >>= f).FailsFor files fault :=
  failsFor_checked (·.list path) (keepsFiles_list context path) (fun _ => rfl) error ok

theorem failsFor_filesEnding {ending : String} {dir : Path} {f : List String → Plan β}
    (error : ∀ e, files.list dir = .error e →
      fault ⟨[s!"Failed to read directory {dir.text}"], .io e⟩)
    (ok : ∀ entries, files.list dir = .ok entries →
      (f (fileNames ending entries)).FailsFor files fault) :
    (filesEnding ending dir >>= f).FailsFor files fault := by
  have step : (filesEnding ending dir >>= f)
      = list s!"Failed to read directory {dir.text}" dir >>= fun entries =>
      f (fileNames ending entries) := by
    refine congrArg (Plan.ask (.list dir)) (funext fun answer => ?_)
    cases answer <;> rfl
  rw [step]
  exact failsFor_list error ok

/-- A plan for each member of a list fails for the faults of the members. -/
theorem failsFor_foldlM {f : β → α → Plan β} {member : α → Failure → Prop} {as : List α}
    (looks : ∀ b a, (f b a).KeepsFiles) (h : ∀ b, ∀ a ∈ as, (f b a).FailsFor files (member a))
    (b : β) :
    (as.foldlM f b).FailsFor files fun failure => ∃ a ∈ as, member a failure := by
  induction as generalizing b with
  | nil => exact failsFor_pure b fun _ ⟨_, hmem, _⟩ => List.not_mem_nil hmem
  | cons a as ih =>
      have first := fun b => h b a List.mem_cons_self
      refine failsFor_bind (looks b a) (fun w failure hw run => ?_) fun w c hw run => ?_
      · exact ⟨a, List.mem_cons_self, (first b).error w failure hw run⟩
      · refine (ih (fun b a' ha => h b a' (List.mem_cons_of_mem _ ha)) c).congr fun failure =>
          ?_
        simp [(first b).ok w c hw run failure]

end FailsFor

/-! ## Giving up -/

variable {fault fault' : Failure → Prop}

/-- A plan that has no faults has none to give up for. -/
theorem givesUpFor_of_forall_not (p : Plan α) (none_ : ∀ failure, ¬ fault failure) :
    p.GivesUpFor files fault :=
  fun _ _ ⟨failure, found⟩ => absurd found (none_ failure)

theorem GivesUpFor.congr {p : Plan α} (h : p.GivesUpFor files fault)
    (same : ∀ failure, fault failure ↔ fault' failure) :
    p.GivesUpFor files fault' := by
  rintro w hw ⟨failure, found⟩
  obtain ⟨failure', found', gaveUp⟩ := h w hw ⟨failure, (same failure).mpr found⟩
  exact ⟨failure', (same failure').mp found', gaveUp⟩

/-- **A plan that only looks, then one that gives up**: no fault of either comes to light after
a change. -/
theorem givesUpFor_bind {p : Plan α} {f : α → Plan β} (looks : p.KeepsFiles)
    (h : p.FailsFor files fault)
    (hf : ∀ w a, w.files = files → (p.runIn w).1 = .ok a → (f a).GivesUpFor files fault') :
    (p >>= f).GivesUpFor files fun failure => fault failure ∨ fault' failure := by
  rintro w hw ⟨failure, found⟩
  show ∃ failure, _ ∧ ((p.bind f).runIn w).1 = _ ∧ ((p.bind f).runIn w).2.files = _
  rw [runIn_bind]
  cases run : p.runIn w with
  | mk result v =>
      have kept : v.files = files := (looks.files_eq run).trans hw
      have result_ : (p.runIn w).1 = result := congrArg Prod.fst run
      cases result with
      | error failure' => exact ⟨failure', .inl (h.error w failure' hw result_), rfl, kept⟩
      | ok a =>
          have second := found.resolve_left (h.ok w a hw result_ failure)
          obtain ⟨failure', found', gaveUp⟩ := hf w a hw result_ v kept ⟨failure, second⟩
          exact ⟨failure', .inr found', gaveUp⟩

/-- What comes behind the only plan that can have a fault does not matter. -/
theorem FailsFor.givesUpFor_bind {p : Plan α} {f : α → Plan β} (h : p.FailsFor files fault)
    (looks : p.KeepsFiles) :
    (p >>= f).GivesUpFor files fault := by
  have rest : ∀ w a, w.files = files → (p.runIn w).1 = .ok a → (f a).GivesUpFor files fun _ =>
    False :=
    fun _ a _ _ => givesUpFor_of_forall_not (f a) fun _ => id
  exact (Plan.givesUpFor_bind looks h rest).congr fun failure => by rw [or_false]

/-- A plan that asks for nothing but a log entry first. -/
theorem givesUpFor_log {event : Log.Event} {f : Unit → Plan β}
    (h : (f ()).GivesUpFor files fault) :
    (log event >>= f).GivesUpFor files fault := by
  intro w hw found
  exact h { w with events := w.events ++ [event] } hw found

end Attestation.Plan
