import Attestation.Proofs.Workspace.Run

/-!
# The requests of a plan

What every request of a plan satisfies, whatever the answers are, is read off the plan; what
the plan does to files follows by induction on it.

## Main definitions

* `Plan.AsksOnly`: all requests of a plan are of some kind.
* `Plan.Gives`: all results that a plan can give are good.
* `Request.Looks`: requests that neither change files nor show anything.
* `Plan.visible`: what a run shows to the user.  The log does not count.

## Design notes

A plan is a tree of requests, with a branch for each answer.  A statement about all its
requests does not depend on the workspace, so it is proved once for a command and used for
every run of it, also for one that fails in the middle.  `Gives` carries what is known of a
result to the requests that are made with it, such as a path that comes out of one step and is
written to in the next.
-/

namespace Attestation

namespace Plan

variable {α β : Type} {kind : Request → Prop}

/-- Every request that the plan can make is of some kind, whatever the answers to the ones
before are. -/
inductive AsksOnly (kind : Request → Prop) : Plan α → Prop where
  | done (a : α) : AsksOnly kind (.done a)
  | fail (failure : Failure) : AsksOnly kind (.fail failure)
  | ask {r : Request} {next : r.Answer → Plan α} (h : kind r) (later : ∀ answer,
      AsksOnly kind (next answer)) :
      AsksOnly kind (.ask r next)

section AsksOnly

variable {p : Plan α} {f : α → Plan β}

theorem AsksOnly.bind (h : p.AsksOnly kind) (hf : ∀ a, (f a).AsksOnly kind) :
    (p >>= f).AsksOnly kind := by
  show (p.bind f).AsksOnly kind
  induction h with
  | done a => exact hf a
  | fail failure => exact .fail failure
  | ask h _ ih => exact .ask h ih

theorem asksOnly_ofExcept (result : Except Failure α) : (ofExcept result).AsksOnly kind := by
  cases result with
  | ok a => exact .done a
  | error failure => exact .fail failure

theorem asksOnly_checked (context : String) (answer : Except IoError α) :
    (checked context answer).AsksOnly kind := by
  cases answer with
  | ok a => exact .done a
  | error e => exact .fail _

theorem asksOnly_foldlM {f : β → α → Plan β} {as : List α}
    (h : ∀ b, ∀ a ∈ as, (f b a).AsksOnly kind) (b : β) :
    (as.foldlM f b).AsksOnly kind := by
  induction as generalizing b with
  | nil => exact .done b
  | cons a as ih =>
      exact (h b a List.mem_cons_self).bind fun c =>
        ih (fun b a ha => h b a (List.mem_cons_of_mem _ ha)) c

end AsksOnly

/-- Every result that the plan can give is good, whatever the answers to its requests are. -/
inductive Gives (good : α → Prop) : Plan α → Prop where
  | done {a : α} (h : good a) : Gives good (.done a)
  | fail (failure : Failure) : Gives good (.fail failure)
  | ask {r : Request} {next : r.Answer → Plan α} (later : ∀ answer, Gives good (next answer)) :
      Gives good (.ask r next)

section Gives

variable {good : α → Prop} {good' : β → Prop} {p : Plan α} {f : α → Plan β}

theorem gives_true (p : Plan α) : p.Gives fun _ => True := by
  induction p with
  | done a => exact .done trivial
  | fail failure => exact .fail failure
  | ask r next ih => exact .ask ih

theorem Gives.bind (h : p.Gives good) (hf : ∀ a, good a → (f a).Gives good') :
    (p >>= f).Gives good' := by
  show (p.bind f).Gives good'
  induction h with
  | done h => exact hf _ h
  | fail failure => exact .fail failure
  | ask _ ih => exact .ask ih

theorem gives_bind (p : Plan α) (hf : ∀ a, (f a).Gives good') : (p >>= f).Gives good' :=
  (gives_true p).bind fun a _ => hf a

/-- What the first plan gives can be used of the second one. -/
theorem AsksOnly.bind_of_gives (h : p.AsksOnly kind) (gives : p.Gives good)
    (hf : ∀ a, good a → (f a).AsksOnly kind) : (p >>= f).AsksOnly kind := by
  show (p.bind f).AsksOnly kind
  induction h with
  | done a =>
      cases gives with
      | done good => exact hf a good
  | fail failure => exact .fail failure
  | ask h _ ih =>
      cases gives with
      | ask later => exact .ask h fun answer => ih answer (later answer)

end Gives

section Requests

variable {context : String} {path : Path}

theorem asksOnly_exists (h : kind (.exists path)) : (Plan.exists path).AsksOnly kind :=
  .ask h fun there => .done there

theorem asksOnly_readText (h : kind (.readText path)) :
    (readText context path).AsksOnly kind :=
  .ask h (asksOnly_checked context)

theorem asksOnly_makeDirs (h : kind (.makeDirs path)) :
    (makeDirs context path).AsksOnly kind :=
  .ask h (asksOnly_checked context)

theorem asksOnly_write {text : String} (h : kind (.write path text)) :
    (write context path text).AsksOnly kind :=
  .ask h (asksOnly_checked context)

theorem asksOnly_print {text : String} (h : kind (.print text)) : (print text).AsksOnly kind :=
  .ask h fun _ => .done ()

theorem asksOnly_log {event : Log.Event} (h : kind (.log event)) : (log event).AsksOnly kind :=
  .ask h fun _ => .done ()

/-- Behind a listing only files with the ending are known. -/
theorem asksOnly_filesEnding {ending : String} {f : List String → Plan β}
    (h : kind (.list path))
    (hf : ∀ entries, (f (fileNames ending entries)).AsksOnly kind) :
    (filesEnding ending path >>= f).AsksOnly kind := by
  refine .ask h fun answer => ?_
  cases answer with
  | ok entries => exact hf entries
  | error e => exact .fail _

theorem asksOnly_writeGenerated {label text : String} (dirs : ∀ dir, kind (.makeDirs dir))
    (file : kind (.write path text))
    (shown : ∀ line, kind (.print line)) : (writeGenerated label path text).AsksOnly kind := by
  have rest : (do
      write s!"Failed to write {path.text}" path text
      printLine s!"✅ Generated {label} → {Text.quotedPath path.text}" :
      Plan Unit).AsksOnly kind :=
    (asksOnly_write file).bind fun _ => asksOnly_print (shown _)
  unfold writeGenerated
  split
  · exact (asksOnly_makeDirs (dirs _)).bind fun _ => rest
  · exact rest

end Requests

end Plan

/-! ## Looking -/

/-- A request that neither changes files nor shows anything. -/
def Request.Looks : Request → Prop
  | .«exists» _ => True
  | .readText _ => True
  | .list _ => True
  | .log _ => True
  | _ => False

namespace Plan

variable {α β : Type} {p : Plan α} {w w' : Workspace}

/-- What a run shows to the user: how it ends, the files behind it and what has been
printed. -/
def visible (p : Plan α) (w : Workspace) : Except Failure α × FileTree × String :=
  ((p.runIn w).1, (p.runIn w).2.files, (p.runIn w).2.output)

/-- No request changes what programs do. -/
theorem programs_perform (r : Request) (w : Workspace) :
    (r.perform w).2.programs = w.programs := by
  cases r with
  | run program arguments =>
      simp only [Request.perform]
      split <;> rfl
  | _ => rfl

theorem programs_runIn (p : Plan α) (w : Workspace) : (p.runIn w).2.programs = w.programs := by
  induction p generalizing w with
  | done a => rfl
  | fail failure => rfl
  | ask r next ih => exact (ih _ _).trans (programs_perform r w)

/-- The log has no influence on a run. -/
theorem visible_congr (p : Plan α) (files : w.files = w'.files) (output : w.output = w'.output)
    (programs : w.programs = w'.programs) : p.visible w = p.visible w' := by
  induction p generalizing w w' with
  | done a => exact congrArg₂ (fun f o => (Except.ok a, f, o)) files output
  | fail failure => exact congrArg₂ (fun f o => (Except.error failure, f, o)) files output
  | ask r next ih =>
      have same : (r.perform w).1 = (r.perform w').1 ∧
        (r.perform w).2.files = (r.perform w').2.files ∧
          (r.perform w).2.output = (r.perform w').2.output ∧
          (r.perform w).2.programs = (r.perform w').2.programs := by
        cases r with
        | run program arguments =>
            simp only [Request.perform, files, programs]
            split <;> simp [Workspace.finish, Workspace.display, files, output, programs]
        | _ =>
            simp [Request.perform, Workspace.change, Workspace.display, files,
              output, programs]
      show ((next (r.perform w).1).visible (r.perform w).2)
          = (next (r.perform w').1).visible (r.perform w').2
      rw [same.1]
      exact ih _ same.2.1 same.2.2.1 same.2.2.2

/-- A plan that only looks changes neither the files nor what has been printed. -/
theorem AsksOnly.unchanged (h : p.AsksOnly Request.Looks) (w : Workspace) :
    (p.runIn w).2.files = w.files ∧ (p.runIn w).2.output = w.output := by
  induction h generalizing w with
  | done a => exact ⟨rfl, rfl⟩
  | fail failure => exact ⟨rfl, rfl⟩
  | @ask r next looks _ ih =>
      have here : (r.perform w).2.files = w.files ∧ (r.perform w).2.output = w.output := by
        cases r with
        | «exists» | readText | list | log => exact ⟨rfl, rfl⟩
        | makeDirs | write | removeTree | run | print => exact looks.elim
      exact ⟨(ih _ _).1.trans here.1, (ih _ _).2.trans here.2⟩

/-- Behind a plan that only looks the rest runs as if it were alone. -/
theorem AsksOnly.visible_bind (h : p.AsksOnly Request.Looks) {f : α → Plan β} {a : α}
    (run : p.runIn w = (.ok a, w')) :
    (p >>= f).visible w = (f a).visible w := by
  have same := h.unchanged w
  have programs := programs_runIn p w
  rw [run] at same programs
  have step : (p >>= f).visible w = (f a).visible w' := by
    rw [visible, runIn_bind_of_ok run, visible]
  rw [step]
  exact visible_congr (f a) same.1 same.2 programs

theorem visible_bind_of_error {f : α → Plan β} {failure : Failure}
    (h : p.AsksOnly Request.Looks)
    (run : (p.runIn w).1 = .error failure) : (p >>= f).visible w = (.error failure,
      w.files, w.output) := by
  have same := h.unchanged w
  show (((p.bind f).runIn w).1, ((p.bind f).runIn w).2.files, ((p.bind f).runIn w).2.output)
      = _
  rw [runIn_bind]
  cases hrun : p.runIn w with
  | mk result v =>
      rw [hrun] at run same
      cases run
      exact congrArg₂ (fun f o => (Except.error failure, f, o)) same.1 same.2

end Plan

end Attestation
