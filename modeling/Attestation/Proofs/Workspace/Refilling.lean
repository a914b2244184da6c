import Attestation.Proofs.Workspace.Requests

/-!
# Files that a plan does not look at

A plan that neither reads nor writes the file at a place leaves it as it is, and does the same
whatever that file holds.  `FileTree.refill` puts another content there; all file operations
but reading and writing commute with it, and so does the run of a plan that asks for no other.

## Main definitions

* `FileTree.refill`: the tree with another content in the file at a place.
* `Request.Avoids`: requests that neither read nor write the file at a place.

## Main results

* `Plan.AsksOnly.runIn_refill`: what a run does is independent of a file that it avoids.
* `Plan.AsksOnly.keeps_file`: a file that a run avoids is kept.

## Design notes

That a file is kept does not say that it is not read.  Independence does: a run that looked at
the content could tell two contents apart.  Programs outside of the project are asked to
respect this for the files that they are not given (`Programs.Confines`), which is all that is
assumed of them.
-/

namespace Attestation

open Text

/-- What is found at a place, when the file at the place `q` holds another content. -/
def Node.refill (q : Place) (content : FileContent) (p : Place) : Node → Node
  | .dir => .dir
  | .file old => .file (if p = q then content else old)

namespace FileTree

/-- The tree with another content in the file at a place, if there is a file. -/
def refill (t : FileTree) (q : Place) (content : FileContent) : FileTree where
  nodes := t.nodes.map fun node => (node.1, node.2.refill q content node.1)
  distinct := by
    rw [List.map_map]
    exact t.distinct

/-- What a path leads to, when the file at a place holds another content. -/
def Target.refill (q : Place) (content : FileContent) : Target → Target
  | .found place node => .found place (node.refill q content place)
  | .missing place => .missing place

section Refill

variable {t : FileTree} {q : Place} {content : FileContent}

theorem get?_refill (t : FileTree) (q : Place) (content : FileContent) (p : Place) :
    (t.refill q content).get? p = (t.get? p).map (Node.refill q content p) := by
  unfold get?
  split
  · rfl
  · rw [refill, List.find?_map, Option.map_map, Option.map_map]
    refine Option.map_congr fun node found => ?_
    have here : node.1 = p := by simpa using List.find?_some found
    simp [here]

theorem refill_of_ne {p : Place} (h : p ≠ q) (n : Node) : n.refill q content p = n := by
  cases n with
  | dir => rfl
  | file old => rw [Node.refill, if_neg h]

theorem walk_refill (dir : Place) (names : List String) :
    (t.refill q content).walk dir names = (t.walk dir names).map
      (Target.refill q content) := by
  induction names generalizing dir with
  | nil => rfl
  | cons name more ih =>
      by_cases here : name = "."
      · subst here
        exact ih dir
      · by_cases up : name = ".."
        · subst up
          exact ih dir.dropLast
        · rw [walk_name here up, walk_name here up, get?_refill]
          cases t.get? (dir ++ [name]) with
          | none =>
              dsimp only [Option.map_none]
              split <;> rfl
          | some n =>
              cases n with
              | dir => exact ih (dir ++ [name])
              | file old =>
                  dsimp only [Option.map_some, Node.refill]
                  split <;> rfl

theorem follow_refill (p : Path) :
    (t.refill q content).follow p = (t.follow p).map (Target.refill q content) := by
  unfold follow
  rw [walk_refill]
  split
  · rfl
  · split
    · rfl
    · cases t.walk [] (pieces p) with
      | error e => rfl
      | ok target =>
          cases target with
          | missing place => rfl
          | found place n =>
              cases n with
              | dir => rfl
              | file old =>
                  dsimp only [Except.map, Target.refill, Node.refill]
                  split <;> rfl

/-! ### Looking -/

theorem exists_refill (p : Path) : (t.refill q content).exists p = t.exists p := by
  rw [«exists», «exists», follow_refill]
  rcases t.follow p with _ | _ | _ <;> rfl

theorem isDir_refill (p : Path) : (t.refill q content).isDir p = t.isDir p := by
  rw [isDir, isDir, follow_refill]
  rcases t.follow p with _ | ⟨_, _ | _⟩ | _ <;> rfl

theorem entriesAt_refill (p : Place) : (t.refill q content).entriesAt p = t.entriesAt p := by
  rw [entriesAt, entriesAt, refill, List.filterMap_map]
  refine List.filterMap_congr fun node _ => ?_
  obtain ⟨place, n⟩ := node
  cases n <;> rfl

theorem list_refill (p : Path) : (t.refill q content).list p = t.list p := by
  rw [list, list, follow_refill]
  rcases t.follow p with _ | ⟨_, _ | _⟩ | _
  · rfl
  · exact congrArg Except.ok (entriesAt_refill _)
  · rfl
  · rfl

/-- A file is read at its place. -/
theorem readText_refill {p : Path} (other : placeOf p ≠ q) :
    (t.refill q content).readText p = t.readText p := by
  rw [readText, readText, follow_refill]
  cases target : t.follow p with
  | error e => rfl
  | ok found =>
      have arrived : found.place = placeOf p := walk_place (follow_eq_walk target)
      cases found with
      | missing place => rfl
      | found place n =>
          have elsewhere : place ≠ q := fun same => other (arrived.symm.trans same)
          rw [Except.map, Target.refill, refill_of_ne elsewhere]

/-! ### Changes -/

theorem eq_of_nodes_eq {t t' : FileTree} (same : t.nodes = t'.nodes) : t = t' := by
  cases t
  cases t'
  cases same
  rfl

/-- A change elsewhere commutes with another content, and so does making a directory. -/
theorem set_refill {p : Place} {n : Node} (same : n.refill q content p = n) :
    (t.refill q content).set p n = (t.set p n).refill q content := by
  refine eq_of_nodes_eq ?_
  show (p, n) :: (t.nodes.map _).filter _
      = (p, n.refill q content p) :: (t.nodes.filter _).map _
  rw [same, List.filter_map]
  rfl

theorem makeDir_refill (p : Path) :
    (t.refill q content).makeDir p = (t.makeDir p).map (·.refill q content) := by
  rw [makeDir, makeDir, follow_refill]
  rcases t.follow p with _ | _ | _
  · rfl
  · rfl
  · exact congrArg Except.ok (set_refill rfl)

theorem ensureDir_refill (p : Path) :
    (t.refill q content).ensureDir p = (t.ensureDir p).map (·.refill q content) := by
  rw [ensureDir, ensureDir, makeDir_refill, isDir_refill]
  cases t.makeDir p with
  | ok made => rfl
  | error e =>
      dsimp only [Except.map]
      split <;> rfl

theorem settle_refill (result : Except IoError FileTree) :
    (t.refill q content).settle (result.map (·.refill q content))
      = ((t.settle result).1, (t.settle result).2.refill q content) := by
  cases result <;> rfl

theorem addDirsWithin_refill (fuel : Nat) (p : Path) :
    addDirsWithin fuel (t.refill q content) p
    = ((addDirsWithin fuel t p).1, (addDirsWithin fuel t p).2.refill q content) := by
  induction fuel generalizing p with
  | zero =>
      rw [addDirsWithin, addDirsWithin, ensureDir_refill]
      exact settle_refill _
  | succ fuel ih =>
      rw [addDirsWithin, addDirsWithin, ensureDir_refill]
      split
      · rfl
      · cases t.ensureDir p with
        | ok made => rfl
        | error e =>
            cases e with
            | notFound =>
                dsimp only [Except.map]
                cases p.parent with
                | none => rfl
                | some parent =>
                    dsimp only
                    rw [ih parent]
                    rcases addDirsWithin fuel t parent with ⟨_ | _, made⟩
                    · rfl
                    · dsimp only
                      rw [ensureDir_refill]
                      exact settle_refill _
            | _ => rfl

theorem write_refill {p : Path} (other : placeOf p ≠ q) (s : String) :
    (t.refill q content).write p s = (t.write p s).map (·.refill q content) := by
  rw [write, write, follow_refill]
  cases target : t.follow p with
  | error e => rfl
  | ok found =>
      have arrived : found.place = placeOf p := walk_place (follow_eq_walk target)
      have elsewhere : found.place ≠ q := fun same => other (arrived.symm.trans same)
      have put : (t.refill q content).set found.place (.file (.text s))
          = (t.set found.place (.file (.text s))).refill q content :=
          set_refill (refill_of_ne elsewhere _)
      cases found with
      | found place n =>
          cases n with
          | dir => rfl
          | file old => exact congrArg Except.ok put
      | missing place =>
          show (if endsOpen p then _ else _) = Except.map _ (if endsOpen p then _ else _)
          split
          · rfl
          · exact congrArg Except.ok put

end Refill

end FileTree

open FileTree

/-! ## Requests and plans -/

/-- The workspace with another content in the file at a place. -/
def Workspace.refill (w : Workspace) (q : Place) (content : FileContent) : Workspace :=
  { w with files := w.files.refill q content }

/-- A call of a program that does not depend on the file at a place, and does not write to it.
The first is asked by giving the file another content. -/
structure Programs.Leaves (programs : Programs) (q : Place) (program : String)
    (arguments : List String) : Prop where
  reads : ∀ (t : FileTree) (content : FileContent),
    programs program arguments (t.refill q content) = programs program arguments t
  writes : ∀ (t : FileTree) (outcome : Tool.Outcome), programs program arguments t
    = some outcome →
    ∀ file ∈ outcome.writes, placeOf file.1 ≠ q

/-- **What is asked of a formatter**, given by its command line: it leaves a file alone unless
it is to put this file into shape.  Nothing is asked of what it makes of the files that it is
given. -/
def Programs.Confines (programs : Programs) (command : String) (q : Place) : Prop :=
  ∀ program options, (Text.words command.toList).map String.ofList = program :: options →
  ∀ files : List Path,
    (∀ file ∈ files, placeOf file ≠ q) → programs.Leaves q program
    (options ++ "--write" :: files.map Path.text)

/-- A request that neither reads nor writes the file at a place, and removes nothing. -/
def Request.Avoids (programs : Programs) (q : Place) : Request → Prop
  | .readText p => placeOf p ≠ q
  | .write p _ => placeOf p ≠ q
  | .removeTree _ => False
  | .run program arguments => programs.Leaves q program arguments
  | _ => True

variable {q : Place} {r : Request} {content : FileContent}

/-- One text that is written, or cannot be. -/
theorem FileTree.settle_write_refill {p : Path} (t : FileTree) (other : placeOf p ≠ q)
    (text : String) :
    (t.refill q content).settle ((t.refill q content).write p text)
      = ((t.settle (t.write p text)).1, (t.settle (t.write p text)).2.refill q content) := by
  rw [write_refill other, settle_refill]

theorem FileTree.get?_settle_write {p : Path} {t : FileTree} (other : placeOf p ≠ q)
    (text : String)
    (there : t.get? q = some (.file content)) :
    (t.settle (t.write p text)).2.get? q = some (.file content) := by
  cases written : t.write p text with
  | error e => exact there
  | ok t' =>
      obtain ⟨-, nonempty, -, rfl⟩ := write_eq_set written
      show (t.set (placeOf p) _).get? q = _
      rw [get?_set _ nonempty, if_neg other.symm]
      exact there

section Outcome

variable {outcome : Tool.Outcome} (others : ∀ file ∈ outcome.writes, placeOf file.1 ≠ q)
include others

/-- A program that writes to other files does the same whatever this one holds. -/
theorem Tool.Outcome.applyTo_refill (t : FileTree) (content : FileContent) :
    outcome.applyTo (t.refill q content) = (outcome.applyTo t).refill q content := by
  unfold applyTo
  generalize outcome.writes = files at others ⊢
  induction files generalizing t with
  | nil => rfl
  | cons file more ih =>
      obtain ⟨first, others⟩ := List.forall_mem_cons.mp others
      rw [List.foldl_cons, List.foldl_cons, ← ih _ others]
      exact congrArg (List.foldl _ · more)
        (congrArg Prod.snd (settle_write_refill t first file.2))

theorem Tool.Outcome.get?_applyTo {t : FileTree} (there : t.get? q = some (.file content)) :
    (outcome.applyTo t).get? q = some (.file content) := by
  unfold applyTo
  generalize outcome.writes = files at others ⊢
  induction files generalizing t with
  | nil => exact there
  | cons file more ih =>
      obtain ⟨first, others⟩ := List.forall_mem_cons.mp others
      exact ih (get?_settle_write first file.2 there) others

end Outcome

/-- **One request** is answered alike, whatever a file that it avoids holds. -/
theorem Request.Avoids.perform_refill {w : Workspace} (h : r.Avoids w.programs q) :
    r.perform (w.refill q content) = ((r.perform w).1, (r.perform w).2.refill q content) := by
  cases r with
  | «exists» p => exact congrArg (·, w.refill q content) (exists_refill p)
  | readText p => exact congrArg (·, w.refill q content) (readText_refill h)
  | list p => exact congrArg (·, w.refill q content) (list_refill p)
  | makeDirs p => exact congrArg (w.refill q content).change (addDirsWithin_refill _ p)
  | write p s =>
      show (w.refill q content).change ((w.files.refill q content).settle
        ((w.files.refill q content).write p s)) = _
      rw [settle_write_refill w.files h]
      rfl
  | removeTree p => exact h.elim
  | run program arguments =>
      simp only [perform, Workspace.refill, h.reads]
      cases ran : w.programs program arguments w.files with
      | none => rfl
      | some outcome =>
          simp only [Workspace.finish, Workspace.display,
            outcome.applyTo_refill (h.writes _ outcome ran)]
  | print text => rfl
  | log event => rfl

/-- One request keeps a file that it avoids. -/
theorem Request.Avoids.keeps_file {w : Workspace} (h : r.Avoids w.programs q)
    (there : w.files.get? q = some (.file content)) :
    (r.perform w).2.files.get? q = some (.file content) := by
  cases r with
  | makeDirs p => exact ((addsDirs_addDirs w.files p).file_iff q content).mpr there
  | write p s => exact get?_settle_write h s there
  | removeTree p => exact h.elim
  | run program arguments =>
      simp only [perform]
      cases ran : w.programs program arguments w.files with
      | none => exact there
      | some outcome => exact outcome.get?_applyTo (h.writes _ outcome ran) there
  | «exists» | readText | list | print | log => exact there

namespace Plan

variable {α : Type} {p : Plan α}

/-- **A run is independent of a file that it avoids**: it ends alike, and the other files
behind it are the same. -/
theorem AsksOnly.runIn_refill {w : Workspace} (h : p.AsksOnly (Request.Avoids w.programs q))
    (content : FileContent) :
    p.runIn (w.refill q content) = ((p.runIn w).1, (p.runIn w).2.refill q content) := by
  generalize same : w.programs = programs at h
  induction h generalizing w with
  | done a => rfl
  | fail failure => rfl
  | @ask r next avoids _ ih =>
      show (next (r.perform (w.refill q content)).1).runIn (r.perform (w.refill q content)).2
          = _
      rw [Request.Avoids.perform_refill (same.symm ▸ avoids)]
      exact ih _ ((programs_perform r w).trans same)

/-- **A file that a run avoids is kept.** -/
theorem AsksOnly.keeps_file {w : Workspace} (h : p.AsksOnly (Request.Avoids w.programs q))
    (there : w.files.get? q = some (.file content)) :
    (p.runIn w).2.files.get? q = some (.file content) := by
  generalize same : w.programs = programs at h
  induction h generalizing w with
  | done a => exact there
  | fail failure => exact there
  | @ask r _ avoids _ ih =>
      exact ih _ (Request.Avoids.keeps_file (same.symm ▸ avoids) there)
        ((programs_perform r w).trans same)

end Plan

end Attestation
