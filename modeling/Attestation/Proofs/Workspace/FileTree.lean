import Attestation.Path.Basic
import Attestation.Proofs.Text.Pieces
import Attestation.Workspace.FileTree
import Mathlib.Data.Set.Insert

/-!
# Paths and changes in a file tree

A path that leads to a place is its names followed one by one (`follow_of_walk`), so it depends
on the tree only whether it leads there.  The operations of a file tree are described by what
is found at each place behind them.

## Main definitions

* `FileTree.climb`, `FileTree.placeOf`: the place that names and paths stand for.
* `FileTree.KeepsDirs`: what was a directory still is one.
* `FileTree.AddsDirs`: nothing but new directories has been added.
* `FileTree.Holds`: a text that is found in an entry of a directory.
* `FileTree.ChangesOnly`: no file has changed but those at some places.
* `FileTree.Writes`: a file has been written, and the other files are as before.
* `FileTree.Takes`: a directory that a file of some name can be written to.
* `FileTree.Sound`: trees whose entries lie in directories and have names of entries.

## Design notes

Paths are texts and may lead through missing directories, dots and parent steps; places are
lists of names.  Every relation between trees is stated for places, so that it composes by
transitivity, and paths occur only where an operation is given one.  The relations are few and
each has one lemma for each operation; plans are covered by composing them.
-/

namespace Attestation.FileTree

open Text

/-! ## Places -/

/-- A step from a place, by its name alone. -/
def step (dir : Place) (name : String) : Place :=
  if name = "." then dir else if name = ".." then dir.dropLast else dir ++ [name]

/-- The place that names lead to from another place. -/
def climb (dir : Place) (names : List String) : Place := names.foldl step dir

/-- The place that a path stands for. -/
def placeOf (p : Path) : Place := climb [] (pieces p)

/-- Names that an entry of a directory can have. -/
structure IsEntryName (name : String) : Prop where
  nonempty : name ≠ ""
  ne_here : name ≠ "."
  ne_up : name ≠ ".."
  not_slash : '/' ∉ name.toList

instance (name : String) : Decidable (IsEntryName name) :=
  decidable_of_iff (name ≠ "" ∧ name ≠ "." ∧ name ≠ ".." ∧ '/' ∉ name.toList)
    ⟨fun ⟨nonempty, here, up, slash⟩ => ⟨nonempty, here, up, slash⟩,
      fun h => ⟨h.nonempty, h.ne_here, h.ne_up, h.not_slash⟩⟩

/-- A name that is long enough is no step. -/
theorem isEntryName_of_suffix (word : List Char) {name : String} (ends : word <:+ name.toList)
    (long : 2 < word.length) (slash : '/' ∉ name.toList) : IsEntryName name := by
  have longer : ∀ {text : String}, text.toList.length ≤ 2 → name ≠ text := by
    rintro _ short rfl
    exact absurd (long.trans_le ends.length_le) (Nat.not_lt.mpr short)
  exact ⟨longer (by decide), longer (by decide), longer (by decide), slash⟩

theorem climb_concat {name : String} (h : IsEntryName name) (dir : Place)
    (names : List String) :
    climb dir (names ++ [name]) = climb dir names ++ [name] := by
  simp only [climb, List.foldl_append, List.foldl_cons, List.foldl_nil]
  rw [step, if_neg h.ne_here, if_neg h.ne_up]

/-! ## Walking -/

variable {t t' : FileTree}

/-- What is found at a place, or that nothing is. -/
def look (t : FileTree) (p : Place) : Target :=
  match t.get? p with
  | some n => .found p n
  | none => .missing p

/-- The place that a walk has arrived at. -/
def Target.place : Target → Place
  | .found place _ => place
  | .missing place => place

@[simp] theorem place_look (t : FileTree) (p : Place) : (t.look p).place = p := by
  unfold look
  split <;> rfl

theorem get?_of_look_eq_missing {p q : Place} (h : t.look p = .missing q) :
    t.get? p = none := by
  unfold look at h
  split at h
  · cases h
  · assumption

theorem walk_name {name : String} (here : name ≠ ".") (up : name ≠ "..") (dir : Place)
    (more : List String) :
    t.walk dir (name :: more) =
      match t.get? (dir ++ [name]) with
      | some .dir => t.walk (dir ++ [name]) more
      | some (.file content) =>
          if more.isEmpty then .ok (.found (dir ++ [name]) (.file content)) else .error
            .notADirectory
      | none => if more.isEmpty then .ok (.missing (dir ++ [name])) else .error .notFound := by
  cases found : t.get? (dir ++ [name]) with
  | none => simp only [walk, found]
  | some n => cases n <;> simp only [walk, found]

/-- **A walk that arrives has followed its names.** -/
theorem walk_place {dir : Place} {names : List String} {target : Target}
    (h : t.walk dir names = .ok target) :
    target.place = climb dir names := by
  induction names generalizing dir with
  | nil =>
      cases h
      rfl
  | cons name more ih =>
      rw [climb, List.foldl_cons, ← climb, step]
      split_ifs with here up
      · subst here
        exact ih h
      · subst up
        exact ih h
      · rw [walk_name here up] at h
        split at h
        · exact ih h
        all_goals
          split at h
          · next hmore =>
              cases h
              rw [List.isEmpty_iff.mp hmore]
              rfl
          · cases h

/-- A walk that does not arrive at a directory says what is found where it arrives. -/
theorem walk_look {dir : Place} {names : List String} {target : Target}
    (h : t.walk dir names = .ok target)
    (notDir : ∀ q, target ≠ .found q .dir) :
    target.place ≠ [] ∧ target = t.look target.place := by
  induction names generalizing dir with
  | nil =>
      cases h
      exact absurd rfl (notDir dir)
  | cons name more ih =>
      by_cases here : name = "."
      · subst here
        exact ih h
      · by_cases up : name = ".."
        · subst up
          exact ih h
        · rw [walk_name here up] at h
          split at h
          · exact ih h
          all_goals
            next found =>
              split at h
              · cases h
                exact ⟨by simp [Target.place], by simp [Target.place, look, found]⟩
              · cases h

/-- A walk goes on by one name exactly from a directory. -/
theorem walk_concat_iff {name : String} (hname : IsEntryName name) {dir : Place}
    {names : List String}
    {target : Target} :
    t.walk dir (names ++ [name]) = .ok target ↔
      ∃ q, t.walk dir names = .ok (.found q .dir) ∧ target = t.look (q ++ [name]) := by
  induction names generalizing dir with
  | nil =>
      have last : t.walk dir [name] = .ok (t.look (dir ++ [name])) := by
        rw [walk_name hname.ne_here hname.ne_up, look]
        cases t.get? (dir ++ [name]) with
        | none => rfl
        | some n => cases n <;> rfl
      rw [List.nil_append, last]
      constructor
      · rintro ⟨⟩
        exact ⟨dir, rfl, rfl⟩
      · rintro ⟨q, ⟨⟩, rfl⟩
        rfl
  | cons first more ih =>
      by_cases here : first = "."
      · subst here
        exact ih
      · by_cases up : first = ".."
        · subst up
          exact ih
        · rw [List.cons_append, walk_name here up, walk_name here up]
          -- A walk that has names left must find a directory.
          have open_ : (more ++ [name]).isEmpty = false := by simp
          split
          · exact ih
          · rw [open_]
            constructor
            · nofun
            · rintro ⟨q, h, -⟩
              split at h <;> cases h
          · rw [open_]
            constructor
            · nofun
            · rintro ⟨q, h, -⟩
              split at h <;> cases h

/-! ## Following paths -/

theorem follow_eq_walk {p : Path} {target : Target} (h : t.follow p = .ok target) :
    t.walk [] (pieces p) = .ok target := by
  unfold follow at h
  split at h
  · cases h
  · split at h
    · cases h
    · split at h
      · next walked =>
          split at h
          · cases h
          · rw [walked, h]
      · exact h

/-- What can be a path at all.  The system refuses all others before it looks at any file. -/
def IsPath (p : Path) : Prop := '\x00' ∉ p.text.toList ∧ p.text ≠ ""

instance (p : Path) : Decidable (IsPath p) := inferInstanceAs (Decidable (_ ∧ _))

theorem isPath_of_follow {p : Path} {target : Target} (h : t.follow p = .ok target) :
    IsPath p := by
  unfold follow at h
  split at h
  · cases h
  · next hnul =>
      split at h
      · cases h
      · next hempty => exact ⟨by simpa using hnul, by simpa using hempty⟩

/-- What is at the place of a path is found by the path, or there is nothing.  A path through a
directory that is not there does not reach what its parent steps lead back to. -/
def Reaches (t : FileTree) (p : Path) : Prop := t.exists p = true ∨ t.get? (placeOf p) = none

theorem Reaches.nonempty {p : Path} (h : t.Reaches p) : p.text ≠ "" := by
  intro empty
  obtain rfl : p = ⟨""⟩ := congrArg Path.mk empty
  rcases h with h | h
  · cases h
  · cases h

theorem follow_of_walk {p : Path} {target : Target} (hp : IsPath p)
    (h : t.walk [] (pieces p) = .ok target)
    (closed : endsOpen p = true → ∃ q, target = .found q .dir ∨ target = .missing q) :
    t.follow p = .ok target := by
  have nul : ¬ p.text.toList.contains '\x00' = true := by simpa using hp.1
  have empty : ¬ p.text.isEmpty = true := by simpa using hp.2
  rw [follow, if_neg nul, if_neg empty, h]
  split
  · next walked =>
      cases walked
      rw [if_neg]
      intro open_
      obtain ⟨q, h | h⟩ := closed open_ <;> cases h
  · rfl

section Entry

variable {dir : Path} {name : String} (hname : IsEntryName name)
include hname

/-- The text of the path of an entry. -/
theorem exists_text_entry (dir : Path) : ∃ front :
    List Char, (dir.entry name).text.toList = front ++ name.toList ∧
    (front = [] ∧ dir.text = "" ∨ ∃ inner, front = inner ++ ['/'] ∧
      (dir.text.toList = inner ∨ dir.text.toList = inner ++ ['/'])) := by
  have relative : (⟨name⟩ : Path).isAbsolute = false := by
    rw [Path.isAbsolute, decide_eq_false_iff_not]
    exact fun h => hname.not_slash (List.mem_of_mem_head? h)
  unfold Path.entry Path.join
  rw [if_neg (by simp [relative])]
  split
  · next h =>
      refine ⟨dir.text.toList, by simp, ?_⟩
      rcases Bool.or_eq_true_iff.mp h with h | h
      · have empty : dir.text = "" := by simpa using h
        exact .inl ⟨by rw [empty]; rfl, empty⟩
      · obtain ⟨inner, hinner⟩ := List.getLast?_eq_some_iff.mp (of_decide_eq_true h)
        exact .inr ⟨inner, hinner, .inr hinner⟩
  · exact ⟨dir.text.toList ++ ['/'], by simp, .inr ⟨_, rfl, .inl rfl⟩⟩

theorem isPath_of_entry {dir : Path} (h : IsPath (dir.entry name)) (nonempty : dir.text ≠ "") :
    IsPath dir := by
  obtain ⟨front, text, ⟨-, empty⟩ | ⟨inner, rfl, inside⟩⟩ := exists_text_entry hname dir
  · exact absurd empty nonempty
  · have nul := h.1
    rw [text, List.mem_append, not_or] at nul
    refine ⟨fun hmem => nul.1 ?_, nonempty⟩
    rcases inside with inside | inside
    · exact List.mem_append_left _ (inside ▸ hmem)
    · exact inside ▸ hmem

theorem pieces_entry (dir : Path) : pieces (dir.entry name) = pieces dir ++ [name] := by
  have alone : (List.splitOn '/' name.toList) = [name.toList] :=
    List.splitOn_eq_singleton hname.not_slash
  have full : name.toList.isEmpty = false := by
    simpa using hname.nonempty
  obtain ⟨front, text, ⟨rfl, empty⟩ | ⟨inner, rfl, inside⟩⟩ := exists_text_entry hname dir
  · simp [pieces, text, alone, empty, full]
  · rw [pieces, text, List.append_assoc, List.singleton_append, List.splitOn_append_cons_self,
      alone, List.filter_append]
    rcases inside with inside | inside
    · simp [pieces, inside, full]
    · simp [pieces, inside, List.splitOn_append_cons_self, full]

theorem placeOf_entry (dir : Path) : placeOf (dir.entry name) = placeOf dir ++ [name] := by
  rw [placeOf, pieces_entry hname, climb_concat hname, placeOf]

theorem endsOpen_entry (dir : Path) : endsOpen (dir.entry name) = false := by
  obtain ⟨front, text, -⟩ := exists_text_entry hname dir
  rw [endsOpen, text, decide_eq_false_iff_not,
    List.getLast?_append_of_ne_nil _ (by simpa using hname.nonempty)]
  exact fun h => hname.not_slash (List.mem_of_getLast? h)

/-- **The path of an entry leads to what the directory has under its name.** -/
theorem follow_entry {target : Target} (h : t.follow (dir.entry name) = .ok target) :
    t.walk [] (pieces dir) = .ok (.found (placeOf dir) .dir) ∧
    target = t.look (placeOf dir ++ [name]) := by
  have walked := follow_eq_walk h
  rw [pieces_entry hname, walk_concat_iff hname] at walked
  obtain ⟨q, walked, rfl⟩ := walked
  obtain rfl : q = placeOf dir := walk_place walked
  exact ⟨walked, rfl⟩

theorem follow_entry_of_walk (hp : IsPath (dir.entry name))
    (h : t.walk [] (pieces dir) = .ok (.found (placeOf dir) .dir)) :
    t.follow (dir.entry name) = .ok (t.look (placeOf dir ++ [name])) := by
  refine follow_of_walk hp ?_ fun open_ => ?_
  · rw [pieces_entry hname, walk_concat_iff hname]
    exact ⟨_, h, rfl⟩
  · rw [endsOpen_entry hname] at open_
    cases open_

end Entry

/-- A path that ends with a word leads to a name that ends with it. -/
theorem exists_placeOf_of_suffix {p : Path} {word : List Char} (ends : word <:+ p.text.toList)
    (slash : '/' ∉ word)
    (long : 2 < word.length) : ∃ dir name, placeOf p = dir ++ [name] ∧
      word <:+ name.toList := by
  obtain ⟨front, text⟩ := ends
  obtain ⟨init, last, cut⟩ := exists_splitOn_append front slash
  have chars : (String.ofList (last ++ word)).toList = last ++ word := String.toList_ofList
  have name : IsEntryName (String.ofList (last ++ word)) := by
    refine isEntryName_of_suffix word ?_ long ?_
    · rw [chars]
      exact List.suffix_append last word
    · rw [chars]
      have piece : last ++ word ∈ List.splitOn '/' (front ++ word) := by simp [cut]
      exact not_mem_of_mem_splitOn piece
  refine ⟨climb [] ((init.filter (!·.isEmpty)).map String.ofList),
    String.ofList (last ++ word), ?_, ?_⟩
  · have full : (last ++ word).isEmpty = false := by
      cases word with
      | nil => simp at long
      | cons c word => simp
    rw [placeOf, ← climb_concat name, pieces, ← text, cut, List.filter_append]
    simp [full]
  · rw [chars]
    exact List.suffix_append last word

/-! ## Changes -/

/-- What was a directory still is one.  So a way that led somewhere leads there still. -/
def KeepsDirs (t t' : FileTree) : Prop := ∀ q, t.get? q = some .dir → t'.get? q = some .dir

/-- Nothing but new directories has been added. -/
def AddsDirs (t t' : FileTree) : Prop :=
  ∀ q, t'.get? q = t.get? q ∨ t.get? q = none ∧ t'.get? q = some .dir

theorem KeepsDirs.trans {t t' t'' : FileTree} (h : KeepsDirs t t') (h' : KeepsDirs t' t'') :
    KeepsDirs t t'' :=
  fun q hq => h' q (h q hq)

theorem AddsDirs.refl (t : FileTree) : AddsDirs t t := fun _ => .inl rfl

theorem AddsDirs.trans {t t' t'' : FileTree} (h : AddsDirs t t') (h' : AddsDirs t' t'') :
    AddsDirs t t'' := by
  intro q
  rcases h' q with same | ⟨none_, dir⟩
  · rw [same]
    exact h q
  · rcases h q with same | ⟨-, dir'⟩
    · exact .inr ⟨same ▸ none_, dir⟩
    · rw [none_] at dir'
      cases dir'

theorem AddsDirs.keepsDirs (h : AddsDirs t t') : KeepsDirs t t' := by
  intro q hq
  rcases h q with same | ⟨none_, -⟩
  · rw [same, hq]
  · rw [hq] at none_
    cases none_

/-- The files are the same. -/
theorem AddsDirs.file_iff (h : AddsDirs t t') (q : Place) (content : FileContent) :
    t'.get? q = some (.file content) ↔ t.get? q = some (.file content) := by
  rcases h q with same | ⟨none_, dir⟩
  · rw [same]
  · rw [none_, dir]
    constructor <;> nofun

/-- A walk to a directory stays possible. -/
theorem KeepsDirs.walk (h : KeepsDirs t t') {dir q : Place} {names : List String}
    (walked : t.walk dir names = .ok (.found q .dir)) :
    t'.walk dir names = .ok (.found q .dir) := by
  induction names generalizing dir with
  | nil => exact walked
  | cons name more ih =>
      by_cases here : name = "."
      · subst here
        exact ih walked
      · by_cases up : name = ".."
        · subst up
          exact ih walked
        · rw [walk_name here up] at walked ⊢
          split at walked
          · next hdir =>
              rw [h _ hdir]
              exact ih walked
          · split at walked <;> cases walked
          · split at walked <;> cases walked

theorem addsDirs_makeDir {p : Path} (h : t.makeDir p = .ok t') : AddsDirs t t' := by
  unfold makeDir at h
  cases target : t.follow p with
  | error e =>
      rw [target] at h
      cases h
  | ok found =>
      rw [target] at h
      cases found with
      | found place node => cases h
      | missing place =>
          cases h
          obtain ⟨hne, found⟩ := walk_look (follow_eq_walk target) nofun
          have hnone : t.get? place = none := get?_of_look_eq_missing found.symm
          intro q
          rw [get?_set t (p := place) hne]
          split
          · next same => exact .inr ⟨same ▸ hnone, rfl⟩
          · exact .inl rfl

theorem addsDirs_ensureDir {p : Path} (h : t.ensureDir p = .ok t') : AddsDirs t t' := by
  unfold ensureDir at h
  split at h
  · next made =>
      cases h
      exact addsDirs_makeDir made
  · split at h
    · cases h
      exact AddsDirs.refl t
    · cases h

theorem addsDirs_settle {result : Except IoError FileTree} (h : ∀ made, result = .ok made →
    AddsDirs t made) :
    AddsDirs t (t.settle result).2 := by
  cases result with
  | ok made => exact h made rfl
  | error e => exact AddsDirs.refl t

theorem addsDirs_addDirsWithin (fuel : Nat) (t : FileTree) (p : Path) :
    AddsDirs t (addDirsWithin fuel t p).2 := by
  induction fuel generalizing p with
  | zero => exact addsDirs_settle fun _ => addsDirs_ensureDir
  | succ fuel ih =>
      rw [addDirsWithin]
      split
      · exact AddsDirs.refl t
      · split
        · split
          · next parent _ =>
              have first := ih parent
              split
              · next made hmade =>
                  rw [hmade] at first
                  exact first.trans (addsDirs_settle fun _ => addsDirs_ensureDir)
              · exact first
          · exact AddsDirs.refl t
        · exact addsDirs_settle fun _ => addsDirs_ensureDir

/-- **Making directories adds nothing but directories**, however far it gets. -/
theorem addsDirs_addDirs (t : FileTree) (p : Path) : AddsDirs t (t.addDirs p).2 :=
  addsDirs_addDirsWithin _ t p

theorem addsDirs_makeDirs {p : Path} (h : t.makeDirs p = .ok t') : AddsDirs t t' := by
  have added := addsDirs_addDirs t p
  rwa [addDirs_eq_ok_iff.mpr h] at added

/-- **Writing a file** changes what is found at the place of its path, which is not a
directory. -/
theorem write_eq_set {p : Path} {s : String} (h : t.write p s = .ok t') :
    t.follow p = .ok (t.look (placeOf p)) ∧ placeOf p ≠ [] ∧ t.get? (placeOf p) ≠ some .dir ∧
      t' = t.set (placeOf p) (.file (.text s)) := by
  unfold write at h
  cases target : t.follow p with
  | error e =>
      rw [target] at h
      cases h
  | ok found =>
      rw [target] at h
      have walked := follow_eq_walk target
      have notDir : ∀ q, found ≠ .found q .dir := by
        rintro q rfl
        cases h
      have place : found.place = placeOf p := walk_place walked
      obtain ⟨hne, look⟩ := walk_look walked notDir
      rw [place] at hne look
      refine ⟨by rw [look], hne, fun dir => notDir (placeOf p) ?_, ?_⟩
      · rw [look, FileTree.look, dir]
      · cases found with
        | found q n =>
            obtain rfl : q = placeOf p := place
            cases n with
            | dir => cases h
            | file content =>
                cases h
                rfl
        | missing q =>
            obtain rfl : q = placeOf p := place
            simp only [bind, Except.bind] at h
            split at h
            · cases h
            · cases h
              rfl

theorem keepsDirs_set_file {p : Place} (hp : p ≠ []) (h : t.get? p ≠ some .dir)
    (content : FileContent) :
    KeepsDirs t (t.set p (.file content)) := by
  intro q hq
  rw [get?_set t hp, if_neg]
  · exact hq
  · rintro rfl
    exact h hq

/-- **Removing a directory leaves nothing below its place.** -/
theorem get?_removeTree {p : Path} (h : t.removeTree p = (.ok (), t')) {q : Place}
    (below : isBelow (placeOf p) q = true) : t'.get? q = none := by
  have hq : q ≠ [] := by
    rintro rfl
    cases hp : placeOf p <;> simp [hp, isBelow] at below
  unfold removeTree at h
  split at h
  · cases h
  · cases h
  · cases h
  · next place target =>
      obtain rfl : place = placeOf p := walk_place (follow_eq_walk target)
      have emptied : (t.eraseWhere (isBelow (placeOf p))).get? q = none := by
        rw [get?_eraseWhere t _ hq, if_pos below]
      dsimp only at h
      split at h
      · cases h
      · split at h
        · exact (Prod.mk.inj h).2 ▸ emptied
        · cases h
          rw [get?_eraseWhere _ _ hq, emptied, ite_self]

/-! ## Entries -/

/-- A tree whose entries lie in directories, under names that entries can have. -/
structure Sound (t : FileTree) : Prop where
  parent : ∀ dir name, t.get? (dir ++ [name]) ≠ none → t.get? dir = some .dir
  name : ∀ dir name, t.get? (dir ++ [name]) ≠ none → IsEntryName name

theorem get?_eq_some_iff {p : Place} (hp : p ≠ []) {n : Node} : t.get? p = some n ↔
    (p, n) ∈ t.nodes := by
  have distinct := t.distinct
  rw [get?, if_neg hp]
  generalize t.nodes = nodes at distinct
  induction nodes with
  | nil => simp
  | cons first more ih =>
      obtain ⟨fresh, distinct⟩ := List.nodup_cons.mp distinct
      by_cases same : first.1 = p
      · rw [List.find?_cons_of_pos (by simpa using same), Option.map_some, Option.some.injEq,
          List.mem_cons]
        constructor
        · rintro rfl
          exact .inl (by rw [← same])
        · rintro (h | h)
          · rw [← h]
          · exact absurd (List.mem_map.mpr ⟨(p, n), h, same.symm⟩) fresh
      · rw [List.find?_cons_of_neg (by simpa using same), List.mem_cons]
        refine (ih distinct).trans ⟨.inr, fun h => h.resolve_left fun h => same (by rw [← h])⟩

/-- Whether a tree is sound can be seen from its nodes. -/
theorem sound_of_nodes (h : ∀ node ∈ t.nodes, node.1 ≠ [] ∧
    t.get? node.1.dropLast = some .dir ∧
    IsEntryName (node.1.getLastD "")) : t.Sound := by
  have node : ∀ dir name, t.get? (dir ++ [name]) ≠ none → t.get? dir = some .dir ∧
    IsEntryName name := by
    intro dir name there
    obtain ⟨n, found⟩ := Option.ne_none_iff_exists'.mp there
    have := (h _ ((get?_eq_some_iff (by simp)).mp found)).2
    rwa [List.dropLast_concat, List.getLastD_concat] at this
  exact ⟨fun dir name there => (node dir name there).1, fun dir name there =>
    (node dir name there).2⟩

theorem mem_entriesAt_iff {p : Place} {e : DirEntry} :
    e ∈ t.entriesAt p ↔ ∃ n, t.get? (p ++ [e.name]) = some n ∧
      e.isFile = decide (n ≠ .dir) := by
  rw [entriesAt, List.mem_filterMap]
  constructor
  · rintro ⟨⟨q, n⟩, hmem, h⟩
    dsimp only at h
    split at h
    · next name hlast =>
        split at h
        · next hparent =>
            cases h
            obtain ⟨front, rfl⟩ := List.getLast?_eq_some_iff.mp hlast
            rw [List.dropLast_concat] at hparent
            subst hparent
            exact ⟨n, (get?_eq_some_iff (by simp)).mpr hmem, rfl⟩
        · cases h
    · cases h
  · rintro ⟨n, hn, hfile⟩
    refine ⟨(p ++ [e.name], n), (get?_eq_some_iff (by simp)).mp hn, ?_⟩
    simp [← hfile]

/-- What is listed are the entries of a directory. -/
theorem list_eq_entriesAt {dir : Path} {entries : List DirEntry}
    (h : t.list dir = .ok entries) :
    entries = t.entriesAt (placeOf dir) := by
  unfold list at h
  cases target : t.follow dir with
  | error e =>
      rw [target] at h
      cases h
  | ok found =>
      rw [target] at h
      cases found with
      | missing place => cases h
      | found place node =>
          cases node with
          | file content => cases h
          | dir =>
              cases h
              obtain rfl : place = placeOf dir := walk_place (follow_eq_walk target)
              rfl

/-- A directory that a path leads to is listed. -/
theorem list_of_walk {dir : Path} (hp : IsPath dir)
    (h : t.walk [] (pieces dir) = .ok (.found (placeOf dir) .dir)) :
    t.list dir = .ok (t.entriesAt (placeOf dir)) := by
  rw [list, follow_of_walk hp h fun _ => ⟨_, .inl rfl⟩]
  rfl

/-! ## Written files -/

/-- The entry of the directory is a file with the text, and the path leads there. -/
structure Holds (t : FileTree) (dir : Path) (name s : String) : Prop where
  path : IsPath (dir.entry name)
  walked : t.walk [] (pieces dir) = .ok (.found (placeOf dir) .dir)
  here : t.get? (placeOf dir ++ [name]) = some (.file (.text s))

/-- No file has changed but those at some places, and no directory is gone.  It is the frame of
all that writes. -/
structure ChangesOnly (t t' : FileTree) (places : Set Place) : Prop where
  keepsDirs : KeepsDirs t t'
  elsewhere : ∀ q content, q ∉ places → (t'.get? q = some (.file content) ↔
    t.get? q = some (.file content))

/-- The text has been written to the entry of the directory, and the other files are as
before. -/
structure Writes (t t' : FileTree) (dir : Path) (name s : String) : Prop
    extends ChangesOnly t t' {placeOf dir ++ [name]} where
  holds : Holds t' dir name s

theorem Holds.readText {dir : Path} {name s : String} (hname : IsEntryName name)
    (h : Holds t dir name s) :
    t.readText (dir.entry name) = .ok s := by
  rw [FileTree.readText, follow_entry_of_walk hname h.path h.walked, look, h.here]
  rfl

/-- A text that is read is found at the place of the path. -/
theorem get?_of_readText {p : Path} {s : String} (h : t.readText p = .ok s) :
    t.get? (placeOf p) = some (.file (.text s)) := by
  unfold FileTree.readText at h
  cases target : t.follow p with
  | error e =>
      rw [target] at h
      cases h
  | ok found =>
      rw [target] at h
      cases found with
      | missing place => cases h
      | found place node =>
          cases node with
          | dir => cases h
          | file content =>
              cases content with
              | bytes bs => cases h
              | text s' =>
                  cases h
                  have walked := follow_eq_walk target
                  have look := (walk_look walked nofun).2
                  rw [walk_place walked, FileTree.look] at look
                  split at look
                  · next found =>
                      cases look
                      exact found
                  · cases look

theorem changesOnly_of_write {between : FileTree} {p : Path} {s : String}
    (added : AddsDirs t between)
    (h : between.write p s = .ok t') : ChangesOnly t t' {placeOf p} := by
  obtain ⟨-, hne, other, rfl⟩ := write_eq_set h
  refine ⟨added.keepsDirs.trans (keepsDirs_set_file hne other _), fun q content hq => ?_⟩
  rw [get?_set _ hne, if_neg (Set.notMem_singleton_iff.mp hq)]
  exact added.file_iff q content

theorem writes_of_write {between : FileTree} {dir : Path} {name s : String}
    (hname : IsEntryName name)
    (added : AddsDirs t between) (h : between.write (dir.entry name) s = .ok t') :
    Writes t t' dir name s := by
  have changes := changesOnly_of_write added h
  obtain ⟨target, hne, other, rfl⟩ := write_eq_set h
  rw [placeOf_entry hname] at *
  refine ⟨changes, isPath_of_follow target, ?_, ?_⟩
  · exact (keepsDirs_set_file hne other _).walk (follow_entry hname target).1
  · rw [get?_set _ hne, if_pos rfl]

theorem ChangesOnly.refl (t : FileTree) (places : Set Place) : ChangesOnly t t places :=
  ⟨fun _ h => h, fun _ _ _ => Iff.rfl⟩

theorem ChangesOnly.trans {t t' t'' : FileTree} {places : Set Place}
    (h : ChangesOnly t t' places)
    (h' : ChangesOnly t' t'' places) : ChangesOnly t t'' places :=
  ⟨h.keepsDirs.trans h'.keepsDirs, fun q content hq =>
    (h'.elsewhere q content hq).trans (h.elsewhere q content hq)⟩

theorem ChangesOnly.mono {places places' : Set Place} (h : ChangesOnly t t' places)
    (hle : places ⊆ places') :
    ChangesOnly t t' places' :=
  ⟨h.keepsDirs, fun q content hq => h.elsewhere q content fun hmem => hq (hle hmem)⟩

/-- A text is still held when only other files have changed. -/
theorem ChangesOnly.keeps {places : Set Place} (h : ChangesOnly t t' places) {dir : Path}
    {name s : String}
    (held : Holds t dir name s) (differs : placeOf dir ++ [name] ∉ places) :
    Holds t' dir name s :=
  ⟨held.path, h.keepsDirs.walk held.walked, (h.elsewhere _ _ differs).mpr held.here⟩

/-! ## Directories that take files -/

/-- A file of some name can be written to the directory, which is there.  The fields are what a
write asks of the path, in the order in which it does. -/
structure Takes (t : FileTree) (dir : Path) (name : String) : Prop where
  isName : IsEntryName name
  path : IsPath (dir.entry name)
  nonempty : dir.text ≠ ""
  parent : (dir.entry name).parent = some dir
  walked : t.walk [] (pieces dir) = .ok (.found (placeOf dir) .dir)
  free : t.get? (placeOf dir ++ [name]) ≠ some .dir

namespace Takes

variable {dir : Path} {name : String} (h : t.Takes dir name)
include h

theorem makeDirs : t.makeDirs dir = .ok t := by
  have target : t.follow dir = .ok (.found (placeOf dir) .dir) :=
    follow_of_walk (isPath_of_entry h.isName h.path h.nonempty) h.walked fun _ => ⟨_, .inl rfl⟩
  have there : t.ensureDir dir = .ok t := by
    have made : t.makeDir dir = .error .alreadyExists := by
      rw [makeDir, target]
      rfl
    rw [ensureDir, made, isDir, target]
    rfl
  refine addDirs_eq_ok_iff.mp ?_
  rw [addDirs, addDirsWithin, if_neg (by simpa using h.nonempty), there]
  rfl

theorem write (s : String) :
    t.write (dir.entry name) s = .ok (t.set (placeOf dir ++ [name]) (.file (.text s))) := by
  rw [FileTree.write, follow_entry_of_walk h.isName h.path h.walked, look]
  cases found : t.get? (placeOf dir ++ [name]) with
  | none =>
      show (if endsOpen (dir.entry name) then _ else _) = _
      rw [endsOpen_entry h.isName, if_neg Bool.false_ne_true]
  | some n =>
      cases n with
      | dir => exact absurd found h.free
      | file content => rfl

/-- Another file does not get in the way. -/
theorem set {q : Place} (hq : q ≠ []) (other : t.get? q ≠ some .dir) (content : FileContent) :
    (t.set q (.file content)).Takes dir name := by
  refine ⟨h.isName, h.path, h.nonempty, h.parent,
    (keepsDirs_set_file hq other content).walk h.walked, ?_⟩
  rw [get?_set t hq]
  split
  · nofun
  · exact h.free

end Takes

/-- A file can be written where the path says, for its directory is there. -/
def Accepts (t : FileTree) (p : Path) : Prop :=
  ∃ dir name, p = dir.entry name ∧ t.Takes dir name

theorem accepts_of_walk {p : Path} (dir : Path) (name : String)
    (named : p = dir.entry name ∧ IsEntryName name ∧ IsPath p ∧ dir.text ≠ "" ∧
      p.parent = some dir)
    (walked : t.walk [] (pieces dir) = .ok (.found (placeOf dir) .dir))
    (free : t.get? (placeOf dir ++ [name]) ≠ some .dir) : t.Accepts p := by
  obtain ⟨rfl, isName, path, nonempty, parent⟩ := named
  exact ⟨dir, name, rfl, isName, path, nonempty, parent, walked, free⟩

theorem Accepts.write {p : Path} (h : t.Accepts p) (s : String) :
    t.write p s = .ok (t.set (placeOf p) (.file (.text s))) := by
  obtain ⟨dir, name, rfl, takes⟩ := h
  rw [placeOf_entry takes.isName]
  exact takes.write s

/-- Files do not get in each other's way. -/
theorem Accepts.set {p q : Path} (h : t.Accepts p) (other : t.Accepts q)
    (content : FileContent) :
    (t.set (placeOf q) (.file content)).Accepts p := by
  obtain ⟨dir, name, rfl, takes⟩ := h
  obtain ⟨dir', name', rfl, takes'⟩ := other
  rw [placeOf_entry takes'.isName]
  exact ⟨dir, name, rfl, takes.set (by simp) takes'.free content⟩

theorem Accepts.get?_set {p : Path} (h : t.Accepts p) (n : Node) (q : Place) :
    (t.set (placeOf p) n).get? q = if q = placeOf p then some n else t.get? q := by
  obtain ⟨dir, name, rfl, takes⟩ := h
  exact FileTree.get?_set t (by rw [placeOf_entry takes.isName]; simp) n q

/-- A file that is missing does not exist. -/
theorem Accepts.exists_eq_false {p : Path} (h : t.Accepts p)
    (missing : t.get? (placeOf p) = none) :
    t.exists p = false := by
  obtain ⟨dir, name, rfl, takes⟩ := h
  rw [placeOf_entry takes.isName] at missing
  rw [FileTree.exists, follow_entry_of_walk takes.isName takes.path takes.walked,
    look, missing]

/-- A file that is there is read. -/
theorem Accepts.readText {p : Path} {s : String} (h : t.Accepts p)
    (there : t.get? (placeOf p) = some (.file (.text s))) : t.readText p = .ok s := by
  obtain ⟨dir, name, rfl, takes⟩ := h
  rw [placeOf_entry takes.isName] at there
  exact Holds.readText takes.isName ⟨takes.path, takes.walked, there⟩

end Attestation.FileTree
