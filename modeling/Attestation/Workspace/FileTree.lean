import Attestation.Path.Basic
import Attestation.Workspace.IoError

/-!
# File trees

The files and directories below one root, as plain data. A path is followed name by name from
the root; a parent step at the root stays there.

## Main definitions

* `FileContent`: text, or bytes that are no text.
* `FileTree`: what is found at each place.
* `FileTree.follow`: the place that a path leads to.
* `FileTree.exists`, `FileTree.readText`, `FileTree.list`, `FileTree.addDirs`,
  `FileTree.write`, `FileTree.removeTree`: the file operations.

The statements `FileTree.get?_set` and `FileTree.get?_eraseWhere` say what is found behind the
two changes that all operations are made of.
-/

namespace Attestation

/-- What a file holds. -/
inductive FileContent where
  | text (s : String)
  /-- Bytes that are not UTF-8. -/
  | bytes (bs : List UInt8)
  deriving DecidableEq, Repr, Inhabited

/-- What is found at a place. -/
inductive Node where
  | dir
  | file (content : FileContent)
  deriving DecidableEq, Repr, Inhabited

/-- A place in a tree: the names that lead there from the root. -/
abbrev Place := List String

/-- The files and directories below one root. -/
structure FileTree where
  /-- What is found at each place but the root. -/
  nodes : List (Place × Node) := []
  /-- No place occurs twice. -/
  distinct : (nodes.map (·.1)).Nodup := by simp
  deriving DecidableEq, Repr

/-- An entry of a directory. -/
structure DirEntry where
  name : String
  /-- Whether it is a regular file. -/
  isFile : Bool
  deriving DecidableEq, Repr, Inhabited

namespace FileTree

instance : Inhabited FileTree := ⟨{}⟩

/-- What is found at a place. The root is always a directory. -/
def get? (t : FileTree) (p : Place) : Option Node :=
  if p = [] then some .dir else (t.nodes.find? (·.1 = p)).map (·.2)

/-- The tree with something else at a place. -/
def set (t : FileTree) (p : Place) (n : Node) : FileTree where
  nodes := (p, n) :: t.nodes.filter (·.1 ≠ p)
  distinct := by
    rw [List.map_cons, List.nodup_cons]
    refine ⟨?_, t.distinct.sublist (List.filter_sublist.map _)⟩
    simp

/-- The tree without the places of which `gone` is true. -/
def eraseWhere (t : FileTree) (gone : Place → Bool) : FileTree where
  nodes := t.nodes.filter (!gone ·.1)
  distinct := t.distinct.sublist (List.filter_sublist.map _)

@[simp] theorem get?_root (t : FileTree) : t.get? [] = some .dir := rfl

/-- What is found in a tree behind a change at one place. -/
theorem get?_set (t : FileTree) {p : Place} (hp : p ≠ []) (n : Node) (q : Place) :
    (t.set p n).get? q = if q = p then some n else t.get? q := by
  by_cases hq : q = []
  · subst hq
    simp [hp.symm]
  · by_cases hqp : q = p
    · subst hqp
      simp [get?, set, hq]
    · have hpq : p ≠ q := fun h => hqp h.symm
      simp only [get?, set, hq, hqp, if_false, List.find?_cons, hpq, decide_false,
        List.find?_filter]
      congr 2
      funext node
      by_cases h : node.1 = q <;> simp [h, hqp]

/-- What is found in a tree from which places are gone. -/
theorem get?_eraseWhere (t : FileTree) (gone : Place → Bool) {q : Place} (hq : q ≠ []) :
    (t.eraseWhere gone).get? q = if gone q then none else t.get? q := by
  simp only [get?, eraseWhere, hq, if_false, List.find?_filter]
  cases hg : gone q with
  | true =>
      simp only [if_true, Option.map_eq_none_iff, List.find?_eq_none]
      intro node _
      by_cases h : node.1 = q <;> simp [h, hg]
  | false =>
      simp only [Bool.false_eq_true, if_false]
      congr 2
      funext node
      by_cases h : node.1 = q <;> simp [h, hg]

/-- Whether a place lies strictly below another one. -/
def isBelow (p q : Place) : Bool := p.isPrefixOf q && p ≠ q

/-- Where a path leads. -/
inductive Target where
  /-- To something. -/
  | found (place : Place) (node : Node)
  /-- To a name that a directory does not have. -/
  | missing (place : Place)
  deriving DecidableEq, Repr

/-- Follows names from a directory on. -/
def walk (t : FileTree) (dir : Place) : List String → Except IoError Target
  | [] => .ok (.found dir .dir)
  | "." :: more => walk t dir more
  | ".." :: more => walk t dir.dropLast more
  | name :: more =>
      match t.get? (dir ++ [name]) with
      | some .dir => walk t (dir ++ [name]) more
      | some (.file content) =>
          if more.isEmpty then .ok (.found (dir ++ [name]) (.file content)) else .error
            .notADirectory
      | none => if more.isEmpty then .ok (.missing (dir ++ [name])) else .error .notFound

/-- The names of a path. -/
def pieces (p : Path) : List String :=
  ((List.splitOn '/' p.text.toList).filter (!·.isEmpty)).map String.ofList

/-- Whether a path ends with a separator, and so can only mean a directory. -/
def endsOpen (p : Path) : Bool := p.text.toList.getLast? = some '/'

/-- The place that a path leads to. The empty path leads nowhere. -/
def follow (t : FileTree) (p : Path) : Except IoError Target :=
  if p.text.toList.contains '\x00' then .error .invalidInput
  else if p.text.isEmpty then .error .notFound
  else
    match t.walk [] (pieces p) with
    | .ok (.found place (.file content)) =>
        if endsOpen p then .error .notADirectory else .ok (.found place (.file content))
    | other => other

/-- Whether a path leads to something. -/
def «exists» (t : FileTree) (p : Path) : Bool :=
  match t.follow p with
  | .ok (.found _ _) => true
  | _ => false

/-- Whether a path leads to a directory. -/
def isDir (t : FileTree) (p : Path) : Bool :=
  match t.follow p with
  | .ok (.found _ .dir) => true
  | _ => false

/-- The text of a file. -/
def readText (t : FileTree) (p : Path) : Except IoError String := do
  match ← t.follow p with
  | .found _ (.file (.text s)) => .ok s
  | .found _ (.file (.bytes _)) => .error .invalidData
  | .found _ .dir => .error .isADirectory
  | .missing _ => .error .notFound

/-- The entries of the directory at a place. -/
def entriesAt (t : FileTree) (p : Place) : List DirEntry :=
  t.nodes.filterMap fun (q, n) =>
    match q.getLast? with
    | some name => if q.dropLast = p then some ⟨name, n ≠ .dir⟩ else none
    | none => none

/-- The entries of a directory, in no particular order. -/
def list (t : FileTree) (p : Path) : Except IoError (List DirEntry) := do
  match ← t.follow p with
  | .found place .dir => .ok (t.entriesAt place)
  | .found _ (.file _) => .error .notADirectory
  | .missing _ => .error .notFound

/-- Makes one directory. -/
def makeDir (t : FileTree) (p : Path) : Except IoError FileTree := do
  match ← t.follow p with
  | .found _ _ => .error .alreadyExists
  | .missing place => .ok (t.set place .dir)

/-- Makes a directory where there is none yet. -/
def ensureDir (t : FileTree) (p : Path) : Except IoError FileTree :=
  match t.makeDir p with
  | .ok made => .ok made
  | .error e => if t.isDir p then .ok t else .error e

/-- The result of a change, and the tree behind it: a change that fails changes nothing. -/
def settle (t : FileTree) : Except IoError FileTree → Except IoError Unit × FileTree
  | .ok changed => (.ok (), changed)
  | .error e => (.error e, t)

theorem settle_eq_ok_iff {t t' : FileTree} {result : Except IoError FileTree} :
    t.settle result = (.ok (), t') ↔ result = .ok t' := by
  cases result <;> simp [settle]

/-- Makes a directory, and before it those that it lies in, at most `fuel` of them. The
directories that have been made stay when a later one cannot be made. -/
def addDirsWithin : Nat → FileTree → Path → Except IoError Unit × FileTree
  | 0, t, p => t.settle (t.ensureDir p)
  | fuel + 1, t, p =>
      if p.text.isEmpty then (.ok (), t)
      else
        match t.ensureDir p with
        | .error .notFound =>
            match p.parent with
            | some parent =>
                match addDirsWithin fuel t parent with
                | (.ok (), made) => made.settle (made.ensureDir p)
                | failed => failed
            | none => (.error (.other "failed to create whole tree"), t)
        | result => t.settle result

/-- The result of making a directory and those that it lies in, and the tree behind it. A path
has no more directories than characters. -/
def addDirs (t : FileTree) (p : Path) : Except IoError Unit × FileTree :=
  addDirsWithin (p.text.length + 1) t p

/-- The tree in which a directory and those that it lies in have been made. -/
def makeDirs (t : FileTree) (p : Path) : Except IoError FileTree :=
  let (result, made) := t.addDirs p
  result.map fun () => made

theorem addDirs_eq_ok_iff {t t' : FileTree} {p : Path} :
    t.addDirs p = (.ok (), t') ↔ t.makeDirs p = .ok t' := by
  rw [makeDirs]
  rcases t.addDirs p with ⟨_ | _, made⟩ <;> simp [Except.map]

/-- Writes a file. -/
def write (t : FileTree) (p : Path) (s : String) : Except IoError FileTree := do
  match ← t.follow p with
  | .found _ .dir => .error .isADirectory
  | .found place (.file _) => .ok (t.set place (.file (.text s)))
  | .missing place =>
      if endsOpen p then .error .isADirectory else .ok (t.set place (.file (.text s)))

/-- Whether the last piece of a path is a dot. A path that ends with a dot and a separator
counts too. -/
def endsWithDot (p : Path) : Bool := (pieces p).getLast? = some "."

/-- Whether the last piece of a path is a parent step. -/
def endsWithUp (p : Path) : Bool := (pieces p).getLast? = some ".."

/-- Removes a directory and all below it: first what is inside, then the directory itself, as
far as the path still leads to it. A directory cannot be removed by a path that ends with a
dot. -/
def removeTree (t : FileTree) (p : Path) : Except IoError Unit × FileTree :=
  match t.follow p with
  | .error e => (.error e, t)
  | .ok (.missing _) => (.error .notFound, t)
  | .ok (.found _ (.file _)) => (.error .notADirectory, t)
  | .ok (.found place .dir) =>
      let emptied := t.eraseWhere (isBelow place)
      if endsWithDot p then (.error .invalidInput, emptied)
      else if endsWithUp p then
        (if emptied.exists p then .error .directoryNotEmpty else .ok (), emptied)
      else (.ok (), emptied.eraseWhere (· = place))

end FileTree

end Attestation
