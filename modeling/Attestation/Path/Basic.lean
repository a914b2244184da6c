import Attestation.Text.Split
import Attestation.Text.Search

/-!
# Paths

A path is the text that names a file or directory. It is kept as it was written, because
messages and status lines show it so; what it means is read off its components.

## Main definitions

* `Path`: the text of a path.
* `Path.components`: root, parent steps and names, without repeated separators and inner dots.
* `Path.join`: a path seen from another one.
* `Path.parent`, `Path.fileName`, `Path.withExtension`: the parts around the last component.

## Design notes

Keeping the text has a price, since one place has many texts.  Whatever depends on the place
goes through the components or through the pieces between separators, and whatever is shown to
the user goes through the text.
-/

namespace Attestation

/-- The text that names a file or directory. -/
structure Path where
  /-- The path as it was written. -/
  text : String
  deriving DecidableEq, Repr, Inhabited

namespace Path

/-- One step of a path. -/
inductive Component where
  /-- The root of the file system. -/
  | root
  /-- The directory itself; it only counts at the front of a relative path. -/
  | here
  /-- The parent directory. -/
  | up
  /-- An entry of a directory. -/
  | item (name : String)
  deriving DecidableEq, Repr

/-- How a component is written. -/
def Component.text : Component → String
  | .root => "/"
  | .here => "."
  | .up => ".."
  | .item name => name

/-- A path is absolute when it starts at the root. -/
def isAbsolute (p : Path) : Bool := p.text.toList.head? = some '/'

/-- Pieces that mean nothing inside a path: the empty piece of a repeated separator, and a
dot. -/
def isIdle (piece : List Char) : Bool := piece.isEmpty || piece = ['.']

/-- The component for a piece between separators, if it means something inside a path. -/
def Component.ofPiece? (piece : List Char) : Option Component :=
  if isIdle piece then none
  else if piece = ['.', '.'] then some .up
  else some (.item (String.ofList piece))

/-- Whether a relative path starts with a dot as a piece of its own. -/
def startsHere (cs : List Char) : Bool := (List.splitOn '/' cs).head? = some ['.']

/-- The components of a path. -/
def components (p : Path) : List Component :=
  let pieces := List.splitOn '/' p.text.toList
  let inner := pieces.filterMap Component.ofPiece?
  if p.isAbsolute then .root :: inner
  else if startsHere p.text.toList then .here :: inner
  else inner

/-- The components written with single separators. -/
def plainText (p : Path) : String := Text.join "/" (p.components.map Component.text)

/-- `right` seen from `left`: an absolute `right` stands for itself. -/
def join (left right : Path) : Path :=
  if right.isAbsolute then right
  else if left.text.isEmpty || left.text.toList.getLast?
    = some '/' then ⟨left.text ++ right.text⟩
  else ⟨left.text ++ "/" ++ right.text⟩

/-- The entry of the given name in the directory. -/
def entry (dir : Path) (name : String) : Path := dir.join ⟨name⟩

/-- The start of a path, which is no piece between separators (a root or a leading dot), and
the pieces behind it, last one first. -/
def lead (p : Path) : List Char × List (List Char) :=
  match p.text.toList with
  | '/' :: rest => (['/'], (List.splitOn '/' rest).reverse)
  | cs =>
      if startsHere cs then (['.'], (List.splitOn '/' cs.tail).reverse)
      else ([], (List.splitOn '/' cs).reverse)

/-- The path with the given start and pieces, last one first. -/
def ofLead (start : List Char) (pieces : List (List Char)) : Path :=
  ⟨String.ofList (start ++ List.intercalate ['/'] pieces.reverse)⟩

/-- The path without its last component; the root and the empty path have none. -/
def parent (p : Path) : Option Path :=
  let (start, pieces) := p.lead
  match pieces.dropWhile isIdle with
  | _ :: more => some (ofLead start (more.dropWhile isIdle))
  | [] => if start = ['.'] then some ⟨""⟩ else none

/-- The name of the last component, if it is an entry of a directory. -/
def fileName (p : Path) : Option String :=
  match p.components.getLast? with
  | some (.item name) => some name
  | _ => none

/-- A file name without its extension. A dot in front does not begin one. -/
def stem (name : List Char) : List Char :=
  match (name.reverse.dropWhile (· ≠ '.')).tail with
  | [] => name
  | front => front.reverse

/-- The path with another extension of its file name, or unchanged when it names no entry. -/
def withExtension (p : Path) (extension : String) : Path :=
  let (start, pieces) := p.lead
  match pieces.dropWhile isIdle with
  | last :: more =>
      if last = ['.', '.'] then p
      else ofLead start ((stem last ++ '.' :: extension.toList) :: more)
  | [] => p

end Path

end Attestation
