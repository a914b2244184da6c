import Attestation.Path.Basic

/-!
# Relative paths

How to get from one directory to another place, by the names alone. Relative paths are seen
from the working directory; a parent step at the root changes nothing.

## Main definitions

* `Path.names`: the names that lead from the root to a place.
* `Path.relative`: the way from a directory to a place.
* `Path.specifier`: that way as the specifier of an import.

## Design notes

Only names are compared, and no file is looked at: the files that an import leads to need not
have been written yet.  For the same reason symbolic links do not matter.
-/

namespace Attestation.Path

/-- Takes one component onto a stack of names, where a parent step takes the last name off. -/
def follow (names : List String) : Component → List String
  | .up => names.dropLast
  | .item name => names ++ [name]
  | .root | .here => names

/-- The names that lead from the root to a place seen from the working directory `here`. -/
def names (here p : Path) : List String := (here.join p).components.foldl follow []

/-- The components of the place that a path names, without dots and parent steps. The empty
path names no place. -/
def normal (here p : Path) : List Component :=
  if p.text.isEmpty then [] else .root :: (names here p).map .item

/-- Two lists without their common front. -/
def dropCommon {α : Type} [DecidableEq α] : List α → List α → List α × List α
  | a :: as, b :: bs => if a = b then dropCommon as bs else (a :: as, b :: bs)
  | as, bs => (as, bs)

/-- The steps from the directory `source` to the place `target`: up to where they part, then
down. -/
def steps (here source target : Path) : List Component :=
  let (ups, downs) := dropCommon (normal here source) (normal here target)
  ups.map (fun _ => .up) ++ downs

/-- The way from the directory `source` to the place `target`; a dot when they are the same. -/
def relative (here source target : Path) : String :=
  match steps here source target with
  | [] => "."
  | way => Text.join "/" (way.map Component.text)

/-- The text with `./` in front, unless it starts with a dot already. -/
def dotted (relative : String) : String :=
  if relative.toList.head? = some '.' then relative else "./" ++ relative

/-- The way from the directory `source` to the place `target` as the specifier of an import. -/
def specifier (here source target : Path) : String := dotted (relative here source target)

end Attestation.Path
