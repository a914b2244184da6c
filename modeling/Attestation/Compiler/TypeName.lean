import Attestation.Text.Search

/-!
# Names of attestation types

An attestation type is declared by an interface whose name has an `I` in front, in a file of
that name.

## Main definitions

* `TypeName.ofFile`: the type that a file declares.
* `TypeName.isMeant`: whether a type is meant by a name that the user gives.

## Design notes

The prefix is cut off wherever it stands in front of a name, also where it belongs to the name
of a type.
-/

namespace Attestation.TypeName

/-- The name without the ending of Solidity files and the `I` in front. -/
def ofFile (file : String) : String :=
  let stem := (Text.dropEndString? ".sol" file).getD file
  (Text.dropStart? "I" stem).getD stem

/-- The file that declares a type. -/
def interfaceFile (name : String) : String := s!"I{name}.sol"

/-- Whether a type is meant: by its name or the name of its interface, or because no type is
named. -/
def isMeant (specific : Option String) (name : String) : Bool :=
  match specific with
  | none => true
  | some given => given = name || Text.dropStart? "I" given = some name

end Attestation.TypeName
