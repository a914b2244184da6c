import Attestation.MemberType.Basic
import Attestation.Text.Blank
import Attestation.Text.Search
import Attestation.Text.Unicode.Word

/-!
# Reading member types

A type is read as the compiler writes it: `uint256`, `bytes32[]`, `struct IPayment.Proof`.
Blanks around a type, also around the element of an array, mean nothing.

## Main definitions

* `MemberType.arraySuffix?`: an array type cut into the text of its element and its length.
* `MemberType.read`: the type that a text writes.
* `MemberType.parse`: the same with the error for the user.

## Design notes

An array is cut at its last brackets, and what stands in front of them is read again as a type
of its own, so the recursion is on the length of the text.  Widths and lengths are bounded as
the numbers that hold them are, and a text that breaks a bound is no type at all.
-/

namespace Attestation

/-- A text that is no supported type. -/
structure UnknownType where
  /-- The text as it was given. -/
  text : String
  deriving DecidableEq, Repr

/-- The text shown to the user. -/
def UnknownType.message (e : UnknownType) : String := "Unknown type " ++ e.text

namespace MemberType

/-- The number written by digits, when it is below `limit`. Leading zeros are allowed. -/
def readBelow (limit : Nat) (digits : List Char) : Option Nat :=
  let n := digits.foldl (fun n d => 10 * n + (d.toNat - '0'.toNat)) 0
  if !digits.isEmpty && digits.all Char.isDigit && n < limit then some n else none

/-- A length that may be left out. -/
def readLength (limit : Nat) (digits : List Char) : Option (Option Nat) :=
  if digits.isEmpty then some none else (readBelow limit digits).map some

/-- The text of the element and the digits of the length, when the text ends with brackets
around digits only. The element is not empty and stands on one line. -/
def arraySuffix? (cs : List Char) : Option (List Char × List Char) :=
  match cs.reverse with
  | ']' :: r =>
      match r.dropWhile Char.isDigit with
      | '[' :: element =>
          if element.isEmpty || element.contains '\n' then none
          else some (element.reverse, (r.takeWhile Char.isDigit).reverse)
      | _ => none
  | _ => none

theorem length_lt_of_arraySuffix? {cs element digits : List Char}
    (h : arraySuffix? cs = some (element, digits)) : element.length < cs.length := by
  unfold arraySuffix? at h
  split at h
  · next r hr =>
      split at h
      · next e he =>
          split at h
          · simp at h
          · simp only [Option.some.injEq, Prod.mk.injEq] at h
            have hlen : cs.length = r.length + 1 := by
              rw [← List.length_reverse, hr, List.length_cons]
            have hdrop : (r.dropWhile Char.isDigit).length ≤ r.length :=
              (List.dropWhile_sublist _).length_le
            rw [he, List.length_cons] at hdrop
            rw [← h.1, List.length_reverse]
            omega
      · simp at h
  · simp at h

/-- The integer type written by its name and its number of bits. -/
def readInteger (cs : List Char) : Option MemberType :=
  match List.isPrefixOf? "uint".toList cs with
  | some digits => (readBelow 65536 digits).map .uint
  | none =>
      (List.isPrefixOf? "int".toList cs).bind fun digits => (readBelow 65536 digits).map .int

/-- The type written by a text without array brackets. -/
def readElement (cs : List Char) : Option MemberType :=
  match String.ofList cs with
  | "bool" => some .bool
  | "address" => some .address
  | "string" => some .string
  | "byte" => some .byte
  | _ =>
      match List.isPrefixOf? "bytes".toList cs with
      | some digits => (readLength 256 digits).map .bytes
      | none =>
          match List.isPrefixOf? "struct ".toList cs with
          | some path =>
              if !path.isEmpty && path.all (fun c => Text.isWord c || c = '.') then
                some (.struct (String.ofList path))
              else none
          | none => readInteger cs

/-- The type that a text writes. -/
def read (cs : List Char) : Option MemberType :=
  match _ : arraySuffix? (Text.trim cs) with
  | some (element, digits) => do
      let element ← read element
      let length ← readLength (Nat.pow 2 64) digits
      return .array element length
  | none => readElement (Text.trim cs)
termination_by cs.length
decreasing_by
  have := length_lt_of_arraySuffix? ‹arraySuffix? (Text.trim cs) = some (element, digits)›
  have := Text.length_trim_le cs
  omega

/-- The type that a text writes, or the text as the error. -/
def parse (text : String) : Except UnknownType MemberType :=
  match read text.toList with
  | some type => .ok type
  | none => .error ⟨text⟩

end MemberType

end Attestation
