import Attestation.Text.Extent

/-!
# Names as 32-byte words

An attestation type or a data source is identified on chain by a 32-byte word: the UTF-8 bytes
of its name, filled up with zeros on the right.

## Main definitions

* `Bytes32.encode`: the word as a hexadecimal literal.
* `Bytes32.TooLong`: the only way in which encoding fails.

## Design notes

The bytes are those of the whole name, and a name that is too long is refused and not cut: two
names that are cut to one word could not be told apart on chain.
-/

namespace Attestation.Bytes32

/-- The number of bytes in a word. -/
def size : Nat := 32

/-- A name whose UTF-8 form does not fit into a word. -/
structure TooLong where
  /-- The name. -/
  name : String
  /-- The number of bytes of its UTF-8 form. -/
  length : Nat
  deriving DecidableEq, Repr

/-- The text shown to the user. -/
def TooLong.message (e : TooLong) : String :=
  s!"name '{e.name}' is {e.length} bytes long, at most {size} bytes fit into bytes32"

/-- One hexadecimal digit, in small letters. -/
def hexDigit (n : Nat) : Char := Nat.digitChar (n % 16)

/-- The two digits of a byte, high half first. -/
def hexByte (b : UInt8) : List Char := [hexDigit (b.toNat / 16), hexDigit b.toNat]

/-- The bytes of a name with zeros behind them up to the size of a word. -/
def pad (bytes : List UInt8) : List UInt8 := bytes ++ List.replicate (size - bytes.length) 0

/-- The word of a name: `0x` and 64 hexadecimal digits. -/
def encode (name : String) : Except TooLong String :=
  let bytes := Text.utf8Bytes name.toList
  if bytes.length ≤ size then
    .ok (String.ofList ('0' :: 'x' :: (pad bytes).flatMap hexByte))
  else
    .error ⟨name, bytes.length⟩

end Attestation.Bytes32
