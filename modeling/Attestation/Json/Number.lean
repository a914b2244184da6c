/-!
# Numbers of the data format

Integers of 64 bits are kept exactly. Every other number is a decimal: digits and a power of
ten, without trailing zeros in the digits, so that equal values have equal representations.

## Main definitions

* `Json.Number`: integers and decimals.
* `Json.Number.read`: a number at the front of a text.
* `Json.Number.render`: its text.
-/

namespace Attestation.Json

/-- A number. -/
inductive Number where
  /-- An integer of 64 bits, with or without sign. -/
  | integer (value : Int)
  /-- The number `digits * 10 ^ exponent`, or its negative. -/
  | decimal (negative : Bool) (digits : Nat) (exponent : Int)
  deriving DecidableEq, Repr, Inhabited

namespace Number

/-- The digits without their trailing zeros, and the exponent that makes up for them. The
number of zeros is at most `fuel`. -/
def dropZeros : Nat → Nat → Int → Nat × Int
  | 0, digits, exponent => (digits, exponent)
  | fuel + 1, digits, exponent =>
      if digits ≠ 0 ∧ digits % 10 = 0 then dropZeros fuel (digits / 10) (exponent + 1)
      else (digits, exponent)

/-- The decimal digits of a natural number. -/
def digitsOf (n : Nat) : List Char := Nat.toDigits 10 n

/-- Numbers from this one upwards are too large to be read. -/
def limit : Nat := Nat.pow 2 1024 - Nat.pow 2 970

/-- The decimal number with the given digits and exponent; none when it is too large. A number
too small to be told from zero is zero. -/
def ofDecimal (negative : Bool) (digits : Nat) (exponent : Int) : Option Number :=
  if digits = 0 then some (.decimal negative 0 0)
  else
    let scale := (digitsOf digits).length + exponent
    if scale > 309 then none
    else if scale < -324 then some (.decimal negative 0 0)
    else if 0 ≤ exponent ∧ digits * Nat.pow 10 exponent.toNat ≥ limit then none
    else if exponent < 0 ∧ digits ≥ limit * Nat.pow 10 (-exponent).toNat then none
    else
      let (d, e) := dropZeros (digitsOf digits).length digits exponent
      some (.decimal negative d e)

/-- The number written by an integer literal. -/
def ofInteger (negative : Bool) (digits : Nat) : Option Number :=
  if negative then
    if digits = 0 then some (.decimal true 0 0)
    else if digits ≤ Nat.pow 2 63 then some (.integer (-digits))
    else ofDecimal true digits 0
  else if digits < Nat.pow 2 64 then some (.integer digits)
  else ofDecimal false digits 0

/-- The value of a run of decimal digits. -/
def valueOf (ds : List Char) : Nat := ds.foldl (fun n d => 10 * n + (d.toNat - '0'.toNat)) 0

/-- The digits at the front of a text, at least one, and the rest. -/
def readDigits (cs : List Char) : Option (List Char × List Char) :=
  match cs.takeWhile Char.isDigit with
  | [] => none
  | ds => some (ds, cs.dropWhile Char.isDigit)

/-- The digits before the point: a single zero, or digits that start with none. -/
def readWhole (cs : List Char) : Option (List Char × List Char) :=
  match cs with
  | '0' :: rest => if rest.head?.any Char.isDigit then none else some (['0'], rest)
  | _ => readDigits cs

/-- The digits behind a point, if there is one. -/
def readFraction (cs : List Char) : Option (Option (List Char) × List Char) :=
  match cs with
  | '.' :: rest => (readDigits rest).map fun (ds, rest) => (some ds, rest)
  | _ => some (none, cs)

/-- The exponent, if there is one. -/
def readExponent (cs : List Char) : Option (Option Int × List Char) :=
  match cs with
  | [] => some (none, [])
  | e :: rest =>
      if e = 'e' || e = 'E' then
        match rest with
        | '+' :: rest =>
            (readDigits rest).map fun (ds, rest) => (some (valueOf ds : Int), rest)
        | '-' :: rest =>
            (readDigits rest).map fun (ds, rest) => (some (-(valueOf ds : Int)), rest)
        | _ => (readDigits rest).map fun (ds, rest) => (some (valueOf ds : Int), rest)
      else some (none, cs)

/-- The number without its sign at the front of a text. -/
def readUnsigned (negative : Bool) (cs : List Char) : Option (Number × List Char) := do
  let (whole, cs) ← readWhole cs
  let (fraction, cs) ← readFraction cs
  let (exponent, cs) ← readExponent cs
  match fraction, exponent with
  | none, none => return (← ofInteger negative (valueOf whole), cs)
  | _, _ =>
      let behind := fraction.getD []
      let n ← ofDecimal negative (valueOf (whole ++ behind)) (exponent.getD 0 - behind.length)
      return (n, cs)

/-- The number at the front of a text, and the rest. -/
def read (cs : List Char) : Option (Number × List Char) :=
  match cs with
  | '-' :: rest => readUnsigned true rest
  | _ => readUnsigned false cs

/-- The digits of a decimal with the point where it belongs: written out between `10^-5` and
`10^16`, with a power of ten outside. -/
def renderDigits (digits : Nat) (exponent : Int) : List Char :=
  if digits = 0 then ['0', '.', '0']
  else
    let ds := digitsOf digits
    let scale := ds.length + exponent
    if 0 ≤ exponent ∧ scale ≤ 16 then ds ++ List.replicate exponent.toNat '0' ++ ['.', '0']
    else if 0 < scale ∧ scale ≤ 16 then
      ds.take scale.toNat ++ '.' :: ds.drop scale.toNat
    else if -5 < scale ∧ scale ≤ 0 then
      '0' :: '.' :: (List.replicate (-scale).toNat '0' ++ ds)
    else
      let power := (toString (scale - 1)).toList
      match ds with
      | [d] => d :: 'e' :: power
      | d :: more => d :: '.' :: (more ++ 'e' :: power)
      | [] => []

/-- The text of a number. -/
def render : Number → String
  | .integer value => toString value
  | .decimal negative digits exponent =>
      String.ofList ((if negative then ['-'] else []) ++ renderDigits digits exponent)

end Number

end Attestation.Json
