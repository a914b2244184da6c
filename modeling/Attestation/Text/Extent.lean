/-!
# Positions in a text, counted in bytes

Positions that the program reports count the bytes of the UTF-8 form of a text. A text is only
ever cut between two characters, so a cut that would fall inside a character moves to the front
of it.

## Main definitions

* `Text.utf8Size`: the number of bytes of a text.
* `Text.utf8Bytes`: those bytes.
* `Text.cutAt`: the longest front of a text with at most so many bytes, and the rest.
-/

namespace Attestation.Text

/-- The number of bytes of the UTF-8 form. -/
def utf8Size : List Char → Nat
  | [] => 0
  | c :: r => c.utf8Size + utf8Size r

/-- The bytes of the UTF-8 form. -/
def utf8Bytes (cs : List Char) : List UInt8 := cs.flatMap String.utf8EncodeChar

@[simp] theorem utf8Size_nil : utf8Size [] = 0 := rfl

@[simp] theorem utf8Size_cons (c : Char) (cs : List Char) :
    utf8Size (c :: cs) = c.utf8Size + utf8Size cs := rfl

@[simp] theorem utf8Size_append (as bs : List Char) :
    utf8Size (as ++ bs) = utf8Size as + utf8Size bs := by
  induction as with
  | nil => simp
  | cons a as ih => simp [ih, Nat.add_assoc]

/-- The bytes are as many as the size says. -/
theorem length_utf8Bytes (cs : List Char) : (utf8Bytes cs).length = utf8Size cs := by
  induction cs with
  | nil => rfl
  | cons c r ih => simpa [utf8Bytes] using ih

/-- The longest front of the text that has at most `limit` bytes, and what is left. -/
def cutAt : Nat → List Char → List Char × List Char
  | _, [] => ([], [])
  | limit, c :: r =>
      if c.utf8Size ≤ limit then
        let (front, rest) := cutAt (limit - c.utf8Size) r
        (c :: front, rest)
      else ([], c :: r)

/-- Cutting loses nothing. -/
theorem cutAt_append (limit : Nat) (cs : List Char) :
    (cutAt limit cs).1 ++ (cutAt limit cs).2 = cs := by
  induction cs generalizing limit with
  | nil => rfl
  | cons c r ih =>
      simp only [cutAt]
      split
      · simp [ih]
      · rfl

/-- The front keeps to the limit. -/
theorem utf8Size_cutAt_le (limit : Nat) (cs : List Char) :
    utf8Size (cutAt limit cs).1 ≤ limit := by
  induction cs generalizing limit with
  | nil => simp [cutAt]
  | cons c r ih =>
      simp only [cutAt]
      split
      · have := ih (limit - c.utf8Size)
        simp only [utf8Size_cons]
        omega
      · simp

end Attestation.Text
