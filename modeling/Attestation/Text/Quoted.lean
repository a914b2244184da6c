import Attestation.Text.Unicode.Printable

/-!
# Quoted text

Text in double quotes, as status lines and log fields show it: characters that could be misread
are escaped.

## Main definitions

* `Text.quoted`: a text in quotes.
* `Text.quotedPath`: a path in quotes, where single quotes are escaped too.
-/

namespace Attestation.Text

/-- The hexadecimal digits of a number, as few as there are. -/
def hexDigits (n : Nat) : List Char := Nat.toDigits 16 n

/-- A character by its number. -/
def numbered (c : Char) : List Char :=
  '\\' :: 'u' :: '\x7b' :: (hexDigits c.toNat ++ ['\x7d'])

/-- A character inside quotes, but for the quotes themselves: controls with short names, then
whatever is not printable by its number. -/
def shown (c : Char) (isFirst : Bool) : List Char :=
  match c with
  | '\x00' => ['\\', '0']
  | '\t' => ['\\', 't']
  | '\r' => ['\\', 'r']
  | '\n' => ['\\', 'n']
  | '\\' => ['\\', '\\']
  | c =>
      if isFirst && extendsGrapheme c then numbered c
      else if isPrintable c then [c]
      else numbered c

/-- The characters of a text inside double quotes. A character that is drawn onto the one
before it is shown by its number where it comes first, since nothing stands before it to be
drawn onto. -/
def quotedChars : List Char → List Char
  | [] => []
  | c :: r =>
      (if c = '"' then ['\\', '"'] else shown c true) ++ r.flatMap fun d =>
        if d = '"' then ['\\', '"'] else shown d false

/-- A text in double quotes. -/
def quoted (s : String) : String :=
  String.ofList ('"' :: (quotedChars s.toList ++ ['"']))

/-- A character of a quoted path. -/
def shownInPath (c : Char) : List Char :=
  if c = '"' then ['\\', '"'] else if c = '\'' then ['\\', '\''] else shown c true

/-- A path in double quotes. -/
def quotedPath (s : String) : String :=
  String.ofList ('"' :: (s.toList.flatMap shownInPath ++ ['"']))

end Attestation.Text
