import Attestation.Bytes32
import Mathlib.Data.List.DropRight

/-!
# Names and their words

A word is a faithful code of the names that fit into it (`Bytes32.encode_iff`): its digits
stand for the bytes of the name with zeros behind them, and only the NUL characters at the end
of a name cannot be told from these.

## Main definitions

* `Bytes32.decode`: the bytes that a hexadecimal literal stands for.
* `Bytes32.withoutZeros`, `Bytes32.withoutNuls`: bytes and names without what looks like
  filling.
* `Bytes32.IsWordOf`: literals that stand for a name.

## Design notes

The word is described by what it is decoded to, and not by how it is made.  A name is too long
when its bytes are, whatever its characters; an umlaut counts as two.  Equality of words is
equality of names up to NULs at the end, so names without NUL are told apart, which covers
every attestation type and data source.
-/

namespace Attestation.Bytes32

open Text

/-! ## Hexadecimal digits -/

/-- The value of a hexadecimal digit in small letters. -/
def digitValue (c : Char) : Option Nat :=
  if c.isDigit then some (c.toNat - '0'.toNat)
  else if 'a' ≤ c ∧ c ≤ 'f' then some (c.toNat - 'a'.toNat + 10)
  else none

/-- The bytes that pairs of digits stand for. -/
def decodeDigits : List Char → Option (List UInt8)
  | [] => some []
  | high :: low :: r => do
      let h ← digitValue high
      let l ← digitValue low
      let bytes ← decodeDigits r
      return UInt8.ofNat (16 * h + l) :: bytes
  | [_] => none

/-- The bytes of a hexadecimal literal. -/
def decode (literal : String) : Option (List UInt8) :=
  match literal.toList with
  | '0' :: 'x' :: digits => decodeDigits digits
  | _ => none

/-- The hexadecimal digits, with small letters. -/
def IsHexDigit (c : Char) : Prop := c.isDigit = true ∨ 'a' ≤ c ∧ c ≤ 'f'

theorem digitValue_hexDigit (n : Nat) : digitValue (hexDigit n) = some (n % 16) := by
  have each : ∀ v < 16, digitValue (Nat.digitChar v) = some v := by decide
  exact each _ (Nat.mod_lt _ (by decide))

theorem isHexDigit_hexDigit (n : Nat) : IsHexDigit (hexDigit n) := by
  have each : ∀ v < 16, (Nat.digitChar v).isDigit = true ∨
    'a' ≤ Nat.digitChar v ∧ Nat.digitChar v ≤ 'f' := by decide
  exact each _ (Nat.mod_lt _ (by decide))

theorem isHexDigit_of_digitValue {c : Char} {v : Nat} (h : digitValue c = some v) :
    IsHexDigit c := by
  unfold digitValue at h
  split at h
  · next digit => exact .inl digit
  · split at h
    · next letter => exact .inr letter
    · cases h

/-- There are sixteen digits. -/
theorem exists_hexDigit_eq {c : Char} (h : IsHexDigit c) : ∃ v < 16, hexDigit v = c := by
  have ofNat : Char.ofNat c.toNat = c := Char.ofNat_toNat c
  rcases h with digit | ⟨low, high⟩
  · obtain ⟨low, high⟩ : 48 ≤ c.toNat ∧ c.toNat ≤ 57 := by
      simpa [Char.isDigit, Char.le_def, UInt32.le_iff_toNat_le] using digit
    have each : ∀ k < 10, hexDigit k = Char.ofNat (48 + k) := by decide
    refine ⟨c.toNat - 48, by omega, ?_⟩
    rw [each _ (by omega), Nat.add_sub_cancel' low, ofNat]
  · have low : 97 ≤ c.toNat := low
    have high : c.toNat ≤ 102 := high
    have each : ∀ k < 6, hexDigit (10 + k) = Char.ofNat (97 + k) := by decide
    refine ⟨10 + (c.toNat - 97), by omega, ?_⟩
    rw [each _ (by omega), Nat.add_sub_cancel' low, ofNat]

/-- A digit is the only one of its value. -/
theorem digitValue_eq_some_iff {c : Char} {v : Nat} : digitValue c = some v ↔
    v < 16 ∧ hexDigit v = c := by
  constructor
  · intro h
    obtain ⟨u, small, rfl⟩ := exists_hexDigit_eq (isHexDigit_of_digitValue h)
    rw [digitValue_hexDigit, Nat.mod_eq_of_lt small, Option.some.injEq] at h
    exact h ▸ ⟨small, rfl⟩
  · rintro ⟨small, rfl⟩
    rw [digitValue_hexDigit, Nat.mod_eq_of_lt small]

theorem toNat_ofNat {v : Nat} (small : v < 256) : (UInt8.ofNat v).toNat = v :=
  UInt8.toNat_ofNat_of_lt' small

theorem ofNat_halves (b : UInt8) :
    UInt8.ofNat (16 * (b.toNat / 16 % 16) + b.toNat % 16) = b := by
  have small := b.toNat_lt
  have halves : 16 * (b.toNat / 16 % 16) + b.toNat % 16 = b.toNat := by omega
  rw [halves, UInt8.ofNat_toNat]

theorem hexByte_ofNat {h l : Nat} (hh : h < 16) (hl : l < 16) :
    hexByte (UInt8.ofNat (16 * h + l)) = [hexDigit h, hexDigit l] := by
  have value : (UInt8.ofNat (16 * h + l)).toNat = 16 * h + l := toNat_ofNat (by omega)
  have high : (16 * h + l) / 16 = h := by omega
  have low : hexDigit (16 * h + l) = hexDigit l := by rw [hexDigit, hexDigit, Nat.mul_add_mod]
  rw [hexByte, value, high, low]

/-- **Digits are read back**, and no other digits are read so. -/
theorem decodeDigits_eq_some_iff {digits : List Char} {bytes : List UInt8} :
    decodeDigits digits = some bytes ↔ digits = bytes.flatMap hexByte := by
  constructor
  · intro h
    fun_induction decodeDigits digits generalizing bytes with
    | case1 =>
        cases h
        rfl
    | case2 high low r ih =>
        obtain ⟨hv, hhigh, h⟩ := Option.bind_eq_some_iff.mp h
        obtain ⟨lv, hlow, h⟩ := Option.bind_eq_some_iff.mp h
        obtain ⟨rest, hrest, ⟨⟩⟩ := Option.bind_eq_some_iff.mp h
        obtain ⟨smallHigh, rfl⟩ := digitValue_eq_some_iff.mp hhigh
        obtain ⟨smallLow, rfl⟩ := digitValue_eq_some_iff.mp hlow
        rw [List.flatMap_cons, hexByte_ofNat smallHigh smallLow, ← ih hrest]
        rfl
    | case3 => cases h
  · rintro rfl
    induction bytes with
    | nil => rfl
    | cons b more ih =>
        rw [List.flatMap_cons, hexByte, List.cons_append, List.cons_append, List.nil_append,
          decodeDigits,
          digitValue_hexDigit, digitValue_hexDigit, ih]
        exact congrArg (fun b' => some (b' :: more)) (ofNat_halves b)

theorem length_flatMap_hexByte (bytes : List UInt8) :
    (bytes.flatMap hexByte).length = 2 * bytes.length := by
  induction bytes with
  | nil => rfl
  | cons b more ih =>
      rw [List.flatMap_cons, List.length_append, ih, List.length_cons,
        show (hexByte b).length = 2 from rfl]
      omega

theorem isHexDigit_of_mem {bytes : List UInt8} {c : Char} (h : c ∈ bytes.flatMap hexByte) :
    IsHexDigit c := by
  obtain ⟨b, -, hc⟩ := List.mem_flatMap.mp h
  rcases List.mem_pair.mp hc with rfl | rfl
  · exact isHexDigit_hexDigit _
  · exact isHexDigit_hexDigit _

theorem decode_literal (digits : List Char) :
    decode (String.ofList ('0' :: 'x' :: digits)) = decodeDigits digits := by
  rw [decode, String.toList_ofList]
  rfl

/-! ## Filling -/

/-- The bytes without the zeros at their end. -/
def withoutZeros (bytes : List UInt8) : List UInt8 := bytes.rdropWhile (· = 0)

/-- The name without the NUL characters at its end. -/
def withoutNuls (name : String) : String := String.ofList (name.toList.rdropWhile (· = '\x00'))

theorem withoutNuls_eq_self {name : String} (h : name.toList.getLast? ≠ some '\x00') :
    withoutNuls name = name := by
  have kept : name.toList.rdropWhile (· = '\x00') = name.toList := by
    rcases List.eq_nil_or_concat' name.toList with empty | ⟨front, last, text⟩
    · rw [empty]
      rfl
    · rw [text, List.rdropWhile_concat_neg]
      simpa [text] using h
  rw [withoutNuls, kept, String.ofList_toList]

theorem withoutZeros_append_zeros (bytes : List UInt8) (n : Nat) :
    withoutZeros (bytes ++ List.replicate n 0) = withoutZeros bytes := by
  induction n with
  | zero => rw [List.replicate_zero, List.append_nil]
  | succ n ih =>
      rw [List.replicate_succ', ← List.append_assoc, withoutZeros,
        List.rdropWhile_concat_pos _ _ _ (by simp)]
      exact ih

theorem exists_zeros (bytes : List UInt8) :
    ∃ n, bytes = withoutZeros bytes ++ List.replicate n 0 := by
  induction bytes using List.reverseRecOn with
  | nil => exact ⟨0, rfl⟩
  | append_singleton front last ih =>
      by_cases zero : last = 0
      · subst zero
        obtain ⟨n, hn⟩ := ih
        refine ⟨n + 1, ?_⟩
        rw [withoutZeros, List.rdropWhile_concat_pos _ _ _ (by simp), List.replicate_succ',
          ← List.append_assoc,
          ← withoutZeros, ← hn]
      · refine ⟨0, ?_⟩
        rw [withoutZeros, List.rdropWhile_concat_neg _ _ _ (by simpa using zero),
          List.replicate_zero, List.append_nil]

theorem length_pad {bytes : List UInt8} (fits : bytes.length ≤ size) :
    (pad bytes).length = size := by
  rw [pad, List.length_append, List.length_replicate, Nat.add_sub_cancel' fits]

/-- Filling is found again by its zeros. -/
theorem pad_eq_iff {bytes word : List UInt8} (fits : bytes.length ≤ size) :
    pad bytes = word ↔ word.length = size ∧ withoutZeros word = withoutZeros bytes := by
  constructor
  · rintro rfl
    exact ⟨length_pad fits, withoutZeros_append_zeros _ _⟩
  · rintro ⟨full, same⟩
    obtain ⟨n, hn⟩ := exists_zeros word
    obtain ⟨m, hm⟩ := exists_zeros bytes
    rw [same] at hn
    have lengths : word.length = (withoutZeros bytes).length + n := by
      simpa using congrArg List.length hn
    have lengths' : bytes.length = (withoutZeros bytes).length + m := by
      simpa using congrArg List.length hm
    have zeros : n = m + (size - bytes.length) := by omega
    rw [hn, zeros, ← List.replicate_append_replicate, ← List.append_assoc, ← hm, pad]

/-! ## The bytes of a name -/

theorem toByteArray_eq (s : String) : s.toByteArray = (utf8Bytes s.toList).toByteArray := by
  conv_lhs => rw [← String.ofList_toList (s := s)]
  rw [String.toByteArray_ofList, List.utf8Encode, utf8Bytes]

theorem toByteArray_inj {bytes bytes' : List UInt8} : bytes.toByteArray = bytes'.toByteArray ↔
    bytes = bytes' := by
  refine ⟨fun h => ?_, congrArg _⟩
  have same := congrArg ByteArray.data h
  rw [List.data_toByteArray, List.data_toByteArray] at same
  exact List.toArray_inj same

theorem utf8ByteSize_eq (s : String) : s.utf8ByteSize = (utf8Bytes s.toList).length := by
  rw [← String.size_toByteArray, toByteArray_eq, List.size_toByteArray]

/-- Only NUL is written with a zero at the end. -/
theorem exists_last_byte {c : Char} (h : c ≠ '\x00') :
    ∃ front b, String.utf8EncodeChar c = front ++ [b] ∧ b ≠ 0 := by
  have high : ∀ v : Nat, UInt8.ofNat (v % 64 + 128) ≠ 0 := by
    intro v zero
    have value : v % 64 + 128 = 0 :=
      (toNat_ofNat (by omega)).symm.trans (congrArg UInt8.toNat zero)
    omega
  rw [String.utf8EncodeChar]
  split_ifs with one two three
  · refine ⟨[], _, rfl, fun zero => h ?_⟩
    have value : c.val.toNat = 0 :=
      (toNat_ofNat (by omega)).symm.trans (congrArg UInt8.toNat zero)
    exact Char.ext (UInt32.toNat_inj.mp value)
  · exact ⟨[_], _, rfl, high _⟩
  · exact ⟨[_, _], _, rfl, high _⟩
  · exact ⟨[_, _, _], _, rfl, high _⟩

/-- The zeros at the end of the bytes of a name are the NUL characters at its end. -/
theorem withoutZeros_utf8Bytes (cs : List Char) :
    withoutZeros (utf8Bytes cs) = utf8Bytes (cs.rdropWhile (· = '\x00')) := by
  have bytes : ∀ (front : List Char) (c : Char), utf8Bytes (front ++ [c])
      = utf8Bytes front ++ String.utf8EncodeChar c := by
    intro front c
    rw [utf8Bytes, List.flatMap_append, List.flatMap_singleton, utf8Bytes]
  induction cs using List.reverseRecOn with
  | nil => rfl
  | append_singleton front c ih =>
      by_cases nul : c = '\x00'
      · subst nul
        rw [List.rdropWhile_concat_pos _ _ _ (by simp), ← ih, bytes]
        exact withoutZeros_append_zeros _ 1
      · obtain ⟨first, b, encoded, nonzero⟩ := exists_last_byte nul
        rw [List.rdropWhile_concat_neg _ _ _ (by simpa using nul), bytes, encoded,
          ← List.append_assoc, withoutZeros,
          List.rdropWhile_concat_neg _ _ _ (by simpa using nonzero)]

theorem toByteArray_withoutNuls (name : String) :
    (withoutNuls name).toByteArray = (withoutZeros (utf8Bytes name.toList)).toByteArray := by
  rw [toByteArray_eq, withoutNuls, String.toList_ofList, withoutZeros_utf8Bytes]

/-! ## Words -/

/-- A literal that stands for a name: `0x` and 64 digits, which are those of bytes that are the
UTF-8 form of the name up to zeros at their end and NUL characters at its end.  It says how a
word is read, and nothing of how it is made. -/
structure IsWordOf (literal name : String) : Prop where
  digits : ∃ digits : List Char, literal = String.ofList ('0' :: 'x' :: digits) ∧
    digits.length = 64 ∧
    ∀ c ∈ digits, IsHexDigit c
  bytes : ∃ bytes, decode literal = some bytes ∧
    (withoutZeros bytes).toByteArray = (withoutNuls name).toByteArray

theorem isWordOf_iff {literal name : String} (fits : name.utf8ByteSize ≤ size) :
    IsWordOf literal name ↔ literal
      = String.ofList ('0' :: 'x' :: (pad (utf8Bytes name.toList)).flatMap hexByte) := by
  rw [utf8ByteSize_eq] at fits
  constructor
  · rintro ⟨⟨digits, rfl, long, -⟩, bytes, decoded, same⟩
    rw [decode_literal, decodeDigits_eq_some_iff] at decoded
    subst decoded
    rw [length_flatMap_hexByte] at long
    rw [toByteArray_withoutNuls, toByteArray_inj] at same
    rw [(pad_eq_iff fits).mpr ⟨by rw [size]; omega, same⟩]
  · rintro rfl
    obtain ⟨full, same⟩ := (pad_eq_iff fits).mp rfl
    refine ⟨⟨_, rfl, ?_, fun c => isHexDigit_of_mem⟩, pad (utf8Bytes name.toList), ?_, ?_⟩
    · rw [length_flatMap_hexByte, full, size]
    · rw [decode_literal, decodeDigits_eq_some_iff]
    · rw [toByteArray_withoutNuls, same]

theorem encode_eq_ok_iff {name literal : String} :
    encode name = .ok literal ↔ name.utf8ByteSize ≤ size ∧ IsWordOf literal name := by
  have length := utf8ByteSize_eq name
  unfold encode
  dsimp only
  split
  · next fits =>
      rw [← length] at fits
      rw [isWordOf_iff fits, and_iff_right fits, Except.ok.injEq, eq_comm]
  · next long =>
      rw [← length] at long
      exact ⟨nofun, fun ⟨fits, _⟩ => absurd fits long⟩

theorem encode_eq_error_iff {name : String} {e : TooLong} :
    encode name = .error e ↔ size < name.utf8ByteSize ∧ e = ⟨name, name.utf8ByteSize⟩ := by
  have length := utf8ByteSize_eq name
  unfold encode
  dsimp only
  split
  · next fits =>
      rw [← length] at fits
      exact ⟨nofun, fun ⟨long, _⟩ => absurd fits long.not_ge⟩
  · next long =>
      rw [← length] at long ⊢
      rw [and_iff_right (Nat.lt_of_not_le long), Except.error.injEq, eq_comm]

/-- **Words are a faithful code.** A name is refused exactly when it is too long, and its
length is told; otherwise its word is the one literal that stands for it.  Two names that do
not end with NUL have different words.  Lengths are counted in bytes. -/
theorem encode_iff (name : String) :
    (∀ e, encode name = .error e ↔ size < name.utf8ByteSize ∧ e = ⟨name, name.utf8ByteSize⟩) ∧
    (∀ literal, encode name = .ok literal ↔ name.utf8ByteSize ≤ size ∧ IsWordOf literal name) ∧
    ∀ other literal, encode name = .ok literal → encode other = .ok literal →
      name.toList.getLast? ≠ some '\x00' → other.toList.getLast? ≠ some '\x00' →
      name = other := by
  refine ⟨fun e => encode_eq_error_iff, fun literal => encode_eq_ok_iff, ?_⟩
  intro other literal first second ends ends'
  obtain ⟨bytes, decoded, same⟩ := (encode_eq_ok_iff.mp first).2.bytes
  obtain ⟨bytes', decoded', same'⟩ := (encode_eq_ok_iff.mp second).2.bytes
  obtain rfl : bytes = bytes' := Option.some.inj (decoded.symm.trans decoded')
  rw [withoutNuls_eq_self ends] at same
  rw [withoutNuls_eq_self ends'] at same'
  exact String.toByteArray_inj.mp (same.symm.trans same')

/-- A name with a letter of two bytes has the word of no other name. -/
theorem encode_iff_umlaut : ∃ literal, encode "Zürich" = .ok literal ∧
    literal = "0x5ac3bc7269636800000000000000000000000000000000000000000000000000" ∧
    ∀ other, encode other = .ok literal → other.toList.getLast? ≠ some '\x00' →
    "Zürich" = other := by
  have word : encode "Zürich"
      = .ok "0x5ac3bc7269636800000000000000000000000000000000000000000000000000" := by
    decide +kernel
  exact ⟨_, word, rfl, fun other same ends =>
    (encode_iff "Zürich").2.2 other _ word same (by decide) ends⟩

end Attestation.Bytes32
