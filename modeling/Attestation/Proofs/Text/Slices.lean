import Attestation.Text.Extent
import Mathlib.Data.List.Infix

/-!
# Slices of a text

A slice is taken between two positions that count bytes.  It only is one if the text can be cut
at both of them (`slice?`), which shows in the bytes: a character starts at the position, or
the text ends there (`isCut_iff`).

* `Text.IsBoundary`: positions between two characters.
* `Text.slice?`: the part of a text between two positions.
* `Text.floorBoundary`: the last position up to a limit at which a text can be cut.

## Design notes

A slice that cuts a character is a crash of the program and no wrong result, so slices are
partial, and each use has to show that both ends are boundaries.  Positions come from sizes of
fronts of the text, which makes this a matter of splitting the text and not of counting.
-/

namespace Attestation.Text

/-- A position between two characters of the text, counted in bytes.  Cutting a text anywhere
else would fail. -/
def IsBoundary (cs : List Char) (position : Nat) : Prop :=
  ∃ front behind, cs = front ++ behind ∧ utf8Size front = position

/-! ## Positions in the bytes -/

/-- Whether a character starts at the position, or the text ends there. -/
def isCut (bytes : List UInt8) (position : Nat) : Bool :=
  position = bytes.length || bytes[position]?.any fun b => b.IsUTF8FirstByte

section Bytes

variable {cs front behind : List Char} {c : Char} {n : Nat}

theorem utf8Bytes_cons (c : Char) (cs : List Char) :
    utf8Bytes (c :: cs) = String.utf8EncodeChar c ++ utf8Bytes cs := List.flatMap_cons

theorem utf8Bytes_append (front behind : List Char) :
    utf8Bytes (front ++ behind) = utf8Bytes front ++ utf8Bytes behind := List.flatMap_append

theorem isBoundary_cons_iff : IsBoundary (c :: cs) n ↔
    n = 0 ∨ c.utf8Size ≤ n ∧ IsBoundary cs (n - c.utf8Size) := by
  constructor
  · rintro ⟨front, behind, text, size⟩
    cases front with
    | nil => exact .inl size.symm
    | cons d front =>
        obtain ⟨rfl, rfl⟩ := List.cons.inj text
        rw [utf8Size_cons] at size
        exact .inr ⟨by omega, front, behind, rfl, by omega⟩
  · rintro (rfl | ⟨fits, front, behind, rfl, size⟩)
    · exact ⟨[], c :: cs, rfl, rfl⟩
    · refine ⟨c :: front, behind, rfl, ?_⟩
      rw [utf8Size_cons]
      omega

/-- Of the bytes of a character, only the first one starts it. -/
theorem isCut_cons_iff {bytes : List UInt8} :
    isCut (String.utf8EncodeChar c ++ bytes) n = true ↔
      n = 0 ∨ c.utf8Size ≤ n ∧ isCut bytes (n - c.utf8Size) = true := by
  have size : (String.utf8EncodeChar c).length = c.utf8Size := String.length_utf8EncodeChar c
  have positive := c.utf8Size_pos
  rw [isCut, isCut, List.length_append, size]
  by_cases inside : n < c.utf8Size
  · have bound : n < (String.utf8EncodeChar c).length := by rwa [size]
    have byte : (String.utf8EncodeChar c ++ bytes)[n]?
        = some (String.utf8EncodeChar c)[n] := by
      rw [List.getElem?_append_left bound, List.getElem?_eq_getElem]
    have first : (String.utf8EncodeChar c)[n].IsUTF8FirstByte ↔ n = 0 :=
      UInt8.isUTF8FirstByte_getElem_utf8EncodeChar
    rw [byte, Option.any_some]
    simp only [Bool.or_eq_true, decide_eq_true_eq, first]
    omega
  · have byte : (String.utf8EncodeChar c ++ bytes)[n]? = bytes[n - c.utf8Size]? := by
      rw [List.getElem?_append_right (by omega), size]
    have ends : n = c.utf8Size + bytes.length ↔ n - c.utf8Size = bytes.length := by omega
    rw [byte]
    simp only [Bool.or_eq_true, decide_eq_true_eq, ends]
    constructor
    · exact fun h => .inr ⟨by omega, h⟩
    · rintro (zero | ⟨-, h⟩)
      · omega
      · exact h

/-- **The bytes tell where a text can be cut.** -/
theorem isCut_iff : isCut (utf8Bytes cs) n = true ↔ IsBoundary cs n := by
  induction cs generalizing n with
  | nil => simp [isCut, utf8Bytes, IsBoundary, eq_comm]
  | cons c cs ih => rw [utf8Bytes_cons, isCut_cons_iff, ih, isBoundary_cons_iff]

end Bytes

/-! ## Fronts of a limited size -/

section CutAt

variable {cs front behind : List Char} {n m : Nat}

theorem prefix_cutAt (n : Nat) (cs : List Char) : (cutAt n cs).1 <+: cs :=
  ⟨_, cutAt_append n cs⟩

/-- The front is the longest one that keeps to the limit. -/
theorem prefix_cutAt_of_le (h : front <+: cs) (fits : utf8Size front ≤ n) :
    front <+: (cutAt n cs).1 := by
  induction front generalizing cs n with
  | nil => exact List.nil_prefix
  | cons c front ih =>
      obtain ⟨behind, rfl⟩ := h
      rw [utf8Size_cons] at fits
      rw [List.cons_append, cutAt, if_pos (by omega)]
      exact List.cons_prefix_cons.mpr ⟨rfl, ih (List.prefix_append _ _) (by omega)⟩

/-- Two fronts of a text are compared by their sizes. -/
theorem prefix_of_utf8Size_le (hf : front <+: cs) (hb : behind <+: cs)
    (h : utf8Size front ≤ utf8Size behind) :
    front <+: behind := by
  rcases List.prefix_or_prefix_of_prefix hf hb with shorter | ⟨rest, rfl⟩
  · exact shorter
  · cases rest with
    | nil => rw [List.append_nil]
    | cons c rest =>
        have positive := c.utf8Size_pos
        rw [utf8Size_append, utf8Size_cons] at h
        omega

/-- At a boundary nothing is moved. -/
theorem cutAt_utf8Size (front behind : List Char) :
    cutAt (utf8Size front) (front ++ behind) = (front, behind) := by
  have within := prefix_cutAt_of_le (List.prefix_append front behind) (Nat.le_refl _)
  have same : (cutAt (utf8Size front) (front ++ behind)).1 = front := by
    refine ((prefix_of_utf8Size_le (prefix_cutAt _ _) (List.prefix_append front behind)
      ?_).eq_of_length_le ?_)
    · exact utf8Size_cutAt_le _ _
    · exact within.length_le
  refine Prod.ext same ?_
  have whole := cutAt_append (utf8Size front) (front ++ behind)
  rw [same] at whole
  exact List.append_cancel_left whole

/-- Less than a character is lost. -/
theorem lt_utf8Size_cutAt (h : (cutAt n cs).1 ≠ cs) : n < utf8Size (cutAt n cs).1 + 4 := by
  have whole := cutAt_append n cs
  cases rest : (cutAt n cs).2 with
  | nil =>
      rw [rest, List.append_nil] at whole
      exact absurd whole h
  | cons c r =>
      rw [rest] at whole
      by_contra large
      have small := c.utf8Size_le_four
      -- The next character would have kept to the limit as well.
      have longer : (cutAt n cs).1 ++ [c] <+: (cutAt n cs).1 := by
        refine prefix_cutAt_of_le ⟨r, by rw [List.append_assoc, List.singleton_append, whole]⟩
          ?_
        rw [utf8Size_append, utf8Size_cons, utf8Size_nil]
        omega
      have length := longer.length_le
      rw [List.length_append, List.length_singleton] at length
      omega

theorem cutAt_mono (h : n ≤ m) (cs : List Char) : (cutAt n cs).1 <+: (cutAt m cs).1 :=
  prefix_cutAt_of_le (prefix_cutAt n cs) ((utf8Size_cutAt_le n cs).trans h)

/-- Limits between which no boundary lies are the same. -/
theorem cutAt_eq_of_le (h : n ≤ m) (fits : utf8Size (cutAt m cs).1 ≤ n) :
    (cutAt m cs).1 = (cutAt n cs).1 :=
  (prefix_cutAt_of_le (prefix_cutAt m cs) fits).eq_of_length_le (cutAt_mono h cs).length_le

end CutAt

/-! ## Moving a position down to a boundary -/

/-- The last position not behind the given one at which a character starts or the text ends. -/
def floorFrom (bytes : List UInt8) : Nat → Nat
  | 0 => 0
  | n + 1 => if isCut bytes (n + 1) then n + 1 else floorFrom bytes n

/-- The last position up to a limit at which the text can be cut. -/
def floorBoundary (bytes : List UInt8) (limit : Nat) : Nat :=
  floorFrom bytes (min limit bytes.length)

theorem floorFrom_eq (cs : List Char) (n : Nat) :
    floorFrom (utf8Bytes cs) n = utf8Size (cutAt n cs).1 := by
  induction n with
  | zero =>
      have zero := utf8Size_cutAt_le 0 cs
      rw [floorFrom]
      omega
  | succ n ih =>
      rw [floorFrom]
      split
      · next cut =>
          obtain ⟨front, behind, rfl, size⟩ := isCut_iff.mp cut
          rw [← size, cutAt_utf8Size]
      · next cut =>
          have limit := utf8Size_cutAt_le (n + 1) cs
          have other : utf8Size (cutAt (n + 1) cs).1 ≠ n + 1 := fun size =>
            cut (isCut_iff.mpr ⟨_, _, (cutAt_append (n + 1) cs).symm, size⟩)
          have same : (cutAt (n + 1) cs).1 = (cutAt n cs).1 :=
            cutAt_eq_of_le (Nat.le_succ n) (by omega)
          rw [ih, same]

/-- **Going down to a boundary** is cutting off the longest front that keeps to the limit. -/
theorem floorBoundary_eq (cs : List Char) (limit : Nat) :
    floorBoundary (utf8Bytes cs) limit = utf8Size (cutAt limit cs).1 := by
  have fits : utf8Size (cutAt limit cs).1 ≤ min limit (utf8Size cs) := by
    refine le_min (utf8Size_cutAt_le limit cs) ?_
    conv_rhs => rw [← cutAt_append limit cs, utf8Size_append]
    exact Nat.le_add_right _ _
  rw [floorBoundary, length_utf8Bytes, floorFrom_eq, cutAt_eq_of_le (min_le_left _ _) fits]

/-! ## Slices -/

/-- The part of a text between two positions.  There is none if the text cannot be cut at one
of them, or if the second one comes first. -/
def slice? (cs : List Char) (start stop : Nat) : Option (List Char) :=
  if start ≤ stop && isCut (utf8Bytes cs) start && isCut (utf8Bytes cs) stop then
    some ((cutAt stop cs).1.drop (cutAt start cs).1.length)
  else none

theorem slice?_append (front part behind : List Char) :
    slice? (front ++ part ++ behind) (utf8Size front) (utf8Size (front ++ part))
      = some part := by
  have start : isCut (utf8Bytes (front ++ part ++ behind)) (utf8Size front) = true :=
    isCut_iff.mpr ⟨front, part ++ behind, List.append_assoc _ _ _, rfl⟩
  have stop : isCut (utf8Bytes (front ++ part ++ behind)) (utf8Size (front ++ part)) = true :=
    isCut_iff.mpr ⟨front ++ part, behind, rfl, rfl⟩
  have order : utf8Size front ≤ utf8Size (front ++ part) := by
    rw [utf8Size_append]
    exact Nat.le_add_right _ _
  have before : cutAt (utf8Size front) (front ++ part ++ behind)
      = (front, part ++ behind) := by
    rw [List.append_assoc, cutAt_utf8Size]
  rw [slice?, start, stop, decide_eq_true order, Bool.and_self, Bool.and_self, if_pos rfl,
    cutAt_utf8Size, before,
    List.drop_left]

/-- **There is a slice** exactly between two positions at which the text can be cut, in their
order. -/
theorem isSome_slice?_iff {cs : List Char} {start stop : Nat} :
    (slice? cs start stop).isSome = true ↔
    start ≤ stop ∧ IsBoundary cs start ∧ IsBoundary cs stop := by
  rw [slice?, ← isCut_iff, ← isCut_iff, Option.isSome_ite]
  simp [and_assoc]

end Attestation.Text
