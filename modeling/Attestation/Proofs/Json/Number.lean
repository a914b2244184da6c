import Attestation.Json.Number
import Attestation.Proofs.Text.Pieces
import Mathlib.Tactic.Positivity
import Mathlib.Tactic.Ring

/-!
# Reading numbers back

The text of a number is read as that number (`read_render`), and every number that is read has
one text (`canonical_of_read`).  Digits and exponent may be moved against each other without
changing a decimal (`ofDecimal_mul`), which is why only decimals without trailing zeros are
kept.

* `Number.Canonical`: numbers as a reader makes them.
* `Number.Stops`: text behind a number that does not go on with it.

## Design notes

A decimal is kept as its digits and a power of ten, and so is never rounded.  Its text has one
of several layouts, depending on where the point falls; each layout has a lemma of its own, and
they only share that the text names the decimal (`Names`).  Reading is then one statement for
all of them.
-/

namespace Attestation.Json.Number

open Text

/-- Numbers as a reader makes them: integers of 64 bits, and decimals that are their own
decimal.  Other numbers cannot come out of a text. -/
def Canonical : Number → Prop
  | .integer value => -(2 ^ 63 : Int) ≤ value ∧ value < 2 ^ 64
  | .decimal negative digits exponent =>
      ofDecimal negative digits exponent = some (.decimal negative digits exponent)

/-- The text does not go on with a number that stands in front of it. -/
def Stops (rest : List Char) : Prop :=
  ∀ c ∈ rest.head?, c.isDigit = false ∧ c ≠ '.' ∧ c ≠ 'e' ∧ c ≠ 'E'

/-! ## Decimals -/

theorem length_digitsOf_mul {d : Nat} (hd : d ≠ 0) :
    (digitsOf (10 * d)).length = (digitsOf d).length + 1 := by
  have parts := Nat.toDigits_append_toDigits (b := 10) (n := d) (d := 0) (by decide)
    (Nat.pos_of_ne_zero hd)
    (by decide)
  rw [digitsOf, digitsOf, ← Nat.add_zero (10 * d), ← parts, List.length_append]
  rfl

/-- The decimal is too large to be read.  It is told by whole numbers, multiplied to one
scale. -/
def TooLarge (d : Nat) (e : Int) : Prop :=
  0 ≤ e ∧ d * Nat.pow 10 e.toNat ≥ limit ∨ e < 0 ∧ d ≥ limit * Nat.pow 10 (-e).toNat

instance (d : Nat) (e : Int) : Decidable (TooLarge d e) := inferInstanceAs (Decidable (_ ∨ _))

theorem tooLarge_mul (d : Nat) (e : Int) : TooLarge (10 * d) (e - 1) ↔ TooLarge d e := by
  unfold TooLarge
  generalize limit = l
  rcases Int.lt_trichotomy e 0 with he | rfl | he
  · have power : Nat.pow 10 (-(e - 1)).toNat = 10 * Nat.pow 10 (-e).toNat := by
      have next : (-(e - 1)).toNat = (-e).toNat + 1 := by omega
      rw [next, Nat.pow_eq, Nat.pow_eq, Nat.pow_succ']
    have same : 10 * d ≥ l * Nat.pow 10 (-(e - 1)).toNat ↔ d ≥ l * Nat.pow 10 (-e).toNat := by
      rw [power, Nat.mul_left_comm]
      exact Nat.mul_le_mul_left_iff (by decide)
    omega
  · simp only [Int.zero_sub, Int.reduceNeg, Int.neg_neg, Int.toNat_one,
      Int.toNat_zero, Nat.pow_eq]
    omega
  · have power : Nat.pow 10 e.toNat = 10 * Nat.pow 10 (e - 1).toNat := by
      have next : e.toNat = (e - 1).toNat + 1 := by omega
      rw [next, Nat.pow_eq, Nat.pow_eq, Nat.pow_succ']
    have same : 10 * d * Nat.pow 10 (e - 1).toNat = d * Nat.pow 10 e.toNat := by
      rw [power]
      ring
    rw [same]
    omega

theorem ofDecimal_eq (negative : Bool) {d : Nat} (hd : d ≠ 0) (e : Int) :
    ofDecimal negative d e =
      if (digitsOf d).length + e > 309 then none
      else if (digitsOf d).length + e < -324 then some (.decimal negative 0 0)
      else if TooLarge d e then none
      else some (.decimal negative (dropZeros (digitsOf d).length d e).1
        (dropZeros (digitsOf d).length d e).2) := by
  rw [ofDecimal, if_neg hd]
  unfold TooLarge
  by_cases first : 0 ≤ e ∧ d * Nat.pow 10 e.toNat ≥ limit
  · simp only [first, and_self, if_true, true_or]
  · simp only [first, if_false, false_or]

/-- **A trailing zero does not matter**: it only moves the exponent. -/
theorem ofDecimal_mul (negative : Bool) {d : Nat} (hd : d ≠ 0) (e : Int) :
    ofDecimal negative (10 * d) (e - 1) = ofDecimal negative d e := by
  have hd' : 10 * d ≠ 0 := by omega
  have scale : ((digitsOf (10 * d)).length : Int) + (e - 1) = (digitsOf d).length + e := by
    rw [length_digitsOf_mul hd]
    omega
  have zeros : dropZeros (digitsOf (10 * d)).length (10 * d) (e - 1)
      = dropZeros (digitsOf d).length d e := by
    rw [length_digitsOf_mul hd, dropZeros, if_pos ⟨hd', by omega⟩,
      Nat.mul_div_cancel_left d (by decide),
      Int.sub_add_cancel]
  rw [ofDecimal_eq negative hd', ofDecimal_eq negative hd, scale, zeros]
  simp only [tooLarge_mul]

theorem ofDecimal_mul_pow (negative : Bool) {d : Nat} (hd : d ≠ 0) (e : Int) (k : Nat) :
    ofDecimal negative (d * 10 ^ k) (e - k) = ofDecimal negative d e := by
  induction k with
  | zero => simp
  | succ k ih =>
      have nonzero : d * 10 ^ k ≠ 0 := by positivity
      have digits : d * 10 ^ (k + 1) = 10 * (d * 10 ^ k) := by ring
      have exponent : e - ((k + 1 : Nat) : Int) = e - k - 1 := by push_cast; ring
      rw [digits, exponent, ofDecimal_mul negative nonzero, ih]

/-- Dropping zeros does not change a decimal. -/
theorem ofDecimal_dropZeros (negative : Bool) (fuel : Nat) {d : Nat} (hd : d ≠ 0) (e : Int) :
    ofDecimal negative (dropZeros fuel d e).1 (dropZeros fuel d e).2
      = ofDecimal negative d e := by
  induction fuel generalizing d e with
  | zero => rfl
  | succ fuel ih =>
      rw [dropZeros]
      split
      · next h =>
          have tenth : 10 * (d / 10) = d := by omega
          rw [ih (by omega), ← ofDecimal_mul negative (by omega : d / 10 ≠ 0), tenth,
            Int.add_sub_cancel]
      · rfl

theorem ofDecimal_zero (negative : Bool) (e : Int) :
    ofDecimal negative 0 e = some (.decimal negative 0 0) :=
  if_pos rfl

/-- Every decimal that is made is its own decimal. -/
theorem canonical_of_ofDecimal {negative : Bool} {d : Nat} {e : Int} {n : Number}
    (h : ofDecimal negative d e = some n) : n.Canonical := by
  by_cases hd : d = 0
  · subst hd
    rw [ofDecimal_zero, Option.some.injEq] at h
    subst h
    exact ofDecimal_zero negative 0
  · have made := h
    rw [ofDecimal_eq negative hd] at made
    split at made
    · cases made
    · split at made
      · cases made
        exact ofDecimal_zero negative 0
      · split at made
        · cases made
        · cases made
          rw [Canonical, ofDecimal_dropZeros negative _ hd, h]

theorem canonical_of_ofInteger {negative : Bool} {d : Nat} {n : Number}
    (h : ofInteger negative d = some n) : n.Canonical := by
  have power : (Nat.pow 2 63 = 2 ^ 63) ∧ Nat.pow 2 64 = 2 ^ 64 := ⟨rfl, rfl⟩
  unfold ofInteger at h
  split at h
  · split at h
    · cases h
      exact ofDecimal_zero true 0
    · split at h
      · next hd =>
          cases h
          rw [power.1] at hd
          constructor <;> push_cast <;> omega
      · exact canonical_of_ofDecimal h
  · split at h
    · next hd =>
        cases h
        rw [power.2] at hd
        constructor <;> push_cast <;> omega
    · exact canonical_of_ofDecimal h

/-- **Every number that is read is canonical.** -/
theorem canonical_of_read {cs rest : List Char} {n : Number} (h : read cs = some (n, rest)) :
    n.Canonical := by
  have unsigned : ∀ {negative cs}, readUnsigned negative cs = some (n, rest) →
    n.Canonical := by
    intro negative cs h
    simp only [readUnsigned, Option.bind_eq_bind, Option.bind_eq_some_iff] at h
    obtain ⟨⟨whole, cs⟩, -, ⟨fraction, cs⟩, -, ⟨exponent, cs⟩, -, h⟩ := h
    split at h
    · obtain ⟨m, hm, h⟩ := Option.bind_eq_some_iff.mp h
      cases h
      exact canonical_of_ofInteger hm
    · obtain ⟨m, hm, h⟩ := Option.bind_eq_some_iff.mp h
      cases h
      exact canonical_of_ofDecimal hm
  unfold read at h
  split at h
  · exact unsigned h
  · exact unsigned h

/-! ## Digits -/

theorem isDigit_of_mem_digitsOf {n : Nat} {c : Char} (h : c ∈ digitsOf n) : c.isDigit = true :=
  Nat.isDigit_of_mem_toDigits (by decide) (by decide) h

theorem digitsOf_ne_nil (n : Nat) : digitsOf n ≠ [] := by
  intro h
  have length := Nat.length_toDigits_pos (b := 10) (n := n)
  rw [digitsOf] at h
  simp [h] at length

theorem valueOf_digitsOf (n : Nat) : valueOf (digitsOf n) = n :=
  Nat.ofDigitChars_toDigits (by decide) (by decide)

/-- Zeros in front do not count. -/
theorem valueOf_zeros (k : Nat) (ds : List Char) :
    valueOf (List.replicate k '0' ++ ds) = valueOf ds := by
  induction k with
  | zero => rfl
  | succ k ih => exact ih

/-- Zeros behind count as powers of ten. -/
theorem valueOf_append_zeros (ds : List Char) (k : Nat) :
    valueOf (ds ++ List.replicate k '0') = valueOf ds * 10 ^ k := by
  induction k with
  | zero => simp
  | succ k ih =>
      rw [List.replicate_succ', ← List.append_assoc]
      simp only [valueOf, List.foldl_append, List.foldl_cons, List.foldl_nil] at ih ⊢
      rw [ih]
      simp only [Nat.sub_self, Nat.add_zero]
      ring

theorem valueOf_concat (ds : List Char) (c : Char) :
    valueOf (ds ++ [c]) = 10 * valueOf ds + (c.toNat - '0'.toNat) := by
  simp only [valueOf, List.foldl_append, List.foldl_cons, List.foldl_nil]

theorem valueOf_lt {ds : List Char} (h : ∀ c ∈ ds, c.isDigit = true) :
    valueOf ds < 10 ^ ds.length := by
  induction ds using List.reverseRecOn with
  | nil => exact Nat.one_pos
  | append_singleton ds c ih =>
      have front := ih fun d hd => h d (by simp [hd])
      have digit : c.toNat - '0'.toNat ≤ 9 := by
        have hc := h c (by simp)
        simp only [Char.isDigit, Bool.and_eq_true, decide_eq_true_eq] at hc
        have upper : c.toNat ≤ '9'.toNat := UInt32.le_iff_toNat_le.mp hc.2
        have bounds : '9'.toNat = 57 ∧ '0'.toNat = 48 := by decide
        omega
      rw [valueOf_concat, List.length_append, List.length_singleton, Nat.pow_succ]
      omega

/-- Digits of a whole number: a single zero, or digits that start with none. -/
def IsWhole (ds : List Char) : Prop := ds = ['0'] ∨ ds ≠ [] ∧ (∀ c ∈ ds, c.isDigit = true) ∧
    ds.head? ≠ some '0'

theorem isWhole_digitsOf (n : Nat) : IsWhole (digitsOf n) := by
  by_cases hn : n = 0
  · exact .inl (by rw [hn]; rfl)
  · refine .inr ⟨digitsOf_ne_nil n, fun c => isDigit_of_mem_digitsOf, fun head => ?_⟩
    obtain ⟨more, hmore⟩ := List.head?_eq_some_iff.mp head
    have value : valueOf more = n := by
      rw [← valueOf_digitsOf n, hmore]
      rfl
    have nonempty : 0 < more.length := by
      refine List.length_pos_iff.mpr fun hnil => hn ?_
      rw [← value, hnil]
      rfl
    -- Without the zero in front, the number has fewer digits than it has.
    have small : n < 10 ^ more.length :=
      value ▸ valueOf_lt fun c hc => isDigit_of_mem_digitsOf (n := n) (by simp [hmore, hc])
    have length : (digitsOf n).length ≤ more.length :=
      (Nat.length_toDigits_le_iff (by decide) nonempty).mpr small
    rw [hmore, List.length_cons] at length
    omega

/-! ## The parts of a number -/

section Parts

variable {ds rest : List Char}

theorem readDigits_append (hd : ∀ c ∈ ds, c.isDigit = true) (hne : ds ≠ [])
    (stop : ∀ c ∈ rest.head?, c.isDigit = false) :
    readDigits (ds ++ rest) = some (ds, rest) := by
  rw [readDigits, takeWhile_front hd stop, dropWhile_front hd stop]
  cases ds with
  | nil => exact absurd rfl hne
  | cons c more => rfl

theorem readWhole_append (whole : IsWhole ds) (stop : ∀ c ∈ rest.head?, c.isDigit = false) :
    readWhole (ds ++ rest) = some (ds, rest) := by
  rcases whole with rfl | ⟨hne, hd, head⟩
  · have none_ : rest.head?.any Char.isDigit = false := by
      cases rest with
      | nil => rfl
      | cons c rest => exact stop c rfl
    simp [readWhole, none_]
  · rw [readWhole]
    · exact readDigits_append hd hne stop
    · intro r heq
      cases ds with
      | nil => exact absurd rfl hne
      | cons c more =>
          rw [List.cons_append, List.cons.injEq] at heq
          exact head (by rw [heq.1]; rfl)

theorem readFraction_append (hd : ∀ c ∈ ds, c.isDigit = true) (hne : ds ≠ [])
    (stop : ∀ c ∈ rest.head?, c.isDigit = false) :
    readFraction ('.' :: (ds ++ rest)) = some (some ds, rest) := by
  rw [readFraction, readDigits_append hd hne stop]
  rfl

theorem readFraction_of_stop (stop : ∀ c ∈ rest.head?, c ≠ '.') :
    readFraction rest = some (none, rest) := by
  rw [readFraction]
  intro r heq
  exact stop '.' (by simp [heq]) rfl

theorem readExponent_of_stop (stop : ∀ c ∈ rest.head?, c ≠ 'e' ∧ c ≠ 'E') :
    readExponent rest = some (none, rest) := by
  cases rest with
  | nil => rfl
  | cons c rest =>
      obtain ⟨small, large⟩ := stop c rfl
      simp [readExponent, small, large]

/-- An exponent as it is written. -/
theorem readExponent_append (power : Int) (stop : ∀ c ∈ rest.head?, c.isDigit = false) :
    readExponent ('e' :: ((toString power).toList ++ rest)) = some (some power, rest) := by
  have digits : ∀ n : Nat, readDigits (digitsOf n ++ rest) = some (digitsOf n, rest) :=
    fun n =>
    readDigits_append (fun c => isDigit_of_mem_digitsOf) (digitsOf_ne_nil n) stop
  have text : (toString power).toList
      = if 0 ≤ power then digitsOf power.toNat else '-' :: digitsOf (-power).toNat := by
    rw [show toString power = Int.repr power from rfl, Int.repr_eq_if]
    split <;> simp [Nat.repr_eq_ofList_toDigits, digitsOf]
  rw [text]
  split
  · next h =>
      have value : (power.toNat : Int) = power := by omega
      have unsigned := digits power.toNat
      obtain ⟨c, more, hc⟩ := List.exists_cons_of_ne_nil (digitsOf_ne_nil power.toNat)
      have digit : c.isDigit = true :=
        isDigit_of_mem_digitsOf (n := power.toNat) (by simp [hc])
      have plus : c ≠ '+' := by rintro rfl; exact absurd digit (by decide)
      have minus : c ≠ '-' := by rintro rfl; exact absurd digit (by decide)
      rw [hc, List.cons_append] at unsigned ⊢
      rw [readExponent, if_pos (by decide), unsigned, Option.map_some, ← hc]
      · show some (some (valueOf (digitsOf power.toNat) : Int), rest) = _
        rw [valueOf_digitsOf, value]
      · rintro r ⟨⟩
        exact plus rfl
      · rintro r ⟨⟩
        exact minus rfl
  · next h =>
      have value : -((-power).toNat : Int) = power := by omega
      show (readDigits (digitsOf (-power).toNat ++ rest)).map _ = _
      rw [digits, Option.map_some]
      show some (some (-(valueOf (digitsOf (-power).toNat) : Int)), rest) = _
      rw [valueOf_digitsOf, value]

/-- A number without a sign as it is written: the digits before the point, those behind it and
the power of ten, where the latter two may be missing. -/
def written (whole : List Char) (fraction : Option (List Char)) (power : Option Int) :
    List Char :=
  whole ++ fraction.elim [] ('.' :: ·) ++ power.elim [] fun p => 'e' :: (toString p).toList

/-- The number that is written so. -/
def ofWritten (negative : Bool) (whole : List Char) (fraction : Option (List Char))
    (power : Option Int) :
    Option Number :=
  if fraction = none ∧ power = none then ofInteger negative (valueOf whole)
  else ofDecimal negative (valueOf (whole ++ fraction.getD []))
    (power.getD 0 - (fraction.getD []).length)

theorem readUnsigned_written (negative : Bool) {fraction : Option (List Char)}
    (power : Option Int)
    (whole : IsWhole ds) (behind : ∀ f ∈ fraction, f ≠ [] ∧ ∀ c ∈ f, c.isDigit = true)
    (stop : Stops rest) :
    readUnsigned negative (written ds fraction power ++ rest)
      = (ofWritten negative ds fraction power).map (·, rest) := by
  have last : readExponent (power.elim [] (fun p => 'e' :: (toString p).toList) ++ rest)
      = some (power, rest) := by
    cases power with
    | none => exact readExponent_of_stop fun c hc => ⟨(stop c hc).2.2.1, (stop c hc).2.2.2⟩
    | some p => exact readExponent_append p fun c hc => (stop c hc).1
  have front : ∀ c ∈ (power.elim [] (fun p => 'e' :: (toString p).toList) ++ rest).head?,
      c.isDigit = false ∧ c ≠ '.' := by
    cases power with
    | none => exact fun c hc => ⟨(stop c hc).1, (stop c hc).2.1⟩
    | some p => rintro c ⟨⟩; decide
  rw [readUnsigned, written, List.append_assoc, List.append_assoc]
  generalize power.elim [] (fun p => 'e' :: (toString p).toList) ++ rest = tail at last front ⊢
  cases fraction with
  | none =>
      rw [Option.elim_none, List.nil_append, readWhole_append whole fun c hc => (front c hc).1]
      simp only [Option.bind_eq_bind, Option.bind_some, readFraction_of_stop fun c hc =>
        (front c hc).2, last]
      cases power <;> simp [ofWritten, Option.map_eq_bind]
  | some f =>
      obtain ⟨nonempty, digits⟩ := behind f rfl
      rw [Option.elim_some, List.cons_append, readWhole_append whole (by rintro c ⟨⟩; decide)]
      simp only [Option.bind_eq_bind, Option.bind_some,
        readFraction_append digits nonempty fun c hc => (front c hc).1, last]
      simp [ofWritten, Option.map_eq_bind]

end Parts

/-! ## Reading back -/

theorem head_digitsOf {d : Nat} (hd : d ≠ 0) : (digitsOf d).head? ≠ some '0' := by
  rcases isWhole_digitsOf d with zero | ⟨-, -, head⟩
  · refine absurd ?_ hd
    rw [← valueOf_digitsOf d, zero]
    rfl
  · exact head

/-- A text that names a decimal: digits with a point among them, or a power of ten behind them,
or both. -/
def Names (negative : Bool) (d : Nat) (e : Int) (cs : List Char) : Prop :=
  ∃ whole fraction power, cs = written whole fraction power ∧ IsWhole whole ∧
    (∀ f ∈ fraction, f ≠ [] ∧ ∀ c ∈ f, c.isDigit = true) ∧
    ofWritten negative whole fraction power = ofDecimal negative d e

/-- The digits of a number that is not zero. -/
structure Spells (ds : List Char) (d : Nat) : Prop where
  nonempty : ds ≠ []
  digits : ∀ c ∈ ds, c.isDigit = true
  head : ds.head? ≠ some '0'
  value : valueOf ds = d

theorem spells_digitsOf {d : Nat} (hd : d ≠ 0) : Spells (digitsOf d) d :=
  ⟨digitsOf_ne_nil d, fun _ => isDigit_of_mem_digitsOf, head_digitsOf hd, valueOf_digitsOf d⟩

theorem isDigit_of_mem_zeros (k : Nat) : ∀ c ∈ List.replicate k '0', c.isDigit = true := by
  intro c hc
  rw [List.eq_of_mem_replicate hc]
  rfl

section Layouts

variable (negative : Bool) {ds : List Char} {d : Nat} {e : Int}

theorem names_zero : Names negative 0 e ['0', '.', '0'] := by
  refine ⟨['0'], some ['0'], none, rfl, .inl rfl, ?_, ?_⟩
  · rintro f ⟨⟩
    exact ⟨by simp, isDigit_of_mem_zeros 1⟩
  · rw [ofDecimal_zero]
    exact ofDecimal_zero negative (0 - 1)

variable (spells : Spells ds d)
include spells

/-- Zeros behind the digits. -/
theorem Spells.names_zeros_behind (hd : d ≠ 0) (he : 0 ≤ e) :
    Names negative d e (ds ++ List.replicate e.toNat '0' ++ ['.', '0']) := by
  refine ⟨ds ++ List.replicate e.toNat '0', some ['0'], none, by simp [written],
    .inr ⟨by simp [spells.nonempty], ?_, ?_⟩, ?_, ?_⟩
  · exact List.forall_mem_append.mpr ⟨spells.digits, isDigit_of_mem_zeros _⟩
  · rw [List.head?_append_of_ne_nil _ spells.nonempty]
    exact spells.head
  · rintro f ⟨⟩
    exact ⟨by simp, isDigit_of_mem_zeros 1⟩
  · have more : ds ++ List.replicate e.toNat '0' ++ ['0']
        = ds ++ List.replicate (e.toNat + 1) '0' := by
      rw [List.replicate_succ', List.append_assoc]
    have exponent : (0 : Int) - (1 : Nat) = e - ((e.toNat + 1 : Nat) : Int) := by omega
    rw [ofWritten, if_neg (by simp), Option.getD_some, Option.getD_none, more,
      valueOf_append_zeros, spells.value,
      List.length_singleton, exponent, ofDecimal_mul_pow negative hd]

/-- The point among the digits. -/
theorem Spells.names_point_inside {scale : Nat} (size : (scale : Int) = ds.length + e)
    (positive : 0 < scale)
    (short : scale < ds.length) :
    Names negative d e (ds.take scale ++ '.' :: ds.drop scale) := by
  refine ⟨ds.take scale, some (ds.drop scale),
    none, by simp [written], .inr ⟨?_, ?_, ?_⟩, ?_, ?_⟩
  · rw [Ne, List.take_eq_nil_iff]
    rintro (h | h)
    · omega
    · exact spells.nonempty h
  · exact fun c hc => spells.digits c (List.mem_of_mem_take hc)
  · rw [List.head?_take, if_neg (by omega)]
    exact spells.head
  · rintro f ⟨⟩
    refine ⟨?_, fun c hc => spells.digits c (List.mem_of_mem_drop hc)⟩
    rw [Ne, List.drop_eq_nil_iff]
    omega
  · have exponent : (0 : Int) - ((ds.length - scale : Nat) : Int) = e := by omega
    rw [ofWritten, if_neg (by simp), Option.getD_some, Option.getD_none, List.take_append_drop,
      spells.value,
      List.length_drop, exponent]

/-- The point, and zeros behind it, in front of the digits. -/
theorem Spells.names_point_in_front {k : Nat} (size : (k : Int) = -(ds.length + e)) :
    Names negative d e ('0' :: '.' :: (List.replicate k '0' ++ ds)) := by
  refine ⟨['0'], some (List.replicate k '0' ++ ds), none, by simp [written], .inl rfl, ?_, ?_⟩
  · rintro f ⟨⟩
    exact ⟨by simp [spells.nonempty], List.forall_mem_append.mpr ⟨isDigit_of_mem_zeros _,
      spells.digits⟩⟩
  · have exponent : (0 : Int) - ((k + ds.length : Nat) : Int) = e := by omega
    rw [ofWritten, if_neg (by simp), Option.getD_some, Option.getD_none, List.length_append,
      List.length_replicate, exponent]
    have behind := valueOf_zeros (k + 1) ds
    rw [List.replicate_succ, List.cons_append, spells.value] at behind
    rw [List.singleton_append, behind]

/-- A power of ten behind the digits, and the point behind the first of them. -/
theorem Spells.exists_names_power : ∃ c more, ds = c :: more ∧
    Names negative d e (written [c] (if more = [] then none else some more)
      (some (ds.length + e - 1))) := by
  obtain ⟨c, more, rfl⟩ := List.exists_cons_of_ne_nil spells.nonempty
  refine ⟨c, more, rfl, [c], _, _, rfl, .inr ⟨by simp, ?_, spells.head⟩, ?_, ?_⟩
  · exact List.forall_mem_singleton.mpr (spells.digits c List.mem_cons_self)
  · intro f hf
    split at hf
    · cases hf
    next hne =>
      cases hf
      exact ⟨hne, fun x hx => spells.digits x (List.mem_cons_of_mem _ hx)⟩
  · have all : [c] ++ (if more = [] then none else some more).getD [] = c :: more ∧
        ((if more = [] then none else some more).getD []).length = more.length := by
      split
      next h =>
        subst h
        exact ⟨rfl, rfl⟩
      next => exact ⟨rfl, rfl⟩
    have exponent : ((c :: more).length + e - 1 : Int) - more.length = e := by
      rw [List.length_cons]
      push_cast
      ring
    rw [ofWritten, if_neg (by simp), all.1, all.2, Option.getD_some, spells.value, exponent]

end Layouts

/-- The digits of a decimal are written so that they name it. -/
theorem names_renderDigits (negative : Bool) (d : Nat) (e : Int) :
    Names negative d e (renderDigits d e) := by
  by_cases hd : d = 0
  · subst hd
    exact names_zero negative
  · have spells := spells_digitsOf hd
    rw [renderDigits, if_neg hd]
    generalize digitsOf d = ds at spells
    have length : 0 < ds.length := List.length_pos_iff.mpr spells.nonempty
    dsimp only
    split_ifs with behind inside front
    · exact spells.names_zeros_behind negative hd behind.1
    · exact spells.names_point_inside negative (by omega) (by omega) (by omega)
    · exact spells.names_point_in_front negative (by omega)
    · obtain ⟨c, more, rfl, names⟩ := spells.exists_names_power negative (e := e)
      cases more with
      | nil => simpa [written] using names
      | cons d' more => simpa [written] using names

/-- **The text of a number is read as that number.** -/
theorem read_render {n : Number} (canonical : n.Canonical) {rest : List Char}
    (stop : Stops rest) :
    read (n.render.toList ++ rest) = some (n, rest) := by
  -- A sign is the only thing that makes a difference between the two ways to read.
  have unsigned : ∀ {whole fraction power}, IsWhole whole →
      read (written whole fraction power ++ rest)
        = readUnsigned false (written whole fraction power ++ rest) := by
    intro whole fraction power h
    obtain ⟨c, more, hc, digit⟩ : ∃ c more, whole = c :: more ∧ c.isDigit = true := by
      rcases h with rfl | ⟨hne, digits, -⟩
      · exact ⟨'0', [], rfl, rfl⟩
      · obtain ⟨c, more, rfl⟩ := List.exists_cons_of_ne_nil hne
        exact ⟨c, more, rfl, digits c (by simp)⟩
    rw [read]
    intro r heq
    rw [written, hc, List.cons_append, List.cons_append, List.cons_append,
      List.cons.injEq] at heq
    rw [heq.1] at digit
    exact absurd digit (by decide)
  have minus : ∀ cs, read ('-' :: cs) = readUnsigned true cs := fun _ => rfl
  cases n with
  | integer value =>
      have plain : ∀ k : Nat, digitsOf k = written (digitsOf k) none none := fun k => by
        simp [written]
      obtain ⟨low, high⟩ := canonical
      have power : (Nat.pow 2 63 = 2 ^ 63) ∧ Nat.pow 2 64 = 2 ^ 64 := ⟨rfl, rfl⟩
      rw [render, show toString value = Int.repr value from rfl, Int.repr_eq_if]
      split
      · next h =>
          rw [Nat.repr_eq_ofList_toDigits, String.toList_ofList, ← digitsOf, plain,
            unsigned (isWhole_digitsOf _),
            readUnsigned_written false none (isWhole_digitsOf _) (by simp) stop, ofWritten,
            if_pos ⟨rfl, rfl⟩, valueOf_digitsOf, ofInteger, if_neg (by simp), power.2,
            if_pos (by omega),
            Option.map_some, Int.toNat_of_nonneg h]
      · next h =>
          rw [String.toList_append, show "-".toList = ['-'] from rfl,
            Nat.repr_eq_ofList_toDigits,
            String.toList_ofList, ← digitsOf, plain, List.singleton_append, List.cons_append,
            minus,
            readUnsigned_written true none (isWhole_digitsOf _) (by simp) stop, ofWritten,
            if_pos ⟨rfl, rfl⟩, valueOf_digitsOf, ofInteger, if_pos rfl, if_neg (by omega),
            power.1,
            if_pos (by omega), Option.map_some]
          congr 3
          omega
  | decimal negative d e =>
      obtain ⟨whole, fraction, power, text, hwhole, behind, value⟩ :=
        names_renderDigits negative d e
      have made := readUnsigned_written negative power hwhole behind stop
      rw [value, canonical, Option.map_some] at made
      rw [render, String.toList_ofList, text]
      cases negative with
      | true =>
          rw [if_pos rfl, List.singleton_append, List.cons_append, minus]
          exact made
      | false =>
          rw [if_neg Bool.false_ne_true, List.nil_append]
          exact (unsigned hwhole).trans made

/-- A number starts with its sign or with a digit. -/
theorem head_of_read {cs rest : List Char} {n : Number} (h : read cs = some (n, rest)) :
    ∃ c more, cs = c :: more ∧ (c = '-' ∨ c.isDigit = true) := by
  unfold read at h
  split at h
  · next more => exact ⟨'-', more, rfl, .inl rfl⟩
  · simp only [readUnsigned, Option.bind_eq_bind, Option.bind_eq_some_iff] at h
    obtain ⟨⟨whole, behind⟩, found, -⟩ := h
    unfold readWhole at found
    split at found
    · exact ⟨'0', _, rfl, .inr rfl⟩
    · unfold readDigits at found
      cases cs with
      | nil => cases found
      | cons c more =>
          refine ⟨c, more, rfl, .inr ?_⟩
          by_contra other
          simp [other] at found

end Attestation.Json.Number
