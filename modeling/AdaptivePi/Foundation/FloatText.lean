import AdaptivePi.Foundation.Decimal
import Mathlib.Data.Int.Log
import Mathlib.Data.List.DropRight
import Mathlib.Data.Rat.Floor
import Mathlib.Tactic.Linarith
import Mathlib.Algebra.Order.Field.Power
import Mathlib.Tactic.Positivity

/-!
Binary floating-point values and their text in the general format of the C
library: the exact value is rounded to a fixed number of significant digits,
ties to even, and written in fixed or scientific notation, whichever the
decimal exponent selects, without trailing zeros. The text never depends on a
locale. Its length is bounded by the precision, since the exponent of every
finite value of the format is small.
-/

namespace AdaptivePi.Foundation

/-- An interchange format given by the widths of its two lower fields. -/
structure FloatFormat where
  exponentBits : Nat
  fractionBits : Nat
  deriving DecidableEq

namespace FloatFormat

def binary32 : FloatFormat := ⟨8, 23⟩

def binary64 : FloatFormat := ⟨11, 52⟩

def width (format : FloatFormat) : Nat := 1 + format.exponentBits + format.fractionBits

variable (format : FloatFormat) (bits : BitVec format.width)

def signBit : Bool := bits.toNat / 2 ^ (format.exponentBits + format.fractionBits) % 2 = 1

def exponentField : Nat := bits.toNat / 2 ^ format.fractionBits % 2 ^ format.exponentBits

def fractionField : Nat := bits.toNat % 2 ^ format.fractionBits

def isFinite : Bool := format.exponentField bits ≠ 2 ^ format.exponentBits - 1

def isNaN : Bool := !format.isFinite bits && format.fractionField bits ≠ 0

def isInfinite : Bool := !format.isFinite bits && format.fractionField bits = 0

def minExponent : Int :=
  2 - 2 ^ (format.exponentBits - 1) - format.fractionBits

def magnitude : ℚ :=
  if format.exponentField bits = 0 then
    format.fractionField bits * 2 ^ format.minExponent
  else
    (2 ^ format.fractionBits + format.fractionField bits : Nat) *
      2 ^ (format.minExponent + (format.exponentField bits - 1 : Nat))

end FloatFormat

/-- Round a nonnegative number to the nearest natural number, ties to even. -/
def roundHalfEven (v : ℚ) : Nat :=
  let low := ⌊v⌋.toNat
  if v - low < 1 / 2 then low
  else if 1 / 2 < v - low then low + 1
  else if low % 2 = 0 then low else low + 1

/-- The value of the format that is nearest to a nonnegative number, ties to even, if
the number is not too large. -/
def FloatFormat.nearest (format : FloatFormat) (v : ℚ) : ℚ :=
  let exponent := max (Int.log 2 v - format.fractionBits) format.minExponent
  roundHalfEven (v / 2 ^ exponent) * 2 ^ exponent

/-- The first `precision` significant digits of a positive number as one
integer, and the decimal exponent of the first digit. Rounding up to a power
of ten moves the exponent. -/
def significantDigits (precision : Nat) (v : ℚ) : Nat × Int :=
  let exponent := Int.log 10 v
  let digits := roundHalfEven (v * 10 ^ ((precision : Int) - 1 - exponent))
  if digits < 10 ^ precision then (digits, exponent)
  else (10 ^ (precision - 1), exponent + 1)

def stripZeros (digits : Bytes) : Bytes := digits.rdropWhile (· == 48)

/-- A decimal point only before a fraction that is left. -/
def withFraction (whole fraction : Bytes) : Bytes :=
  if fraction = [] then whole else whole ++ 46 :: fraction

def exponentText (exponent : Int) : Bytes :=
  101 :: (if exponent < 0 then 45 else 43) :: padded 2 exponent.natAbs

/-- The general format of a nonnegative number: scientific notation for
exponents below -4 or not below the precision, fixed notation otherwise. -/
def generalText (precision : Nat) (v : ℚ) : Bytes :=
  if v = 0 then ascii "0"
  else
    let (number, exponent) := significantDigits precision v
    let digits := padded precision number
    if exponent < -4 ∨ (precision : Int) ≤ exponent then
      withFraction (digits.take 1) (stripZeros (digits.drop 1)) ++ exponentText exponent
    else if exponent < 0 then
      withFraction (ascii "0")
        (stripZeros (List.replicate (-exponent - 1).toNat 48 ++ digits))
    else
      withFraction (digits.take (exponent + 1).toNat)
        (stripZeros (digits.drop (exponent + 1).toNat))

/-- The general format of a finite value, with the sign of zero kept. -/
def FloatFormat.generalText (format : FloatFormat) (precision : Nat)
    (bits : BitVec format.width) : Bytes :=
  (if format.signBit bits then ascii "-" else []) ++
    Foundation.generalText precision (format.magnitude bits)

theorem stripZeros_length_le (digits : Bytes) :
    (stripZeros digits).length ≤ digits.length :=
  (List.rdropWhile_prefix (· == 48) digits).length_le

theorem withFraction_length_le (whole fraction : Bytes) :
    (withFraction whole fraction).length ≤ whole.length + 1 + fraction.length := by
  unfold withFraction
  split_ifs
  · omega
  · simp only [List.length_append, List.length_cons]
    omega

theorem withFraction_ne_nil {whole : Bytes} (hwhole : whole ≠ []) (fraction : Bytes) :
    withFraction whole fraction ≠ [] := by
  unfold withFraction
  split_ifs
  · exact hwhole
  · simp

/-- Rounding does not give one digit more. -/
theorem significantDigits_lt (precision : Nat) (v : ℚ) (hprecision : 0 < precision) :
    (significantDigits precision v).1 < 10 ^ precision := by
  simp only [significantDigits]
  split_ifs with h
  · exact h
  · exact Nat.pow_lt_pow_right (by omega) (by omega)

private theorem significantDigits_length (precision : Nat) (v : ℚ)
    (hprecision : 0 < precision) :
    (padded precision (significantDigits precision v).1).length = precision :=
  padded_length hprecision (significantDigits_lt precision v hprecision)

private theorem padded_length_le {width n bound : Nat} (hwidth : width ≤ bound)
    (hbound : 0 < bound) (hn : n < 10 ^ bound) : (padded width n).length ≤ bound := by
  have hlen := (decimal_length_le_iff hbound).mpr hn
  simp only [padded, List.length_append, List.length_replicate]
  omega

theorem exponentText_length_le (exponent : Int) (width : Nat) (hwidth : 2 ≤ width)
    (hexponent : exponent.natAbs < 10 ^ width) :
    (exponentText exponent).length ≤ width + 2 := by
  have hlen := padded_length_le hwidth (by omega) hexponent
  simp only [exponentText, List.length_cons]
  omega

/-- The text needs the significant digits, and room for either three leading
zeros or an exponent. -/
theorem generalText_length_le (precision : Nat) (v : ℚ) (width : Nat)
    (hprecision : 0 < precision) (hwidth : 2 ≤ width)
    (hexponent : (significantDigits precision v).2.natAbs < 10 ^ width) :
    (generalText precision v).length ≤ precision + width + 3 := by
  have hdigits := significantDigits_length precision v hprecision
  unfold generalText
  by_cases hzero : v = 0
  · simp only [hzero, if_true]
    have hlen : (ascii "0").length = 1 := by decide
    omega
  · simp only [hzero, if_false]
    generalize (significantDigits precision v).2 = exponent at *
    generalize padded precision (significantDigits precision v).1 = digits at *
    split_ifs with hscientific hnegative
    · have hfraction := withFraction_length_le (digits.take 1) (stripZeros (digits.drop 1))
      have hstrip := stripZeros_length_le (digits.drop 1)
      have htail := exponentText_length_le exponent width hwidth hexponent
      simp only [List.length_append, List.length_take, List.length_drop] at *
      omega
    · have hfraction := withFraction_length_le (ascii "0")
        (stripZeros (List.replicate (-exponent - 1).toNat 48 ++ digits))
      have hstrip := stripZeros_length_le
        (List.replicate (-exponent - 1).toNat 48 ++ digits)
      have hlen : (ascii "0").length = 1 := by decide
      simp only [List.length_append, List.length_replicate] at *
      omega
    · have hfraction := withFraction_length_le (digits.take (exponent + 1).toNat)
        (stripZeros (digits.drop (exponent + 1).toNat))
      have hstrip := stripZeros_length_le (digits.drop (exponent + 1).toNat)
      simp only [List.length_take, List.length_drop] at *
      omega

theorem generalText_ne_nil (precision : Nat) (v : ℚ) (hprecision : 0 < precision) :
    generalText precision v ≠ [] := by
  have hdigits := significantDigits_length precision v hprecision
  unfold generalText
  by_cases hzero : v = 0
  · simp only [hzero, if_true]
    decide
  · simp only [hzero, if_false]
    generalize (significantDigits precision v).2 = exponent at *
    generalize padded precision (significantDigits precision v).1 = digits at *
    have hne : digits ≠ [] := by
      rintro rfl
      simp only [List.length_nil] at hdigits
      omega
    split_ifs with hscientific hnegative
    · simp [exponentText]
    · exact withFraction_ne_nil (by decide) _
    · apply withFraction_ne_nil
      simp only [ne_eq, List.take_eq_nil_iff, hne, or_false]
      omega

/-- The decimal exponent of a number between `10 ^ -bound` and `10 ^ bound`. -/
theorem significantDigits_exponent (precision bound : Nat) (v : ℚ) (hpositive : 0 < v)
    (hlower : (10 : ℚ) ^ (-(bound : Int)) ≤ v) (hupper : v < (10 : ℚ) ^ (bound : Int)) :
    (significantDigits precision v).2.natAbs ≤ bound := by
  have hlog : -(bound : Int) ≤ Int.log 10 v :=
    (Int.zpow_le_iff_le_log (by omega) hpositive).mp (by exact_mod_cast hlower)
  have hlog' : Int.log 10 v < bound :=
    (Int.lt_zpow_iff_log_lt (by omega) hpositive).mp (by exact_mod_cast hupper)
  simp only [significantDigits]
  split_ifs <;> omega

namespace FloatFormat

variable (format : FloatFormat) (bits : BitVec format.width)

/-- The magnitude of a finite value is a natural number below
`2 ^ (fractionBits + 1)` times a power of two. -/
theorem magnitude_scaled :
    ∃ (mantissa : Nat) (shift : Nat),
      format.magnitude bits = mantissa * 2 ^ (format.minExponent + shift) ∧
      mantissa < 2 ^ (format.fractionBits + 1) ∧ shift < 2 ^ format.exponentBits := by
  have hfraction : format.fractionField bits < 2 ^ format.fractionBits :=
    Nat.mod_lt _ (by positivity)
  have hexponent : format.exponentField bits < 2 ^ format.exponentBits :=
    Nat.mod_lt _ (by positivity)
  have hpow : 2 ^ (format.fractionBits + 1) = 2 ^ format.fractionBits * 2 := pow_succ _ _
  unfold magnitude
  split_ifs with hzero
  · exact ⟨format.fractionField bits, 0, by simp, by omega, by positivity⟩
  · exact ⟨2 ^ format.fractionBits + format.fractionField bits,
      format.exponentField bits - 1, rfl, by omega, by omega⟩

theorem magnitude_nonneg : 0 ≤ format.magnitude bits := by
  obtain ⟨mantissa, shift, heq, -, -⟩ := format.magnitude_scaled bits
  rw [heq]
  positivity

/-- A finite value is not farther from one than its exponents allow. -/
theorem magnitude_bounds (bound : Nat) (hzero : format.magnitude bits ≠ 0)
    (hlower : -(bound : Int) ≤ format.minExponent)
    (hupper : format.fractionBits + 1 + format.minExponent + 2 ^ format.exponentBits ≤ bound) :
    (10 : ℚ) ^ (-(bound : Int)) ≤ format.magnitude bits ∧
      format.magnitude bits < (10 : ℚ) ^ (bound : Int) := by
  obtain ⟨mantissa, shift, heq, hmantissa, hshift⟩ := format.magnitude_scaled bits
  have hpos : 1 ≤ mantissa := by
    rcases Nat.eq_zero_or_pos mantissa with rfl | h
    · simp [heq] at hzero
    · exact h
  have hmantissaQ : (1 : ℚ) ≤ mantissa := by exact_mod_cast hpos
  have hmantissaQ' : (mantissa : ℚ) < 2 ^ ((format.fractionBits + 1 : Nat) : Int) := by
    rw [zpow_natCast]
    exact_mod_cast hmantissa
  have hshiftZ : (shift : Int) < 2 ^ format.exponentBits := by exact_mod_cast hshift
  rw [heq]
  constructor
  · have hten : (10 : ℚ) ^ (-(bound : Int)) ≤ 2 ^ (-(bound : Int)) := by
      rw [zpow_neg, zpow_neg, zpow_natCast, zpow_natCast]
      exact inv_anti₀ (by positivity) (pow_le_pow_left₀ (by norm_num) (by norm_num) _)
    have htwo : (2 : ℚ) ^ (-(bound : Int)) ≤ 2 ^ (format.minExponent + shift) :=
      zpow_le_zpow_right₀ (by norm_num) (by omega)
    have hone : (2 : ℚ) ^ (format.minExponent + shift) ≤
        mantissa * 2 ^ (format.minExponent + shift) :=
      le_mul_of_one_le_left (by positivity) hmantissaQ
    exact hten.trans (htwo.trans hone)
  · calc (mantissa : ℚ) * 2 ^ (format.minExponent + shift)
        < 2 ^ ((format.fractionBits + 1 : Nat) : Int) * 2 ^ (format.minExponent + shift) :=
          mul_lt_mul_of_pos_right hmantissaQ' (by positivity)
      _ = 2 ^ (((format.fractionBits + 1 : Nat) : Int) + (format.minExponent + shift)) :=
          (zpow_add₀ (by norm_num) _ _).symm
      _ ≤ 2 ^ (bound : Int) := by
          apply zpow_le_zpow_right₀ (by norm_num)
          push_cast
          omega
      _ ≤ 10 ^ (bound : Int) := by
          rw [zpow_natCast, zpow_natCast]
          exact pow_le_pow_left₀ (by norm_num) (by norm_num) _

/-- A bound on the text of every finite value of a format. -/
theorem generalText_length_le_of (precision width bound : Nat)
    (hprecision : 0 < precision) (hwidth : 2 ≤ width) (hbound : bound < 10 ^ width)
    (hlower : -(bound : Int) ≤ format.minExponent)
    (hupper : format.fractionBits + 1 + format.minExponent + 2 ^ format.exponentBits ≤ bound) :
    (format.generalText precision bits).length ≤ precision + width + 4 := by
  have hsign : (if format.signBit bits then ascii "-" else []).length ≤ 1 := by
    split_ifs <;> decide
  have hbody : (Foundation.generalText precision (format.magnitude bits)).length ≤
      precision + width + 3 := by
    by_cases hzero : format.magnitude bits = 0
    · rw [hzero]
      have hone : (Foundation.generalText precision 0).length = 1 := by
        simp only [Foundation.generalText, if_true]
        decide
      omega
    · have hpos : 0 < format.magnitude bits :=
        lt_of_le_of_ne (format.magnitude_nonneg bits) (Ne.symm hzero)
      obtain ⟨hl, hu⟩ := format.magnitude_bounds bits bound hzero hlower hupper
      have hexponent := significantDigits_exponent precision bound _ hpos hl hu
      exact Foundation.generalText_length_le precision _ width hprecision hwidth (by omega)
  simp only [FloatFormat.generalText, List.length_append]
  omega

/-- A `float` fits the buffer that it is formatted into. -/
theorem binary32_generalText_length_le (bits : BitVec 32) :
    (binary32.generalText 9 bits).length ≤ 64 := by
  have h := generalText_length_le_of binary32 bits 9 4 512
    (by decide) (by decide) (by decide) (by decide) (by decide)
  omega

/-- So does a `double`. -/
theorem binary64_generalText_length_le (bits : BitVec 64) :
    (binary64.generalText 17 bits).length ≤ 64 := by
  have h := generalText_length_le_of binary64 bits 17 4 4096
    (by decide) (by decide) (by decide) (by decide) (by decide)
  omega

theorem generalText_ne_nil (precision : Nat) (hprecision : 0 < precision) :
    format.generalText precision bits ≠ [] := by
  have h := Foundation.generalText_ne_nil precision (format.magnitude bits) hprecision
  simp [FloatFormat.generalText, h]

end FloatFormat

end AdaptivePi.Foundation
