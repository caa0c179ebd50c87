import Mathlib.Algebra.Ring.Nat
import Mathlib.Data.List.TakeWhile
import Mathlib.Tactic.Common

namespace AdaptivePi.Foundation

abbrev Bytes := List UInt8

/-- The bytes of an ASCII literal. -/
def ascii (text : String) : Bytes := text.toList.map Char.toUInt8

def isDigit (byte : UInt8) : Bool := 48 ≤ byte && byte ≤ 57

/-- A natural number in base ten, most significant digit first. -/
def decimal (n : Nat) : Bytes := (Nat.toDigits 10 n).map Char.toUInt8

/-- The number denoted by a string of ASCII digits. -/
def readDecimal (digits : Bytes) : Nat :=
  Nat.ofDigitChars 10 (digits.map Char.ofUInt8) 0

/-- A signed number: a minus sign before the numeral of its magnitude. -/
def decimalInt : Int → Bytes
  | .ofNat n => decimal n
  | .negSucc n => 45 :: decimal (n + 1)

def readDecimalInt : Bytes → Int
  | 45 :: digits => -(readDecimal digits : Int)
  | digits => readDecimal digits

/-- A numeral filled up with leading zeros to at least `width` digits. -/
def padded (width n : Nat) : Bytes :=
  List.replicate (width - (decimal n).length) 48 ++ decimal n

private theorem isDigit_range (c : Char) (hc : c.isDigit = true) :
    48 ≤ c.toNat ∧ c.toNat ≤ 57 := by
  simp only [Char.isDigit, Bool.and_eq_true, decide_eq_true_eq] at hc
  exact ⟨UInt32.le_iff_toNat_le.mp hc.1, UInt32.le_iff_toNat_le.mp hc.2⟩

private theorem toNat_toUInt8_of_isDigit (c : Char) (hc : c.isDigit = true) :
    c.toUInt8.toNat = c.toNat := by
  have hrange := isDigit_range c hc
  have hmod : c.toUInt8.toNat = c.toNat % 256 := UInt32.toNat_toUInt8 c.val
  rw [hmod, Nat.mod_eq_of_lt (by omega)]

private theorem ofUInt8_toUInt8_of_isDigit (c : Char) (hc : c.isDigit = true) :
    Char.ofUInt8 c.toUInt8 = c := by
  apply Char.toNat_inj.mp
  change c.toUInt8.toUInt32.toNat = c.toNat
  rw [UInt8.toNat_toUInt32, toNat_toUInt8_of_isDigit c hc]

private theorem isDigit_of_mem_toDigits {n : Nat} {c : Char}
    (hc : c ∈ Nat.toDigits 10 n) : c.isDigit = true :=
  Nat.isDigit_of_mem_toDigits (by omega) (by omega) hc

theorem isDigit_of_mem_decimal {n : Nat} {byte : UInt8}
    (hbyte : byte ∈ decimal n) : isDigit byte = true := by
  obtain ⟨c, hc, rfl⟩ := List.mem_map.mp hbyte
  have hdigit := isDigit_of_mem_toDigits hc
  have hrange := isDigit_range c hdigit
  have hval := toNat_toUInt8_of_isDigit c hdigit
  simp only [isDigit, Bool.and_eq_true, decide_eq_true_eq, UInt8.le_iff_toNat_le]
  constructor
  · rw [hval]
    exact hrange.1
  · rw [hval]
    exact hrange.2

/-- A numeral denotes its number. -/
theorem readDecimal_decimal (n : Nat) : readDecimal (decimal n) = n := by
  have hback : ((Nat.toDigits 10 n).map Char.toUInt8).map Char.ofUInt8 =
      Nat.toDigits 10 n := by
    rw [List.map_map]
    conv_rhs => rw [← List.map_id (Nat.toDigits 10 n)]
    apply List.map_congr_left
    intro c hc
    exact ofUInt8_toUInt8_of_isDigit c (isDigit_of_mem_toDigits hc)
  unfold readDecimal decimal
  rw [hback]
  exact Nat.ofDigitChars_toDigits (by omega) (by omega)

theorem decimal_ne_nil (n : Nat) : decimal n ≠ [] := by
  simp [decimal, Nat.toDigits_ne_nil]

/-- A numeral fits a width exactly if the number has no more digits. -/
theorem decimal_length_le_iff {n width : Nat} (hwidth : 0 < width) :
    (decimal n).length ≤ width ↔ n < 10 ^ width := by
  simpa [decimal] using Nat.length_toDigits_le_iff (b := 10) (n := n) (by omega) hwidth

theorem decimalInt_ne_nil (z : Int) : decimalInt z ≠ [] := by
  cases z with
  | ofNat n => exact decimal_ne_nil n
  | negSucc n => simp [decimalInt]

theorem decimalInt_of_nonneg {z : Int} (hz : 0 ≤ z) :
    decimalInt z = decimal z.toNat := by
  obtain ⟨n, rfl⟩ := Int.eq_ofNat_of_zero_le hz
  rfl

/-- A sign costs one byte, so the length bound is on the magnitude. -/
theorem decimalInt_length_le {z : Int} {width : Nat} (hwidth : 0 < width)
    (hlower : -(10 ^ width : Nat) < z) (hupper : z < (10 ^ (width + 1) : Nat)) :
    (decimalInt z).length ≤ width + 1 := by
  cases z with
  | ofNat n =>
      have hn : n < 10 ^ (width + 1) := by
        simpa only [Int.ofNat_eq_natCast, Int.ofNat_lt] using hupper
      exact (decimal_length_le_iff (by omega)).mpr hn
  | negSucc n =>
      have hn : n + 1 < 10 ^ width := by
        rw [Int.negSucc_eq] at hlower
        omega
      have hlen := (decimal_length_le_iff hwidth).mpr hn
      simpa [decimalInt] using hlen

private theorem decimal_head_ne_minus (n : Nat) (rest : Bytes) :
    decimal n ≠ 45 :: rest := by
  intro h
  have hmem : 45 ∈ decimal n := by simp [h]
  have hdigit := isDigit_of_mem_decimal hmem
  exact absurd hdigit (by decide)

theorem readDecimalInt_decimalInt (z : Int) :
    readDecimalInt (decimalInt z) = z := by
  cases z with
  | ofNat n =>
      have hread : readDecimalInt (decimal n) = readDecimal (decimal n) := by
        unfold readDecimalInt
        split
        · rename_i heq
          exact absurd heq (decimal_head_ne_minus n _)
        · rfl
      simpa [decimalInt, readDecimal_decimal] using hread
  | negSucc n =>
      simp only [decimalInt, readDecimalInt, readDecimal_decimal]
      omega

theorem padded_length {width n : Nat} (hwidth : 0 < width) (hn : n < 10 ^ width) :
    (padded width n).length = width := by
  have hle := (decimal_length_le_iff hwidth).mpr hn
  simp only [padded, List.length_append, List.length_replicate]
  omega

theorem isDigit_of_mem_padded {width n : Nat} {byte : UInt8}
    (hbyte : byte ∈ padded width n) : isDigit byte = true := by
  rcases List.mem_append.mp hbyte with hzero | hdigit
  · rw [List.eq_of_mem_replicate hzero]
    decide
  · exact isDigit_of_mem_decimal hdigit

/-- Leading zeros do not change the number. -/
theorem readDecimal_padded (width n : Nat) : readDecimal (padded width n) = n := by
  have hzeros : ∀ k : Nat, (List.replicate k (48 : UInt8)).map Char.ofUInt8 =
      List.replicate k '0' := by
    intro k
    rw [List.map_replicate]
    rfl
  have hread : readDecimal (padded width n) = readDecimal (decimal n) := by
    unfold readDecimal padded
    rw [List.map_append, hzeros, Nat.ofDigitChars_append,
      Nat.ofDigitChars_replicate_zero]
    simp
  rw [hread, readDecimal_decimal]

/-- The longest prefix of digits, and what follows it. -/
def spanDigits (text : Bytes) : Bytes × Bytes :=
  (text.takeWhile isDigit, text.dropWhile isDigit)

theorem spanDigits_append (digits : Bytes) (stop : UInt8) (rest : Bytes)
    (hdigits : ∀ byte ∈ digits, isDigit byte = true) (hstop : isDigit stop = false) :
    spanDigits (digits ++ stop :: rest) = (digits, stop :: rest) := by
  unfold spanDigits
  rw [List.takeWhile_append_of_pos hdigits, List.dropWhile_append_of_pos hdigits]
  simp [hstop]

end AdaptivePi.Foundation
