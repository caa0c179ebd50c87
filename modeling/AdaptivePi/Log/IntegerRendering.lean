import AdaptivePi.Log.ConsoleRecord
import AdaptivePi.Log.LogicalRecord
import Mathlib.Analysis.SpecialFunctions.Log.Base

namespace AdaptivePi.Log

open Foundation

/-- `digits10` as the standard defines it. -/
theorem digits10_eq_floor (digits : Nat) :
    digits10 digits = ⌊(digits : ℝ) * Real.logb 10 2⌋₊ := by
  have hlog : Real.logb 10 ((2 ^ digits : Nat) : ℝ) = (digits : ℝ) * Real.logb 10 2 := by
    push_cast
    exact Real.logb_pow 10 2 digits
  rw [← hlog]
  exact (Real.natFloor_logb_natCast 10 (2 ^ digits)).symm

namespace IntegralType

/-- Different values are different numbers. -/
theorem value_injective (type : IntegralType) : Function.Injective type.value := by
  intro left right h
  unfold value at h
  split at h
  · exact BitVec.eq_of_toInt_eq h
  · exact BitVec.eq_of_toNat_eq (Int.ofNat.inj h)

/-- Different values have different texts. -/
theorem decimalInt_value_injective (type : IntegralType) :
    Function.Injective fun value => decimalInt (type.value value) := by
  intro left right h
  have hread := congrArg readDecimalInt h
  simp only [readDecimalInt_decimalInt] at hread
  exact type.value_injective hread

end IntegralType

/-- Formatting never fails, so an insertion appends the text of the value. -/
theorem LogStream.insert_integer (stream : LogStream) (type : IntegralType)
    (value : BitVec type.width) :
    stream.insert (.integer type value) = stream.append (decimalInt (type.value value)) :=
  stream.insert_eq (.integer type value)

/-- The buffer of `AppendDecimal` is large enough. -/
theorem appendDecimal_eq (value : Int64) (output : RecordBuffer) :
    toChars (digits10 63 + 2) value.toInt = some (decimalInt value.toInt) ∧
      appendDecimal value output = output.append (decimalInt value.toInt) := by
  have htext : toChars (digits10 63 + 2) value.toInt = some (decimalInt value.toInt) :=
    toChars_integral ⟨64, true, by omega⟩ value.toBitVec
  refine ⟨htext, ?_⟩
  unfold appendDecimal
  rw [htext]

/-- The text of an integer fits its scratch buffer, only the capacity of the
message can reject it, and it determines the value. -/
theorem integer_rendering (type : IntegralType) :
    digits10 type.digits = ⌊(type.digits : ℝ) * Real.logb 10 2⌋₊ ∧
    (∀ value : BitVec type.width,
      (decimalInt (type.value value)).length ≤ digits10 type.digits + 2 ∧
      toChars (digits10 type.digits + 2) (type.value value) = some (decimalInt (type.value value)) ∧
      readDecimalInt (decimalInt (type.value value)) = type.value value) ∧
    (∀ (stream : LogStream) (value : BitVec type.width), stream.inactive = false →
      ((stream.insert (.integer type value)).failed = true ↔
        messageCapacity < stream.buffer.view.length + (decimalInt (type.value value)).length) ∧
      ((stream.insert (.integer type value)).failed = false →
        (stream.insert (.integer type value)).buffer.view =
          stream.buffer.view ++ decimalInt (type.value value))) ∧
    (∀ (value : Int64) (output : RecordBuffer),
      toChars (digits10 63 + 2) value.toInt = some (decimalInt value.toInt) ∧
      appendDecimal value output = output.append (decimalInt value.toInt)) ∧
    ∀ value value' : BitVec type.width, value ≠ value' →
      decimalInt (type.value value) ≠ decimalInt (type.value value') := by
  refine ⟨digits10_eq_floor _, ?_, ?_, appendDecimal_eq, ?_⟩
  · intro value
    exact ⟨type.decimalInt_length_le value, toChars_integral type value,
      readDecimalInt_decimalInt _⟩
  · intro stream value hactive
    rw [stream.insert_integer]
    exact LogStream.append_active _ hactive
  · intro value value' hne heq
    exact hne (type.decimalInt_value_injective heq)

end AdaptivePi.Log
