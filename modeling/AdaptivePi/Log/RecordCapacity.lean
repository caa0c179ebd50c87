import AdaptivePi.Log.ConsoleRecord
import AdaptivePi.Log.LogStream

namespace AdaptivePi.Log

open Foundation

/-- The text with its escapes, as `AppendEscaped` appends it. -/
def escaped (escapeBrackets : Bool) (value : Bytes) : Bytes :=
  value.flatMap (replacement · escapeBrackets)

/-- The scheme writes the escapes that `AppendEscaped` does. -/
theorem encode_eq_escaped (escapeBrackets : Bool) (value : Bytes) :
    (recordScheme escapeBrackets).encode value = escaped escapeBrackets value := by
  unfold EscapeScheme.encode escaped
  congr 1
  funext character
  rw [replacement_eq_encodeSymbol]

theorem escaped_length_le (escapeBrackets : Bool) (value : Bytes) :
    (escaped escapeBrackets value).length ≤ 2 * value.length := by
  rw [← encode_eq_escaped]
  exact EscapeScheme.encode_length_le _ value

theorem level_defined_iff (level : LogLevel) :
    levelName level ≠ [] ↔ 1 ≤ level.byte ∧ level.byte ≤ 6 := by
  have hzero : (0 : UInt8).toNat = 0 := rfl
  have hone : (1 : UInt8).toNat = 1 := rfl
  have hsix : (6 : UInt8).toNat = 6 := rfl
  rw [ne_eq, levelName_eq_nil_iff, UInt8.lt_iff_toNat_lt, UInt8.le_iff_toNat_le,
    UInt8.le_iff_toNat_le, ← UInt8.toNat_inj]
  omega

theorem levelName_length_le (level : LogLevel) : (levelName level).length ≤ 7 := by
  unfold levelName
  split_ifs <;> simp [ascii]

/-- A positive ID has at most 19 digits. -/
theorem id_digits_le (value : Int64) (hvalue : 0 < value.toInt) :
    (decimal value.toInt.toNat).length ≤ 19 := by
  have hupper : value.toInt < 9223372036854775808 := value.toInt_lt
  have hpower : 10 ^ 19 = 10000000000000000000 := by norm_num
  rw [decimal_length_le_iff (by omega), hpower]
  omega

/-- The brackets, the blank, the newline and the timestamp take 36 bytes. -/
theorem consoleRecord_length {metadata : RuntimeMetadata} {level : LogLevel}
    (context message : Bytes) (hrenderable : Renderable metadata level) :
    (consoleRecord metadata level context message).length =
      36 + (decimal metadata.processId.toInt.toNat).length +
        (decimal metadata.threadId.toInt.toNat).length + (levelName level).length +
        (escaped true context).length + (escaped false message).length := by
  have htimestamp := timestampText_length hrenderable.year_printable
  have hprocess := decimalInt_of_nonneg hrenderable.process_pos.le
  have hthread := decimalInt_of_nonneg hrenderable.thread_pos.le
  have hliteral : ∀ text : String, (ascii text).length = text.toList.length := by simp [ascii]
  unfold consoleRecord
  rw [hprocess, hthread, encode_eq_escaped, encode_eq_escaped]
  simp only [List.length_append, htimestamp, hliteral]
  change 1 + (24 + (2 + (_ + (2 + (_ + (2 + (_ + (2 + (_ + (2 + (_ + 1))))))))))) = _
  omega

/-- When rendering succeeds, what it leaves in the buffer, and what always fits. -/
theorem renderConsoleRecord_exact (metadata : RuntimeMetadata) (level : LogLevel)
    (context message : Bytes) (output : RecordBuffer) :
    ((renderConsoleRecord metadata level context message output).1 = true ↔
      output.view = [] ∧ (1 ≤ level.byte ∧ level.byte ≤ 6) ∧ 0 < metadata.processId.toInt ∧
        0 < metadata.threadId.toInt ∧ YearPrintable metadata.unixMilliseconds.toInt ∧
        36 + (decimal metadata.processId.toInt.toNat).length +
          (decimal metadata.threadId.toInt.toNat).length + (levelName level).length +
          (escaped true context).length + (escaped false message).length ≤ 16384) ∧
    ((renderConsoleRecord metadata level context message output).1 = true →
      (renderConsoleRecord metadata level context message output).2.view =
        ascii "[" ++ timestampText metadata.unixMilliseconds.toInt ++
          ascii "][" ++ decimal metadata.processId.toInt.toNat ++
          ascii "][" ++ decimal metadata.threadId.toInt.toNat ++
          ascii "][" ++ levelName level ++ ascii "][" ++ escaped true context ++
          ascii "] " ++ escaped false message ++ ascii "\n") ∧
    (output.view = [] → Renderable metadata level → context.length ≤ 4055 →
      message.length ≤ messageCapacity →
      (renderConsoleRecord metadata level context message output).1 = true) := by
  refine ⟨?_, ?_, ?_⟩
  · rw [renderConsoleRecord_iff]
    constructor
    · rintro ⟨hview, hrenderable, hlength⟩
      rw [consoleRecord_length context message hrenderable] at hlength
      exact ⟨hview, (level_defined_iff level).mp hrenderable.level_defined,
        hrenderable.process_pos, hrenderable.thread_pos, hrenderable.year_printable, hlength⟩
    · rintro ⟨hview, hlevel, hprocess, hthread, hyear, hlength⟩
      have hrenderable : Renderable metadata level :=
        ⟨(level_defined_iff level).mpr hlevel, hprocess, hthread, hyear⟩
      refine ⟨hview, hrenderable, ?_⟩
      rw [consoleRecord_length context message hrenderable]
      exact hlength
  · intro h
    obtain ⟨-, hrenderable, -⟩ := (renderConsoleRecord_iff ..).mp h
    rw [view_renderConsoleRecord h, consoleRecord, encode_eq_escaped, encode_eq_escaped,
      decimalInt_of_nonneg hrenderable.process_pos.le, decimalInt_of_nonneg hrenderable.thread_pos.le]
    simp only [List.append_assoc]
  · intro hview hrenderable hcontext hmessage
    rw [renderConsoleRecord_iff]
    refine ⟨hview, hrenderable, ?_⟩
    have hprocess := id_digits_le _ hrenderable.process_pos
    have hthread := id_digits_le _ hrenderable.thread_pos
    have hlevel := levelName_length_le level
    have hcontext' := escaped_length_le true context
    have hmessage' := escaped_length_le false message
    rw [consoleRecord_length context message hrenderable]
    unfold recordCapacity
    unfold messageCapacity at hmessage
    omega

end AdaptivePi.Log
