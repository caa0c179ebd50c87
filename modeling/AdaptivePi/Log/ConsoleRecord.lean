import AdaptivePi.Log.ConsoleRecordFormatter

/-!
The text of a console record, and the exact condition under which
`renderConsoleRecord` produces it: an empty buffer, a defined severity,
positive process and thread IDs, a year of four digits, and a text of at most
the buffer's capacity.
-/

namespace AdaptivePi.Log

open Foundation

/-- The escape set of messages, extended by both brackets for context IDs. -/
def recordScheme (escapeBrackets : Bool) : EscapeScheme UInt8 where
  escape := 92
  letter c :=
    if c = 92 then some 92
    else if c = 10 then some 110
    else if c = 13 then some 114
    else if c = 91 then if escapeBrackets then some 91 else none
    else if c = 93 then if escapeBrackets then some 93 else none
    else none
  original l :=
    if l = 110 then some 10 else if l = 114 then some 13 else some l
  original_letter := by
    intro c l h
    split_ifs at h <;> simp only [Option.some.injEq] at h <;> subst h <;>
      simp_all
  letter_escape := by simp

theorem replacement_eq_encodeSymbol (character : UInt8) (escapeBrackets : Bool) :
    replacement character escapeBrackets =
      (recordScheme escapeBrackets).encodeSymbol character := by
  unfold replacement EscapeScheme.encodeSymbol recordScheme
  by_cases h92 : character = 92
  · subst h92; rfl
  by_cases h10 : character = 10
  · subst h10; rfl
  by_cases h13 : character = 13
  · subst h13; rfl
  by_cases h91 : character = 91
  · subst h91; cases escapeBrackets <;> rfl
  by_cases h93 : character = 93
  · subst h93; cases escapeBrackets <;> rfl
  simp [h92, h10, h13, h91, h93]

theorem appendEscaped_writes (value : Bytes) (escapeBrackets : Bool) :
    (appendEscaped value escapeBrackets).Writes
      ((recordScheme escapeBrackets).encode value) := by
  induction value with
  | nil =>
      intro output
      have hle := output.view_length_le
      simp [appendEscaped, hle]
  | cons character rest ih =>
      rw [EscapeScheme.encode_cons, ← replacement_eq_encodeSymbol]
      exact (Appender.writes_append _).andThen ih

theorem levelName_eq_nil_iff (level : LogLevel) :
    levelName level = [] ↔ level.byte = 0 ∨ 6 < level.byte := by
  obtain ⟨byte⟩ := level
  unfold levelName
  simp only [LogLevel.fatal, LogLevel.error, LogLevel.warn, LogLevel.info, LogLevel.debug,
    LogLevel.verbose, LogLevel.mk.injEq, UInt8.lt_iff_toNat_lt, ← UInt8.toNat_inj]
  split_ifs <;> simp_all [ascii]
  omega

theorem digits10_int64 : digits10 63 = 18 := by
  unfold digits10
  rw [Nat.log_eq_iff] <;> norm_num

theorem appendDecimal_writes (value : Int64) :
    (appendDecimal value).Writes (decimalInt value.toInt) := by
  have hlower := value.le_toInt
  have hupper := value.toInt_lt
  have hlen : (decimalInt value.toInt).length ≤ 20 := by
    have hwidth : 0 < 19 := by omega
    refine decimalInt_length_le hwidth ?_ ?_
    · norm_num at *
      omega
    · norm_num at *
      omega
  have htext : toChars (digits10 63 + 2) value.toInt = some (decimalInt value.toInt) := by
    simp [toChars, digits10_int64, hlen]
  unfold appendDecimal
  rw [htext]
  exact Appender.writes_append _

def timestampDate (milliseconds : Int) : Date := Date.dateOf (milliseconds / 86400000)

/-- The year fits the four digits of the format. -/
def YearPrintable (milliseconds : Int) : Prop :=
  0 ≤ (timestampDate milliseconds).year ∧ (timestampDate milliseconds).year ≤ 9999

instance (milliseconds : Int) : Decidable (YearPrintable milliseconds) :=
  inferInstanceAs (Decidable (_ ∧ _))

/-- `YYYY-MM-DDTHH:MM:SS.mmmZ` -/
def timestampText (milliseconds : Int) : Bytes :=
  let date := timestampDate milliseconds
  padded 4 date.year.toNat ++ ascii "-" ++ padded 2 date.month.toNat ++ ascii "-" ++
    padded 2 date.day.toNat ++ ascii "T" ++
    padded 2 (milliseconds / 3600000 % 24).toNat ++ ascii ":" ++
    padded 2 (milliseconds / 60000 % 60).toNat ++ ascii ":" ++
    padded 2 (milliseconds / 1000 % 60).toNat ++ ascii "." ++
    padded 3 (milliseconds % 1000).toNat ++ ascii "Z"

theorem printPadded_of_nonneg (width : Nat) {value : Int} (h : 0 ≤ value) :
    printPadded width value = padded width value.toNat := by
  have hnot : ¬value < 0 := by omega
  have habs : value.natAbs = value.toNat := by omega
  simp [printPadded, hnot, habs]

theorem timestampDate_range (milliseconds : Int) :
    1 ≤ (timestampDate milliseconds).month ∧ (timestampDate milliseconds).month ≤ 12 ∧
      1 ≤ (timestampDate milliseconds).day ∧ (timestampDate milliseconds).day ≤ 31 := by
  obtain ⟨hm1, hm12, hd1, hd⟩ := Date.dateOf_valid (milliseconds / 86400000)
  refine ⟨hm1, hm12, hd1, hd.trans ?_⟩
  unfold Date.monthLength
  split_ifs <;> omega

theorem timestampText_length {milliseconds : Int} (hyear : YearPrintable milliseconds) :
    (timestampText milliseconds).length = 24 := by
  obtain ⟨hm1, hm12, hd1, hd31⟩ := timestampDate_range milliseconds
  obtain ⟨hy0, hy⟩ := hyear
  have hsep : ∀ text : String, (ascii text).length = text.toList.length := by simp [ascii]
  simp only [timestampText, List.length_append, hsep]
  rw [padded_length (by omega) (by omega), padded_length (by omega) (by omega),
    padded_length (by omega) (by omega), padded_length (by omega) (by omega),
    padded_length (by omega) (by omega), padded_length (by omega) (by omega),
    padded_length (by omega) (by omega)]
  rfl

/-- C++ division truncates toward zero; the correction of negative remainders
makes quotient and remainder those of floor division. -/
theorem truncated_to_floor (milliseconds : Int) :
    (if milliseconds.tmod 1000 < 0 then milliseconds.tdiv 1000 - 1
      else milliseconds.tdiv 1000) = milliseconds / 1000 ∧
    (if milliseconds.tmod 1000 < 0 then milliseconds.tmod 1000 + 1000
      else milliseconds.tmod 1000) = milliseconds % 1000 := by
  rcases Int.le_total 0 milliseconds with h | h
  · rw [Int.tdiv_eq_ediv_of_nonneg h, Int.tmod_eq_emod_of_nonneg h]
    omega
  · obtain ⟨n, rfl⟩ : ∃ n, milliseconds = -n := ⟨-milliseconds, by omega⟩
    rw [Int.neg_tdiv, Int.neg_tmod, Int.tdiv_eq_ediv_of_nonneg (by omega),
      Int.tmod_eq_emod_of_nonneg (by omega)]
    omega

/-- What `gmtime` reads from a Unix time in seconds are the fields of the
timestamp text. -/
private theorem printTimestamp_gmtime {milliseconds : Int} {utc : Tm}
    (hutc : gmtime (milliseconds / 1000) = some utc) (hyear : YearPrintable milliseconds) :
    printTimestamp (utc.year + 1900) (utc.mon + 1) utc.mday utc.hour utc.min utc.sec
      (milliseconds % 1000) = timestampText milliseconds := by
  have hdays : milliseconds / 1000 / 86400 = milliseconds / 86400000 := by omega
  obtain ⟨hm1, -, hd1, -⟩ := Date.dateOf_valid (milliseconds / 86400000)
  have hy := hyear.1
  unfold timestampDate at hy
  simp only [gmtime, hdays] at hutc
  split_ifs at hutc
  obtain rfl := Option.some.inj hutc
  have hyear' : (Date.dateOf (milliseconds / 86400000)).year - 1900 + 1900 =
      (Date.dateOf (milliseconds / 86400000)).year := by omega
  have hmonth : (Date.dateOf (milliseconds / 86400000)).month - 1 + 1 =
      (Date.dateOf (milliseconds / 86400000)).month := by omega
  have hhour : milliseconds / 1000 % 86400 / 3600 = milliseconds / 3600000 % 24 := by omega
  have hmin : milliseconds / 1000 % 86400 / 60 % 60 = milliseconds / 60000 % 60 := by omega
  have hsec : milliseconds / 1000 % 86400 % 60 = milliseconds / 1000 % 60 := by omega
  simp only [printTimestamp, timestampText, timestampDate, hyear', hmonth, hhour, hmin, hsec]
  rw [printPadded_of_nonneg 4 hy, printPadded_of_nonneg 2 (by omega),
    printPadded_of_nonneg 2 (by omega), printPadded_of_nonneg 2 (by omega),
    printPadded_of_nonneg 2 (by omega), printPadded_of_nonneg 2 (by omega),
    printPadded_of_nonneg 3 (by omega)]

private theorem gmtime_year {milliseconds : Int} {utc : Tm}
    (hutc : gmtime (milliseconds / 1000) = some utc) :
    utc.year = (timestampDate milliseconds).year - 1900 := by
  have hdays : milliseconds / 1000 / 86400 = milliseconds / 86400000 := by omega
  simp only [gmtime, hdays] at hutc
  split_ifs at hutc
  obtain rfl := Option.some.inj hutc
  rfl

/-- `gmtime_r` succeeds for every year that can be printed. -/
private theorem gmtime_of_yearPrintable {milliseconds : Int}
    (hyear : YearPrintable milliseconds) :
    ∃ utc, gmtime (milliseconds / 1000) = some utc := by
  have hdays : milliseconds / 1000 / 86400 = milliseconds / 86400000 := by omega
  obtain ⟨hy0, hy⟩ := hyear
  unfold timestampDate at hy0 hy
  simp only [gmtime, hdays]
  rw [if_pos (by omega)]
  exact ⟨_, rfl⟩

private theorem year_in_range_iff {milliseconds : Int} {utc : Tm}
    (hutc : gmtime (milliseconds / 1000) = some utc) :
    ¬(utc.year < 0 - 1900 ∨ utc.year > 9999 - 1900) ↔ YearPrintable milliseconds := by
  rw [gmtime_year hutc, YearPrintable]
  omega

/-- A timestamp whose year has four digits is appended. -/
theorem appendTimestamp_writes (unixMilliseconds : Int64)
    (hyear : YearPrintable unixMilliseconds.toInt) :
    (appendTimestamp unixMilliseconds).Writes (timestampText unixMilliseconds.toInt) := by
  obtain ⟨hseconds, hmilliseconds⟩ := truncated_to_floor unixMilliseconds.toInt
  obtain ⟨utc, hutc⟩ := gmtime_of_yearPrintable hyear
  have hlen := timestampText_length hyear
  have htext := printTimestamp_gmtime hutc hyear
  have hrange := (year_in_range_iff hutc).mpr hyear
  have hrun : ∀ output, appendTimestamp unixMilliseconds output =
      output.append (timestampText unixMilliseconds.toInt) := by
    intro output
    dsimp only [appendTimestamp]
    rw [hseconds, hmilliseconds, hutc]
    dsimp only
    rw [if_neg hrange, htext, if_neg (not_not.mpr hlen), List.take_of_length_le hlen.le]
  intro output
  rw [hrun output]
  exact Appender.writes_append _ output

theorem appendTimestamp_fails (unixMilliseconds : Int64)
    (hyear : ¬YearPrintable unixMilliseconds.toInt) :
    (appendTimestamp unixMilliseconds).Fails := by
  obtain ⟨hseconds, -⟩ := truncated_to_floor unixMilliseconds.toInt
  intro output
  dsimp only [appendTimestamp]
  rw [hseconds]
  cases hutc : gmtime (unixMilliseconds.toInt / 1000) with
  | none => rfl
  | some utc =>
      have hrange := (not_congr (year_in_range_iff hutc)).mpr hyear
      dsimp only
      rw [if_pos (not_not.mp hrange)]

/-- `[TIMESTAMP][PID][TID][LEVEL][CONTEXT] message` and a newline. -/
def consoleRecord (metadata : RuntimeMetadata) (level : LogLevel) (context message : Bytes) :
    Bytes :=
  ascii "[" ++ (timestampText metadata.unixMilliseconds.toInt ++ (ascii "][" ++
    (decimalInt metadata.processId.toInt ++ (ascii "][" ++
    (decimalInt metadata.threadId.toInt ++ (ascii "][" ++ (levelName level ++
    (ascii "][" ++ ((recordScheme true).encode context ++ (ascii "] " ++
    ((recordScheme false).encode message ++ ascii "\n")))))))))))

/-- The metadata and the severity that can be rendered at all. -/
structure Renderable (metadata : RuntimeMetadata) (level : LogLevel) : Prop where
  level_defined : levelName level ≠ []
  process_pos : 0 < metadata.processId.toInt
  thread_pos : 0 < metadata.threadId.toInt
  year_printable : YearPrintable metadata.unixMilliseconds.toInt

/-- The conditions that the renderer checks. -/
theorem renderable_iff (metadata : RuntimeMetadata) (level : LogLevel) :
    Renderable metadata level ↔ levelName level ≠ [] ∧ 0 < metadata.processId.toInt ∧
      0 < metadata.threadId.toInt ∧ YearPrintable metadata.unixMilliseconds.toInt :=
  ⟨fun h => ⟨h.1, h.2, h.3, h.4⟩, fun h => ⟨h.1, h.2.1, h.2.2.1, h.2.2.2⟩⟩

instance (metadata : RuntimeMetadata) (level : LogLevel) :
    Decidable (Renderable metadata level) :=
  decidable_of_iff _ (renderable_iff metadata level).symm

/-- The chain of appends in `renderConsoleRecord`, on a buffer of any
content. -/
private def renderChain (metadata : RuntimeMetadata) (level : LogLevel)
    (context message : Bytes) : Appender :=
  let literal (text : String) : Appender := fun output => output.append (ascii text)
  (literal "[").andThen <| (appendTimestamp metadata.unixMilliseconds).andThen <|
    (literal "][").andThen <| (appendDecimal metadata.processId).andThen <|
    (literal "][").andThen <| (appendDecimal metadata.threadId).andThen <|
    (literal "][").andThen <| Appender.andThen (fun output => output.append (levelName level)) <|
    (literal "][").andThen <| (appendEscaped context true).andThen <|
    (literal "] ").andThen <| (appendEscaped message false).andThen <|
    literal "\n"

private theorem renderChain_writes (metadata : RuntimeMetadata) (level : LogLevel)
    (context message : Bytes) (hyear : YearPrintable metadata.unixMilliseconds.toInt) :
    (renderChain metadata level context message).Writes
      (consoleRecord metadata level context message) :=
  (Appender.writes_append _).andThen <| (appendTimestamp_writes _ hyear).andThen <|
    (Appender.writes_append _).andThen <| (appendDecimal_writes _).andThen <|
    (Appender.writes_append _).andThen <| (appendDecimal_writes _).andThen <|
    (Appender.writes_append _).andThen <| (Appender.writes_append _).andThen <|
    (Appender.writes_append _).andThen <| (appendEscaped_writes _ _).andThen <|
    (Appender.writes_append _).andThen <| (appendEscaped_writes _ _).andThen <|
    Appender.writes_append _

private theorem renderChain_fails (metadata : RuntimeMetadata) (level : LogLevel)
    (context message : Bytes) (hyear : ¬YearPrintable metadata.unixMilliseconds.toInt) :
    (renderChain metadata level context message).Fails :=
  Appender.Fails.andThen_right _ <| Appender.Fails.andThen_left _ <|
    appendTimestamp_fails _ hyear

/-- It succeeds on an empty buffer with metadata that can be rendered, if the record fits. -/
theorem renderConsoleRecord_iff (metadata : RuntimeMetadata) (level : LogLevel)
    (context message : Bytes) (output : RecordBuffer) :
    (renderConsoleRecord metadata level context message output).1 = true ↔
      output.view = [] ∧ Renderable metadata level ∧
        (consoleRecord metadata level context message).length ≤ recordCapacity := by
  rw [renderable_iff]
  unfold renderConsoleRecord
  simp only
  split_ifs with hguard
  · simp only [false_iff]
    rintro ⟨hview, ⟨hlevel, hpid, htid, -⟩, -⟩
    rcases hguard with h | h | h | h
    · exact h hview
    · exact hlevel h
    · omega
    · omega
  · change (renderChain metadata level context message output).1 = true ↔ _
    push Not at hguard
    obtain ⟨hview, hlevel, hpid, htid⟩ := hguard
    by_cases hyear : YearPrintable metadata.unixMilliseconds.toInt
    · rw [(renderChain_writes metadata level context message hyear output).1]
      simp [hview, hlevel, hpid, htid, hyear]
    · simp [renderChain_fails metadata level context message hyear output, hyear]

theorem view_renderConsoleRecord {metadata : RuntimeMetadata} {level : LogLevel}
    {context message : Bytes} {output : RecordBuffer}
    (h : (renderConsoleRecord metadata level context message output).1 = true) :
    (renderConsoleRecord metadata level context message output).2.view =
      consoleRecord metadata level context message := by
  obtain ⟨hview, hrenderable, -⟩ := (renderConsoleRecord_iff ..).mp h
  have hyear := hrenderable.year_printable
  unfold renderConsoleRecord at h ⊢
  simp only at h ⊢
  split_ifs at h ⊢ with hguard
  change (renderChain metadata level context message output).1 = true at h
  change (renderChain metadata level context message output).2.view = _
  rw [(renderChain_writes metadata level context message hyear output).2 h, hview,
    List.nil_append]

end AdaptivePi.Log
