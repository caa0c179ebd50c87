import AdaptivePi.Foundation.Reader
import AdaptivePi.Log.ConsoleRecord

namespace AdaptivePi.Log

open Foundation Reader

structure LogRecord where
  metadata : RuntimeMetadata
  level : LogLevel
  contextId : Bytes
  message : Bytes
  deriving DecidableEq

namespace LogRecord

/-- The call with a newly constructed buffer, as `Submit` makes it. -/
def render (record : LogRecord) : Bool × RecordBuffer :=
  renderConsoleRecord record.metadata record.level record.contextId record.message .empty

def Accepted (record : LogRecord) : Prop := record.render.1 = true

def output (record : LogRecord) : Bytes := record.render.2.view

/-- A record is accepted if it can be rendered and fits. -/
theorem accepted_iff (record : LogRecord) :
    record.Accepted ↔ Renderable record.metadata record.level ∧
      (consoleRecord record.metadata record.level record.contextId record.message).length ≤
        recordCapacity := by
  unfold Accepted render
  rw [renderConsoleRecord_iff]
  simp

theorem output_eq {record : LogRecord} (h : record.Accepted) :
    record.output =
      consoleRecord record.metadata record.level record.contextId record.message :=
  view_renderConsoleRecord h

end LogRecord

def readPadded (width : Nat) : Reader UInt8 Nat := readDecimal <$> symbols width

/-- Milliseconds since the epoch. -/
def readTimestamp : Reader UInt8 Int := do
  let year ← readPadded 4
  literal (ascii "-")
  let month ← readPadded 2
  literal (ascii "-")
  let day ← readPadded 2
  literal (ascii "T")
  let hour ← readPadded 2
  literal (ascii ":")
  let minute ← readPadded 2
  literal (ascii ":")
  let second ← readPadded 2
  literal (ascii ".")
  let millisecond ← readPadded 3
  literal (ascii "Z")
  let days := Date.dayNumber ⟨year, month, day⟩
  pure ((((days * 24 + hour) * 60 + minute) * 60 + second) * 1000 + millisecond)

def readNumber : Reader UInt8 Int64 := (Int64.ofInt ∘ readDecimalInt) <$> before 93

def levelNamed (name : Bytes) : Option LogLevel :=
  [LogLevel.fatal, .error, .warn, .info, .debug, .verbose].find? (levelName · = name)

def readEscaped (escapeBrackets : Bool) (stop : UInt8) : Reader UInt8 Bytes :=
  (recordScheme escapeBrackets).decodeUntil stop

def readRecord : Reader UInt8 LogRecord := do
  literal (ascii "[")
  let unixMilliseconds ← readTimestamp
  literal (ascii "][")
  let processId ← readNumber
  literal (ascii "[")
  let threadId ← readNumber
  literal (ascii "[")
  let level ← interpret levelNamed (before 93)
  literal (ascii "[")
  let contextId ← readEscaped true 93
  literal (ascii " ")
  let message ← readEscaped false 10
  pure ⟨⟨Int64.ofInt unixMilliseconds, processId, threadId⟩, level, contextId, message⟩

/-- All records of a console log. -/
def decodeConsole (log : Bytes) : Option (List LogRecord) := readAll readRecord log

private theorem reads_padded {width n : Nat} (hwidth : 0 < width) (hn : n < 10 ^ width) :
    Reads (readPadded width) (padded width n) n := by
  have hread := (reads_symbols (padded_length hwidth hn)).map readDecimal
  rwa [readDecimal_padded] at hread

/-- Milliseconds from days, hours, minutes, seconds and the rest. -/
private theorem milliseconds_of_fields (milliseconds : Int) :
    (((milliseconds / 86400000 * 24 + (milliseconds / 3600000 % 24).toNat) * 60 +
      (milliseconds / 60000 % 60).toNat) * 60 + (milliseconds / 1000 % 60).toNat) * 1000 +
      (milliseconds % 1000).toNat = milliseconds := by
  have hhours : milliseconds / 86400000 = milliseconds / 3600000 / 24 := by omega
  have hminutes : milliseconds / 3600000 = milliseconds / 60000 / 60 := by omega
  have hseconds : milliseconds / 60000 = milliseconds / 1000 / 60 := by omega
  rw [Int.toNat_of_nonneg (by omega), Int.toNat_of_nonneg (by omega),
    Int.toNat_of_nonneg (by omega), Int.toNat_of_nonneg (by omega), hhours,
    Int.ediv_mul_add_emod, hminutes, Int.ediv_mul_add_emod, hseconds, Int.ediv_mul_add_emod,
    Int.ediv_mul_add_emod]

private theorem reads_timestamp {milliseconds : Int} (hyear : YearPrintable milliseconds) :
    Reads readTimestamp (timestampText milliseconds) milliseconds := by
  obtain ⟨hm1, hm12, hd1, hd31⟩ := timestampDate_range milliseconds
  obtain ⟨hy0, hy⟩ := hyear
  have hdate : (⟨((timestampDate milliseconds).year.toNat : Int),
      ((timestampDate milliseconds).month.toNat : Int),
      ((timestampDate milliseconds).day.toNat : Int)⟩ : Date) = timestampDate milliseconds := by
    rw [Int.toNat_of_nonneg hy0, Int.toNat_of_nonneg (by omega), Int.toNat_of_nonneg (by omega)]
  have hdays : Date.dayNumber (timestampDate milliseconds) = milliseconds / 86400000 :=
    Date.dayNumber_dateOf _
  have hvalue := milliseconds_of_fields milliseconds
  rw [← hdays, ← hdate] at hvalue
  have htext : timestampText milliseconds = timestampText milliseconds ++ [] := by simp
  rw [htext]
  unfold timestampText
  simp only [List.append_assoc]
  conv => arg 3; rw [← hvalue]
  unfold readTimestamp
  refine (reads_padded (by omega) (by omega)).bind <| (reads_literal _).bind ?_
  refine (reads_padded (by omega) (by omega)).bind <| (reads_literal _).bind ?_
  refine (reads_padded (by omega) (by omega)).bind <| (reads_literal _).bind ?_
  refine (reads_padded (by omega) (by omega)).bind <| (reads_literal _).bind ?_
  refine (reads_padded (by omega) (by omega)).bind <| (reads_literal _).bind ?_
  refine (reads_padded (by omega) (by omega)).bind <| (reads_literal _).bind ?_
  refine (reads_padded (by omega) (by omega)).bind <| (reads_literal _).bind ?_
  exact Reads.pure _

/-- A numeral has no bracket in it. -/
private theorem bracket_not_mem_decimalInt (value : Int) : 93 ∉ decimalInt value := by
  intro hmem
  cases value with
  | ofNat n => exact absurd (isDigit_of_mem_decimal hmem) (by decide)
  | negSucc n =>
      rcases List.mem_cons.mp hmem with h | h
      · exact absurd h (by decide)
      · exact absurd (isDigit_of_mem_decimal h) (by decide)

private theorem reads_number (value : Int64) :
    Reads readNumber (decimalInt value.toInt ++ [93]) value := by
  have hread := (reads_before (bracket_not_mem_decimalInt value.toInt)).map
    (Int64.ofInt ∘ readDecimalInt)
  simpa [readNumber, readDecimalInt_decimalInt] using hread

/-- A level with a name is one of six, and the names are distinct. -/
private theorem levelNamed_levelName {level : LogLevel} (h : levelName level ≠ []) :
    93 ∉ levelName level ∧ levelNamed (levelName level) = some level := by
  have hcases : level = .fatal ∨ level = .error ∨ level = .warn ∨ level = .info ∨
      level = .debug ∨ level = .verbose := by
    unfold levelName at h
    split_ifs at h <;> simp_all
  rcases hcases with rfl | rfl | rfl | rfl | rfl | rfl <;> decide

/-- Escaped text is read back up to its delimiter. -/
private theorem reads_escaped {escapeBrackets : Bool} {stop : UInt8}
    (hspecial : ((recordScheme escapeBrackets).letter stop).isSome = true) (hstop : stop ≠ 92)
    (text : Bytes) :
    Reads (readEscaped escapeBrackets stop)
      ((recordScheme escapeBrackets).encode text ++ [stop]) text := by
  intro rest
  rw [List.append_assoc]
  exact (recordScheme escapeBrackets).decodeUntil_encode hspecial hstop text rest

/-- A record is read back. -/
private theorem reads_record {record : LogRecord}
    (hrenderable : Renderable record.metadata record.level) :
    Reads readRecord
      (consoleRecord record.metadata record.level record.contextId record.message) record := by
  obtain ⟨⟨unixMilliseconds, processId, threadId⟩, level, contextId, message⟩ := record
  obtain ⟨hlevel, -, -, hyear⟩ := hrenderable
  obtain ⟨hname, hnamed⟩ := levelNamed_levelName hlevel
  have htext : consoleRecord ⟨unixMilliseconds, processId, threadId⟩ level contextId message =
      ascii "[" ++ (timestampText unixMilliseconds.toInt ++ (ascii "][" ++
        ((decimalInt processId.toInt ++ [93]) ++ (ascii "[" ++
        ((decimalInt threadId.toInt ++ [93]) ++ (ascii "[" ++
        ((levelName level ++ [93]) ++ (ascii "[" ++
        (((recordScheme true).encode contextId ++ [93]) ++ (ascii " " ++
        (((recordScheme false).encode message ++ [10]) ++ []))))))))))) := by
    have hclose : ascii "][" = [93] ++ ascii "[" := by decide
    have hcloseSpace : ascii "] " = [93] ++ ascii " " := by decide
    have hnewline : ascii "\n" = [10] := by decide
    simp only [consoleRecord, hclose, hcloseSpace, hnewline, List.append_assoc, List.append_nil]
  have hvalue : (⟨⟨unixMilliseconds, processId, threadId⟩, level, contextId, message⟩ :
      LogRecord) = ⟨⟨Int64.ofInt unixMilliseconds.toInt, processId, threadId⟩, level, contextId,
        message⟩ := by simp
  rw [htext, hvalue]
  unfold readRecord
  refine (reads_literal _).bind <| (reads_timestamp hyear).bind ?_
  refine (reads_literal _).bind <| (reads_number _).bind ?_
  refine (reads_literal _).bind <| (reads_number _).bind ?_
  refine (reads_literal _).bind <| ((reads_before hname).interpret hnamed).bind ?_
  refine (reads_literal _).bind <| (reads_escaped (by decide) (by decide) _).bind ?_
  refine (reads_literal _).bind <| (reads_escaped (by decide) (by decide) _).bind ?_
  exact Reads.pure _

/-- The text holds no newline and no carriage return. -/
def LineFree (text : Bytes) : Prop := 10 ∉ text ∧ 13 ∉ text

private theorem LineFree.append {left right : Bytes} (hleft : LineFree left)
    (hright : LineFree right) : LineFree (left ++ right) := by
  obtain ⟨hl10, hl13⟩ := hleft
  obtain ⟨hr10, hr13⟩ := hright
  simp [LineFree, hl10, hl13, hr10, hr13]

private theorem lineFree_of_isDigit {text : Bytes}
    (hdigits : ∀ byte ∈ text, isDigit byte = true) : LineFree text :=
  ⟨fun h => absurd (hdigits _ h) (by decide), fun h => absurd (hdigits _ h) (by decide)⟩

private theorem lineFree_decimalInt (value : Int) : LineFree (decimalInt value) := by
  cases value with
  | ofNat n => exact lineFree_of_isDigit fun _ => isDigit_of_mem_decimal
  | negSucc n =>
      have hminus : LineFree [45] := by unfold LineFree; decide
      exact hminus.append (lineFree_of_isDigit fun _ => isDigit_of_mem_decimal)

private theorem lineFree_timestampText (milliseconds : Int) :
    LineFree (timestampText milliseconds) := by
  have hpadded (width n : Nat) : LineFree (padded width n) :=
    lineFree_of_isDigit fun _ => isDigit_of_mem_padded
  have hdash : LineFree (ascii "-") := by unfold LineFree; decide
  have htime : LineFree (ascii "T") := by unfold LineFree; decide
  have hcolon : LineFree (ascii ":") := by unfold LineFree; decide
  have hdot : LineFree (ascii ".") := by unfold LineFree; decide
  have hzone : LineFree (ascii "Z") := by unfold LineFree; decide
  unfold timestampText
  exact (hpadded ..).append hdash |>.append (hpadded ..) |>.append hdash |>.append (hpadded ..)
    |>.append htime |>.append (hpadded ..) |>.append hcolon |>.append (hpadded ..)
    |>.append hcolon |>.append (hpadded ..) |>.append hdot |>.append (hpadded ..)
    |>.append hzone

private theorem lineFree_levelName (level : LogLevel) : LineFree (levelName level) := by
  unfold levelName LineFree
  split_ifs <;> decide

private theorem recordScheme_letter_ne (escapeBrackets : Bool) (character : UInt8) :
    (recordScheme escapeBrackets).letter character ≠ some 10 ∧
      (recordScheme escapeBrackets).letter character ≠ some 13 := by
  unfold recordScheme
  cases escapeBrackets <;> simp only <;> split_ifs <;> decide

/-- Escaped text has no end of a line. -/
private theorem lineFree_encode (escapeBrackets : Bool) (text : Bytes) :
    LineFree ((recordScheme escapeBrackets).encode text) := by
  have hletter := recordScheme_letter_ne escapeBrackets
  constructor
  · exact (recordScheme escapeBrackets).not_mem_encode (by cases escapeBrackets <;> decide)
      (by cases escapeBrackets <;> decide) (fun c => (hletter c).1) text
  · exact (recordScheme escapeBrackets).not_mem_encode (by cases escapeBrackets <;> decide)
      (by cases escapeBrackets <;> decide) (fun c => (hletter c).2) text

/-- The newline at the end of a record is its only line break. -/
theorem consoleRecord_line (metadata : RuntimeMetadata) (level : LogLevel)
    (contextId message : Bytes) :
    ∃ body, consoleRecord metadata level contextId message = body ++ [10] ∧ LineFree body := by
  have hopen : LineFree (ascii "[") := by unfold LineFree; decide
  have hmiddle : LineFree (ascii "][") := by unfold LineFree; decide
  have hclose : LineFree (ascii "] ") := by unfold LineFree; decide
  have hnewline : ascii "\n" = [10] := by decide
  refine ⟨ascii "[" ++ (timestampText metadata.unixMilliseconds.toInt ++ (ascii "][" ++
    (decimalInt metadata.processId.toInt ++ (ascii "][" ++
    (decimalInt metadata.threadId.toInt ++ (ascii "][" ++ (levelName level ++
    (ascii "][" ++ ((recordScheme true).encode contextId ++ (ascii "] " ++
    (recordScheme false).encode message)))))))))), ?_, ?_⟩
  · simp only [consoleRecord, hnewline, List.append_assoc]
  · exact hopen.append <| (lineFree_timestampText _).append <| hmiddle.append <|
      (lineFree_decimalInt _).append <| hmiddle.append <| (lineFree_decimalInt _).append <|
      hmiddle.append <| (lineFree_levelName _).append <| hmiddle.append <|
      (lineFree_encode _ _).append <| hclose.append <| lineFree_encode _ _

/-- The console log of any accepted records is decoded to those records, and
each of them is one line. -/
theorem console_log_lossless (records : List LogRecord)
    (haccepted : ∀ record ∈ records, record.Accepted) :
    decodeConsole (records.flatMap LogRecord.output) = some records ∧
      ∀ record ∈ records, ∃ body, record.output = body ++ [10] ∧ 10 ∉ body ∧ 13 ∉ body := by
  constructor
  · refine readAll_flatMap ?_ ?_
    · intro record hrecord
      have haccept := haccepted record hrecord
      rw [LogRecord.output_eq haccept]
      exact reads_record (record.accepted_iff.mp haccept).1
    · intro record hrecord
      rw [LogRecord.output_eq (haccepted record hrecord)]
      simp [consoleRecord, ascii]
  · intro record hrecord
    rw [LogRecord.output_eq (haccepted record hrecord)]
    exact consoleRecord_line ..

/-- Two records, the first with a message that imitates a whole record. -/
theorem console_log_lossless_imitation :
    decodeConsole
      (LogRecord.output ⟨⟨0, 1, 2⟩, .warn, ascii "a]b",
          ascii "x\n[1970-01-01T00:00:00.000Z][1][2][INFO][c] y\n"⟩ ++
        LogRecord.output ⟨⟨-1, 3, 4⟩, .fatal, ascii "\\", []⟩) =
      some [⟨⟨0, 1, 2⟩, .warn, ascii "a]b",
          ascii "x\n[1970-01-01T00:00:00.000Z][1][2][INFO][c] y\n"⟩,
        ⟨⟨-1, 3, 4⟩, .fatal, ascii "\\", []⟩] := by
  have haccepted : ∀ record ∈ [LogRecord.mk ⟨0, 1, 2⟩ .warn (ascii "a]b")
        (ascii "x\n[1970-01-01T00:00:00.000Z][1][2][INFO][c] y\n"),
      ⟨⟨-1, 3, 4⟩, .fatal, ascii "\\", []⟩], record.Accepted := by
    intro record hrecord
    rw [LogRecord.accepted_iff]
    simp only [List.mem_cons, List.not_mem_nil, or_false] at hrecord
    rcases hrecord with rfl | rfl <;> decide +kernel
  simpa using (console_log_lossless _ haccepted).1

end AdaptivePi.Log
