import AdaptivePi.Foundation.Calendar
import AdaptivePi.Foundation.Escape
import AdaptivePi.Log.RecordBuffer
import Mathlib.Data.Nat.Log

/-!
`console_record_formatter.cpp`: one console record is rendered into a record
buffer by a chain of appends. The system calendar `gmtime_r` is the proleptic
Gregorian conversion; it fails only when the year does not fit an `int`.
-/

namespace AdaptivePi.Log

open Foundation

/-- `LogLevel` is an enumeration over `std::uint8_t`; every byte can be cast
to it. -/
structure LogLevel where
  byte : UInt8
  deriving DecidableEq

namespace LogLevel

def off : LogLevel := ⟨0⟩
def fatal : LogLevel := ⟨1⟩
def error : LogLevel := ⟨2⟩
def warn : LogLevel := ⟨3⟩
def info : LogLevel := ⟨4⟩
def debug : LogLevel := ⟨5⟩
def verbose : LogLevel := ⟨6⟩

end LogLevel

structure RuntimeMetadata where
  unixMilliseconds : Int64
  processId : Int64
  threadId : Int64
  deriving DecidableEq

/-- The `replacement` chosen by the switch in `AppendEscaped`. -/
def replacement (character : UInt8) (escapeBrackets : Bool) : Bytes :=
  if character = 92 then ascii "\\\\"
  else if character = 10 then ascii "\\n"
  else if character = 13 then ascii "\\r"
  else if character = 91 then
    if escapeBrackets then ascii "\\[" else ascii "["
  else if character = 93 then
    if escapeBrackets then ascii "\\]" else ascii "]"
  else [character]

def appendEscaped (value : Bytes) (escapeBrackets : Bool) : Appender :=
  match value with
  | [] => fun output => (true, output)
  | character :: rest => fun output =>
      match output.append (replacement character escapeBrackets) with
      | (false, output') => (false, output')
      | (true, output') => appendEscaped rest escapeBrackets output'

def levelName (level : LogLevel) : Bytes :=
  if level = .fatal then ascii "FATAL"
  else if level = .error then ascii "ERROR"
  else if level = .warn then ascii "WARN"
  else if level = .info then ascii "INFO"
  else if level = .debug then ascii "DEBUG"
  else if level = .verbose then ascii "VERBOSE"
  else []

/-- `std::to_chars` of an integer in base ten: it fails when the text does not
fit between the two pointers. -/
def toChars (capacity : Nat) (value : Int) : Option Bytes :=
  if (decimalInt value).length ≤ capacity then some (decimalInt value) else none

/-- `std::numeric_limits<T>::digits10` of a type with `digits` value bits. -/
def digits10 (digits : Nat) : Nat := Nat.log 10 (2 ^ digits)

def appendDecimal (value : Int64) : Appender := fun output =>
  match toChars (digits10 63 + 2) value.toInt with
  | none => (false, output)
  | some text => output.append text

structure Tm where
  year : Int
  mon : Int
  mday : Int
  hour : Int
  min : Int
  sec : Int
  deriving DecidableEq

def gmtime (seconds : Int) : Option Tm :=
  let date := Date.dateOf (seconds / 86400)
  let second := seconds % 86400
  if -2 ^ 31 ≤ date.year - 1900 ∧ date.year - 1900 < 2 ^ 31 then
    some { year := date.year - 1900, mon := date.month - 1, mday := date.day,
           hour := second / 3600, min := second / 60 % 60, sec := second % 60 }
  else none

/-- The conversion `%0wd` of `snprintf`, where the sign counts for the width. -/
def printPadded (width : Nat) (value : Int) : Bytes :=
  if value < 0 then 45 :: padded (width - 1) value.natAbs
  else padded width value.natAbs

/-- `snprintf` with `c_timestamp_format`, before truncation to the buffer. -/
def printTimestamp (year month day hour minute second millisecond : Int) : Bytes :=
  printPadded 4 year ++ ascii "-" ++ printPadded 2 month ++ ascii "-" ++
    printPadded 2 day ++ ascii "T" ++ printPadded 2 hour ++ ascii ":" ++
    printPadded 2 minute ++ ascii ":" ++ printPadded 2 second ++ ascii "." ++
    printPadded 3 millisecond ++ ascii "Z"

def appendTimestamp (unixMilliseconds : Int64) : Appender := fun output =>
  let quotient := unixMilliseconds.toInt.tdiv 1000
  let remainder := unixMilliseconds.toInt.tmod 1000
  let seconds := if remainder < 0 then quotient - 1 else quotient
  let milliseconds := if remainder < 0 then remainder + 1000 else remainder
  match gmtime seconds with
  | none => (false, output)
  | some utc =>
      if utc.year < 0 - 1900 ∨ utc.year > 9999 - 1900 then (false, output)
      else
        let text := printTimestamp (utc.year + 1900) (utc.mon + 1) utc.mday utc.hour
          utc.min utc.sec milliseconds
        if text.length ≠ 24 then (false, output) else output.append (text.take 24)

def renderConsoleRecord (metadata : RuntimeMetadata) (level : LogLevel)
    (context message : Bytes) : Appender := fun output =>
  let name := levelName level
  if output.view ≠ [] ∨ name = [] ∨ metadata.processId.toInt ≤ 0 ∨
      metadata.threadId.toInt ≤ 0 then
    (false, output)
  else
    let literal (text : String) : Appender := fun output => output.append (ascii text)
    ((literal "[").andThen <| (appendTimestamp metadata.unixMilliseconds).andThen <|
      (literal "][").andThen <| (appendDecimal metadata.processId).andThen <|
      (literal "][").andThen <| (appendDecimal metadata.threadId).andThen <|
      (literal "][").andThen <| Appender.andThen (fun output => output.append name) <|
      (literal "][").andThen <| (appendEscaped context true).andThen <|
      (literal "] ").andThen <| (appendEscaped message false).andThen <|
      literal "\n") output

end AdaptivePi.Log
