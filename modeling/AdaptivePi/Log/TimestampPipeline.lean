import AdaptivePi.Foundation.CalendarOrder
import AdaptivePi.Foundation.FieldLayout
import AdaptivePi.Log.ConsoleRecord
import AdaptivePi.Log.LinuxMetadataProvider

namespace AdaptivePi.Log

open Foundation

/-- The format `YYYY-MM-DDTHH:MM:SS.mmmZ`. -/
def timestampLayout : Layout :=
  [(4, ascii "-"), (2, ascii "-"), (2, ascii "T"), (2, ascii ":"), (2, ascii ":"),
    (2, ascii "."), (3, ascii "Z")]

/-- A time of day on a date that the format can show. -/
structure CivilTime where
  date : Date
  hour : Nat
  minute : Nat
  second : Nat
  millisecond : Nat
  date_valid : date.Valid
  year_nonneg : 0 ≤ date.year
  year_le : date.year ≤ 9999
  hour_lt : hour < 24
  minute_lt : minute < 60
  second_lt : second < 60
  millisecond_lt : millisecond < 1000

namespace CivilTime

/-- Milliseconds from the epoch to that time in UTC. -/
def unixMilliseconds (time : CivilTime) : Int :=
  (((time.date.dayNumber * 24 + time.hour) * 60 + time.minute) * 60 + time.second) * 1000 +
    time.millisecond

def values (time : CivilTime) : List Nat :=
  [time.date.year.toNat, time.date.month.toNat, time.date.day.toNat, time.hour, time.minute,
    time.second, time.millisecond]

def text (time : CivilTime) : Bytes := timestampLayout.text time.values

theorem fits (time : CivilTime) : timestampLayout.Fits time.values := by
  obtain ⟨hm1, hm12, hd1, hd⟩ := time.date_valid
  have hmonth : Date.monthLength time.date.year time.date.month ≤ 31 := by
    unfold Date.monthLength
    split_ifs <;> omega
  have hyear := time.year_le
  have hhour := time.hour_lt
  have hminute := time.minute_lt
  have hsecond := time.second_lt
  have hmillisecond := time.millisecond_lt
  unfold timestampLayout values Layout.Fits
  simp only [List.forall₂_cons]
  refine ⟨⟨?_, ?_⟩, ⟨?_, ?_⟩, ⟨?_, ?_⟩, ⟨?_, ?_⟩, ⟨?_, ?_⟩, ⟨?_, ?_⟩, ⟨?_, ?_⟩, .nil⟩ <;> omega

/-- A timestamp has 24 characters. -/
theorem text_length (time : CivilTime) : time.text.length = 24 :=
  Layout.text_length time.fits

/-- The time of a Unix time in milliseconds. -/
def ofUnixMilliseconds (milliseconds : Int) (hyear : YearPrintable milliseconds) : CivilTime where
  date := timestampDate milliseconds
  hour := (milliseconds / 3600000 % 24).toNat
  minute := (milliseconds / 60000 % 60).toNat
  second := (milliseconds / 1000 % 60).toNat
  millisecond := (milliseconds % 1000).toNat
  date_valid := Date.dateOf_valid _
  year_nonneg := hyear.1
  year_le := hyear.2
  hour_lt := by omega
  minute_lt := by omega
  second_lt := by omega
  millisecond_lt := by omega

/-- The fields of an instant denote exactly its millisecond. -/
theorem unixMilliseconds_of {milliseconds : Int} (hyear : YearPrintable milliseconds) :
    (ofUnixMilliseconds milliseconds hyear).unixMilliseconds = milliseconds := by
  have hdays : (timestampDate milliseconds).dayNumber = milliseconds / 86400000 :=
    Date.dayNumber_dateOf _
  simp only [unixMilliseconds, ofUnixMilliseconds, hdays]
  omega

theorem text_of {milliseconds : Int} (hyear : YearPrintable milliseconds) :
    (ofUnixMilliseconds milliseconds hyear).text = timestampText milliseconds := by
  simp only [text, values, timestampLayout, Layout.text, ofUnixMilliseconds, timestampText,
    List.append_assoc, List.append_nil]

end CivilTime

/-- The years of four digits, in milliseconds. -/
theorem yearPrintable_iff (milliseconds : Int) :
    YearPrintable milliseconds ↔
      -62167219200000 ≤ milliseconds ∧ milliseconds ≤ 253402300799999 := by
  have hfirst : Date.dayNumber ⟨0, 1, 1⟩ = -719528 := by decide
  have hlast : Date.dayNumber ⟨10000, 1, 1⟩ = 2932897 := by decide
  have hlower := Date.dateOf_year_lt_iff (milliseconds / 86400000) 0
  have hupper := Date.dateOf_year_lt_iff (milliseconds / 86400000) 10000
  rw [hfirst] at hlower
  rw [hlast] at hupper
  unfold YearPrintable timestampDate
  omega

theorem appendTimestamp_iff (unixMilliseconds : Int64) {output : RecordBuffer}
    (hroom : output.view.length + 24 ≤ recordCapacity) :
    (appendTimestamp unixMilliseconds output).1 = true ↔
      YearPrintable unixMilliseconds.toInt := by
  constructor
  · intro hsuccess
    by_contra hyear
    have hfails := appendTimestamp_fails unixMilliseconds hyear output
    rw [hfails] at hsuccess
    exact Bool.false_ne_true hsuccess
  · intro hyear
    rw [(appendTimestamp_writes unixMilliseconds hyear output).1, timestampText_length hyear]
    exact hroom

theorem yearPrintable_of_appendTimestamp {unixMilliseconds : Int64} {output : RecordBuffer}
    (hsuccess : (appendTimestamp unixMilliseconds output).1 = true) :
    YearPrintable unixMilliseconds.toInt := by
  by_contra hyear
  have hfails := appendTimestamp_fails unixMilliseconds hyear output
  rw [hfails] at hsuccess
  exact Bool.false_ne_true hsuccess

theorem view_appendTimestamp {unixMilliseconds : Int64} {output : RecordBuffer}
    (hsuccess : (appendTimestamp unixMilliseconds output).1 = true) :
    (appendTimestamp unixMilliseconds output).2.view =
      output.view ++ timestampText unixMilliseconds.toInt :=
  (appendTimestamp_writes unixMilliseconds (yearPrintable_of_appendTimestamp hsuccess) output).2
    hsuccess

/-- The signed arithmetic of `AppendTimestamp`: seconds and milliseconds, or
nothing when an operation overflows. -/
def normalize (unixMilliseconds : Int64) : Option (Int64 × Int64) := do
  let seconds ← Checked.div unixMilliseconds 1000
  let milliseconds ← Checked.mod unixMilliseconds 1000
  if milliseconds.toInt < 0 then
    let earlier ← Checked.sub seconds 1
    let positive ← Checked.add milliseconds 1000
    some (earlier, positive)
  else some (seconds, milliseconds)

/-- `AppendTimestamp` with its arithmetic checked for overflow. -/
def appendTimestampChecked (unixMilliseconds : Int64) (output : RecordBuffer) :
    Option (Bool × RecordBuffer) := do
  let (seconds, milliseconds) ← normalize unixMilliseconds
  match gmtime seconds.toInt with
  | none => some (false, output)
  | some utc =>
      if utc.year < 0 - 1900 ∨ utc.year > 9999 - 1900 then some (false, output)
      else
        let text := printTimestamp (utc.year + 1900) (utc.mon + 1) utc.mday utc.hour
          utc.min utc.sec milliseconds.toInt
        if text.length ≠ 24 then some (false, output) else some (output.append (text.take 24))

/-- The correction of a negative remainder never leaves the range. -/
theorem exists_normalize (unixMilliseconds : Int64) :
    ∃ seconds milliseconds : Int64, normalize unixMilliseconds = some (seconds, milliseconds) ∧
      seconds.toInt = unixMilliseconds.toInt / 1000 ∧
      milliseconds.toInt = unixMilliseconds.toInt % 1000 := by
  have hlower := unixMilliseconds.le_toInt
  have hupper := unixMilliseconds.toInt_lt
  have hone : (1 : Int64).toInt = 1 := rfl
  have hthousand : (1000 : Int64).toInt = 1000 := rfl
  obtain ⟨hseconds, hmilliseconds⟩ := truncated_to_floor unixMilliseconds.toInt
  obtain ⟨quotient, hdiv, hquotient⟩ :=
    Checked.exists_div unixMilliseconds (by rw [hthousand]; omega)
  obtain ⟨remainder, hmod, hremainder⟩ :=
    Checked.exists_mod unixMilliseconds (by rw [hthousand]; omega)
  rw [hthousand] at hquotient hremainder
  rw [← hquotient, ← hremainder] at hseconds
  rw [← hremainder] at hmilliseconds
  unfold normalize
  simp only [hdiv, hmod, Option.bind_eq_bind, Option.bind_some]
  by_cases hnegative : remainder.toInt < 0
  · rw [if_pos hnegative] at hseconds hmilliseconds ⊢
    obtain ⟨earlier, hsub, hearlier⟩ := Checked.exists_exact
      (by omega : -2 ^ 63 ≤ quotient.toInt - (1 : Int64).toInt) (by omega)
    obtain ⟨positive, hadd, hpositive⟩ := Checked.exists_exact
      (by omega : -2 ^ 63 ≤ remainder.toInt + (1000 : Int64).toInt) (by omega)
    refine ⟨earlier, positive, ?_, ?_, ?_⟩
    · unfold Checked.sub Checked.add
      simp only [hsub, hadd, Option.bind_some]
    · rw [hearlier, hone, hseconds]
    · rw [hpositive, hthousand, hmilliseconds]
  · rw [if_neg hnegative] at hseconds hmilliseconds ⊢
    exact ⟨quotient, remainder, rfl, hseconds, hmilliseconds⟩

/-- No operation of `AppendTimestamp` overflows. -/
theorem appendTimestampChecked_eq (unixMilliseconds : Int64) (output : RecordBuffer) :
    appendTimestampChecked unixMilliseconds output =
      some (appendTimestamp unixMilliseconds output) := by
  obtain ⟨seconds, milliseconds, hnormalize, hseconds, hmilliseconds⟩ :=
    exists_normalize unixMilliseconds
  obtain ⟨hquotient, hremainder⟩ := truncated_to_floor unixMilliseconds.toInt
  unfold appendTimestampChecked
  dsimp only [appendTimestamp]
  rw [hnormalize, hquotient, hremainder, Option.bind_eq_bind, Option.bind_some]
  dsimp only
  rw [hseconds, hmilliseconds]
  cases gmtime (unixMilliseconds.toInt / 1000) with
  | none => rfl
  | some utc =>
      dsimp only
      split_ifs <;> rfl

/-- A successful `Read` publishes the floor of the clock and the positive IDs; a
failed one changes nothing. -/
private theorem read_exact (clock : Option Timespec) (processId : Int32) (threadId : Int64)
    (metadata : RuntimeMetadata) : ∃ success metadata',
      read clock processId threadId metadata = some (success, metadata') ∧
      (success = true → 0 < processId.toInt ∧ 0 < threadId.toInt ∧
        metadata'.processId.toInt = processId.toInt ∧ metadata'.threadId = threadId ∧
        ∃ timestamp, clock = some timestamp ∧ metadata'.unixMilliseconds.toInt =
          (timestamp.seconds.toInt * 10 ^ 9 + timestamp.nanoseconds.toInt) / 10 ^ 6) ∧
      (success = false → metadata' = metadata) := by
  cases clock with
  | none => exact ⟨false, metadata, rfl, fun h => absurd h Bool.false_ne_true, fun _ => rfl⟩
  | some timestamp =>
      rw [read_some]
      by_cases hreadable : Readable timestamp processId threadId
      · rw [if_pos hreadable]
        refine ⟨true, _, rfl, fun _ => ?_, fun h => absurd h.symm Bool.false_ne_true⟩
        exact ⟨hreadable.1, hreadable.2.1, Int32.toInt_toInt64 processId, rfl, timestamp, rfl,
          toInt_floorMilliseconds hreadable⟩
      · rw [if_neg hreadable]
        exact ⟨false, metadata, rfl, fun h => absurd h Bool.false_ne_true, fun _ => rfl⟩

/-- `AppendTimestamp` accepts the instants of the years 0 to 9999 and appends a
text that denotes the instant. -/
private theorem append_exact (unixMilliseconds : Int64) (output : RecordBuffer) :
    ∃ success output', appendTimestampChecked unixMilliseconds output = some (success, output') ∧
      (output.view.length + 24 ≤ recordCapacity →
        (success = true ↔ -62167219200000 ≤ unixMilliseconds.toInt ∧
          unixMilliseconds.toInt ≤ 253402300799999)) ∧
      (success = true → ∃ time : CivilTime, time.unixMilliseconds = unixMilliseconds.toInt ∧
        time.text.length = 24 ∧ output'.view = output.view ++ time.text) := by
  refine ⟨(appendTimestamp unixMilliseconds output).1, (appendTimestamp unixMilliseconds output).2,
    appendTimestampChecked_eq unixMilliseconds output, ?_, ?_⟩
  · intro hroom
    rw [appendTimestamp_iff unixMilliseconds hroom, yearPrintable_iff]
  · intro hsuccess
    have hyear := yearPrintable_of_appendTimestamp hsuccess
    refine ⟨.ofUnixMilliseconds _ hyear, CivilTime.unixMilliseconds_of hyear,
      CivilTime.text_length _, ?_⟩
    rw [view_appendTimestamp hsuccess, CivilTime.text_of]

/-- Every instant of these years passes both guards. -/
private theorem readable_of_printable {timestamp : Timespec} {processId : Int32}
    {threadId : Int64} (hprocess : 0 < processId.toInt) (hthread : 0 < threadId.toInt)
    (hlower : -62167219200 ≤ timestamp.seconds.toInt)
    (hupper : timestamp.seconds.toInt < 253402300800) :
    Readable timestamp processId threadId ∧ -62167219200000 ≤ timestamp.floorMilliseconds ∧
      timestamp.floorMilliseconds ≤ 253402300799999 := by
  have hnonneg := timestamp.nanoseconds_nonneg
  have hlt := timestamp.nanoseconds_lt
  have hfloor := floorMilliseconds_eq timestamp
  have hlow : -62167219200000 ≤ timestamp.floorMilliseconds := by omega
  have hhigh : timestamp.floorMilliseconds ≤ 253402300799999 := by omega
  exact ⟨⟨hprocess, hthread, by omega, by omega⟩, hlow, hhigh⟩

/-- The pipeline from the clock to the text is exact and free of overflow. -/
theorem timestamp_pipeline_exact :
    (∀ (clock : Option Timespec) (processId : Int32) (threadId : Int64)
        (metadata : RuntimeMetadata), ∃ success metadata',
      read clock processId threadId metadata = some (success, metadata') ∧
      (success = true → 0 < processId.toInt ∧ 0 < threadId.toInt ∧
        metadata'.processId.toInt = processId.toInt ∧ metadata'.threadId = threadId ∧
        ∃ timestamp, clock = some timestamp ∧ metadata'.unixMilliseconds.toInt =
          (timestamp.seconds.toInt * 10 ^ 9 + timestamp.nanoseconds.toInt) / 10 ^ 6) ∧
      (success = false → metadata' = metadata)) ∧
    (∀ (unixMilliseconds : Int64) (output : RecordBuffer), ∃ success output',
      appendTimestampChecked unixMilliseconds output = some (success, output') ∧
      (output.view.length + 24 ≤ recordCapacity →
        (success = true ↔ -62167219200000 ≤ unixMilliseconds.toInt ∧
          unixMilliseconds.toInt ≤ 253402300799999)) ∧
      (success = true → ∃ time : CivilTime, time.unixMilliseconds = unixMilliseconds.toInt ∧
        time.text.length = 24 ∧ output'.view = output.view ++ time.text)) ∧
    (∀ (timestamp : Timespec) (processId : Int32) (threadId : Int64)
        (metadata : RuntimeMetadata) (output : RecordBuffer),
      0 < processId.toInt → 0 < threadId.toInt → -62167219200 ≤ timestamp.seconds.toInt →
      timestamp.seconds.toInt < 253402300800 → output.view.length + 24 ≤ recordCapacity →
      ∃ metadata' output', ∃ time : CivilTime,
        read (some timestamp) processId threadId metadata = some (true, metadata') ∧
        appendTimestampChecked metadata'.unixMilliseconds output = some (true, output') ∧
        output'.view = output.view ++ time.text ∧ time.unixMilliseconds =
          (timestamp.seconds.toInt * 10 ^ 9 + timestamp.nanoseconds.toInt) / 10 ^ 6) := by
  refine ⟨read_exact, append_exact, ?_⟩
  intro timestamp processId threadId metadata output hprocess hthread hlower hupper hroom
  obtain ⟨hreadable, hlow, hhigh⟩ := readable_of_printable hprocess hthread hlower hupper
  have hvalue := toInt_floorMilliseconds hreadable
  obtain ⟨success, output', happend, hiff, htext⟩ :=
    append_exact (Int64.ofInt timestamp.floorMilliseconds) output
  rw [hvalue] at hiff htext
  have hsuccess := (hiff hroom).mpr ⟨hlow, hhigh⟩
  obtain ⟨time, htime, -, hview⟩ := htext hsuccess
  rw [hsuccess] at happend
  let metadata' : RuntimeMetadata :=
    ⟨Int64.ofInt timestamp.floorMilliseconds, processId.toInt64, threadId⟩
  have hread : read (some timestamp) processId threadId metadata = some (true, metadata') := by
    rw [read_some, if_pos hreadable]
  exact ⟨metadata', output', time, hread, happend, hview, htime⟩

end AdaptivePi.Log
