import AdaptivePi.Foundation.CheckedArithmetic
import AdaptivePi.Log.ConsoleRecordFormatter

namespace AdaptivePi.Log

open Foundation

structure Timespec where
  seconds : Int64
  nanoseconds : Int64
  nanoseconds_nonneg : 0 ≤ nanoseconds.toInt
  nanoseconds_lt : nanoseconds.toInt < 1000000000

/-- Whole milliseconds since the epoch, rounded toward the past. -/
def Timespec.floorMilliseconds (timestamp : Timespec) : Int :=
  (timestamp.seconds.toInt * 1000000000 + timestamp.nanoseconds.toInt) / 1000000

/-- `LinuxMetadataProvider::Read`: the result and the caller's metadata
afterwards, or nothing when a signed operation overflows. The clock is absent
when `clock_gettime` fails. -/
def read (clock : Option Timespec) (processId : Int32) (threadId : Int64)
    (metadata : RuntimeMetadata) : Option (Bool × RuntimeMetadata) :=
  match clock with
  | none => some (false, metadata)
  | some timestamp => do
      let milliseconds ← Checked.div timestamp.nanoseconds 1000000
      if processId.toInt > 0 ∧ threadId.toInt > 0 then
        let lowest ← Checked.div Int64.minValue 1000
        if timestamp.seconds.toInt ≥ lowest.toInt then
          let room ← Checked.sub Int64.maxValue milliseconds
          let highest ← Checked.div room 1000
          if timestamp.seconds.toInt ≤ highest.toInt then
            let scaled ← Checked.mul timestamp.seconds 1000
            let unixMilliseconds ← Checked.add scaled milliseconds
            some (true, ⟨unixMilliseconds, processId.toInt64, threadId⟩)
          else some (false, metadata)
        else some (false, metadata)
      else some (false, metadata)

/-- The guard of `Read`, on the seconds in milliseconds. -/
def Readable (timestamp : Timespec) (processId : Int32) (threadId : Int64) : Prop :=
  0 < processId.toInt ∧ 0 < threadId.toInt ∧
    -9223372036854775000 ≤ timestamp.seconds.toInt * 1000 ∧
    timestamp.floorMilliseconds ≤ 9223372036854775807

instance (timestamp : Timespec) (processId : Int32) (threadId : Int64) :
    Decidable (Readable timestamp processId threadId) :=
  inferInstanceAs (Decidable (_ ∧ _ ∧ _ ∧ _))

/-- A fraction of a second is rounded down. -/
theorem floorMilliseconds_eq (timestamp : Timespec) :
    timestamp.floorMilliseconds =
      timestamp.seconds.toInt * 1000 + timestamp.nanoseconds.toInt / 1000000 := by
  unfold Timespec.floorMilliseconds
  omega

private theorem milliseconds_tdiv (timestamp : Timespec) :
    timestamp.nanoseconds.toInt.tdiv 1000000 = timestamp.nanoseconds.toInt / 1000000 :=
  Int.tdiv_eq_ediv_of_nonneg timestamp.nanoseconds_nonneg

/-- The guard admits exactly the seconds whose milliseconds can be published. -/
private theorem highest_iff (timestamp : Timespec) :
    timestamp.seconds.toInt ≤
        (9223372036854775807 - timestamp.nanoseconds.toInt / 1000000).tdiv 1000 ↔
      timestamp.floorMilliseconds ≤ 9223372036854775807 := by
  have hlower := timestamp.nanoseconds_nonneg
  have hupper := timestamp.nanoseconds_lt
  rw [floorMilliseconds_eq, Int.tdiv_eq_ediv_of_nonneg (by omega)]
  omega

/-- `Read` never overflows: it publishes complete metadata when the guard holds,
and leaves the caller's metadata alone otherwise. -/
theorem read_some (timestamp : Timespec) (processId : Int32) (threadId : Int64)
    (metadata : RuntimeMetadata) :
    read (some timestamp) processId threadId metadata =
      some (if Readable timestamp processId threadId then
        (true, ⟨Int64.ofInt timestamp.floorMilliseconds, processId.toInt64, threadId⟩)
        else (false, metadata)) := by
  have hlower := timestamp.nanoseconds_nonneg
  have hupper := timestamp.nanoseconds_lt
  have hmillion : (1000000 : Int64).toInt = 1000000 := rfl
  have hthousand : (1000 : Int64).toInt = 1000 := rfl
  have hmaximum : Int64.maxValue.toInt = 9223372036854775807 := rfl
  have hminimum : (-9223372036854775 : Int64).toInt = -9223372036854775 := rfl
  have hlowest : Checked.div Int64.minValue 1000 = some (-9223372036854775) := by decide
  have hfloor := floorMilliseconds_eq timestamp
  obtain ⟨milliseconds, hdiv, hmilliseconds⟩ :=
    Checked.exists_div timestamp.nanoseconds (by rw [hmillion]; omega)
  rw [hmillion, milliseconds_tdiv] at hmilliseconds
  obtain ⟨room, hsub, hroom⟩ := Checked.exists_exact
    (by omega : -2 ^ 63 ≤ Int64.maxValue.toInt - milliseconds.toInt) (by omega)
  obtain ⟨highest, hdiv', hhighest⟩ := Checked.exists_div room (by rw [hthousand]; omega)
  rw [hthousand, hroom, hmaximum, hmilliseconds] at hhighest
  have hguard := highest_iff timestamp
  rw [← hhighest] at hguard
  unfold read
  simp only [hdiv, hlowest, Option.bind_eq_bind, Option.bind_some]
  by_cases hids : processId.toInt > 0 ∧ threadId.toInt > 0
  · rw [if_pos hids]
    by_cases hlow : timestamp.seconds.toInt ≥ (-9223372036854775 : Int64).toInt
    · rw [if_pos hlow]
      rw [hminimum] at hlow
      unfold Checked.sub
      simp only [hsub, hdiv', Option.bind_some]
      by_cases hhigh : timestamp.seconds.toInt ≤ highest.toInt
      · have hreadable : Readable timestamp processId threadId :=
          ⟨hids.1, hids.2, by omega, hguard.mp hhigh⟩
        obtain ⟨scaled, hmul, hscaled⟩ := Checked.exists_exact
          (by omega : -2 ^ 63 ≤ timestamp.seconds.toInt * 1000) (by omega)
        obtain ⟨total, hadd, htotal⟩ := Checked.exists_exact
          (by omega : -2 ^ 63 ≤ scaled.toInt + milliseconds.toInt) (by omega)
        have hvalue : total = Int64.ofInt timestamp.floorMilliseconds := by
          rw [← Int64.ofInt_toInt total, htotal, hscaled, hmilliseconds, hfloor]
        rw [if_pos hhigh, if_pos hreadable]
        unfold Checked.mul Checked.add
        simp only [hthousand, hmul, hadd, Option.bind_some, hvalue]
      · have hunreadable : ¬Readable timestamp processId threadId :=
          fun h => hhigh (hguard.mpr h.2.2.2)
        rw [if_neg hhigh, if_neg hunreadable]
    · have hunreadable : ¬Readable timestamp processId threadId := by
        rintro ⟨-, -, hseconds, -⟩
        rw [hminimum] at hlow
        omega
      rw [if_neg hlow, if_neg hunreadable]
  · have hunreadable : ¬Readable timestamp processId threadId := fun h => hids ⟨h.1, h.2.1⟩
    rw [if_neg hids, if_neg hunreadable]

/-- The guard of `Read` keeps the result in range. -/
theorem toInt_floorMilliseconds {timestamp : Timespec} {processId : Int32} {threadId : Int64}
    (hreadable : Readable timestamp processId threadId) :
    (Int64.ofInt timestamp.floorMilliseconds).toInt = timestamp.floorMilliseconds := by
  obtain ⟨-, -, hlow, hhigh⟩ := hreadable
  have hlower := timestamp.nanoseconds_nonneg
  have hfloor := floorMilliseconds_eq timestamp
  apply Int64.toInt_ofInt_of_le
  · omega
  · omega

end AdaptivePi.Log
