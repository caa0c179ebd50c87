import AdaptivePi.Log.TimestampPipeline

namespace AdaptivePi.Log

open Foundation

namespace CivilTime

private theorem toNat_lt {m n : Int} (hm : 0 ≤ m) (hlt : m < n) : m.toNat < n.toNat := by omega

/-- A later date comes first in every comparison of fields. -/
theorem values_lt_of_date {time time' : CivilTime} (hbefore : time.date.Before time'.date) :
    time.values < time'.values := by
  obtain ⟨hm1, -, hd1, -⟩ := time.date_valid
  have hyear := time.year_nonneg
  unfold values
  simp only [List.cons_lt_cons_iff]
  rcases hbefore with hlt | ⟨heq, hlt | ⟨heq', hlt⟩⟩
  · exact .inl (toNat_lt hyear hlt)
  · refine .inr ⟨by rw [heq], .inl (toNat_lt (by omega) hlt)⟩
  · refine .inr ⟨by rw [heq], .inr ⟨by rw [heq'], .inl (toNat_lt (by omega) hlt)⟩⟩

/-- On one date the time of day decides. -/
theorem values_lt_of_time {time time' : CivilTime} (hdate : time.date = time'.date)
    (hlt : time.unixMilliseconds < time'.unixMilliseconds) : time.values < time'.values := by
  have hminute := time.minute_lt
  have hsecond := time.second_lt
  have hmillisecond := time.millisecond_lt
  have hminute' := time'.minute_lt
  have hsecond' := time'.second_lt
  have hmillisecond' := time'.millisecond_lt
  unfold unixMilliseconds at hlt
  rw [hdate] at hlt
  unfold values
  simp only [List.cons_lt_cons_iff, hdate, true_and, List.not_lt_nil, and_false, or_false]
  omega

theorem values_lt {time time' : CivilTime}
    (hlt : time.unixMilliseconds < time'.unixMilliseconds) : time.values < time'.values := by
  rcases Date.before_trichotomy time.date time'.date with hbefore | hsame | hafter
  · exact values_lt_of_date hbefore
  · exact values_lt_of_time hsame hlt
  · have hdays := Date.dayNumber_lt_of_before time'.date_valid time.date_valid hafter
    have hhour := time'.hour_lt
    have hminute := time'.minute_lt
    have hsecond := time'.second_lt
    have hmillisecond := time'.millisecond_lt
    unfold unixMilliseconds at hlt
    omega

theorem text_lt {time time' : CivilTime}
    (hlt : time.unixMilliseconds < time'.unixMilliseconds) : time.text < time'.text :=
  Layout.text_lt time.fits time'.fits (values_lt hlt)

end CivilTime

/-- Later times have later texts. -/
theorem timestampText_lt {a b : Int} (ha : YearPrintable a) (hb : YearPrintable b) (hlt : a < b) :
    timestampText a < timestampText b := by
  rw [← CivilTime.text_of ha, ← CivilTime.text_of hb]
  apply CivilTime.text_lt
  rw [CivilTime.unixMilliseconds_of, CivilTime.unixMilliseconds_of]
  exact hlt

/-- The bytes that `AppendTimestamp` adds to a buffer. -/
def appendedTimestamp (unixMilliseconds : Int64) (output : RecordBuffer) : Bytes :=
  (appendTimestamp unixMilliseconds output).2.view.drop output.view.length

theorem appendedTimestamp_eq {unixMilliseconds : Int64} {output : RecordBuffer}
    (hsuccess : (appendTimestamp unixMilliseconds output).1 = true) :
    appendedTimestamp unixMilliseconds output = timestampText unixMilliseconds.toInt := by
  unfold appendedTimestamp
  rw [view_appendTimestamp hsuccess, List.drop_left]

/-- Accepted timestamps sort as texts the way they sort in time. -/
theorem appendedTimestamp_lt_iff {a b : Int64} {output output' : RecordBuffer}
    (ha : (appendTimestamp a output).1 = true) (hb : (appendTimestamp b output').1 = true) :
    (appendedTimestamp a output).length = 24 ∧ (appendedTimestamp b output').length = 24 ∧
      (appendedTimestamp a output < appendedTimestamp b output' ↔ a < b) := by
  have hyear := yearPrintable_of_appendTimestamp ha
  have hyear' := yearPrintable_of_appendTimestamp hb
  rw [appendedTimestamp_eq ha, appendedTimestamp_eq hb, Int64.lt_iff_toInt_lt]
  refine ⟨timestampText_length hyear, timestampText_length hyear', ?_⟩
  constructor
  · intro htext
    rcases lt_trichotomy a.toInt b.toInt with hlt | heq | hgt
    · exact hlt
    · rw [heq] at htext
      exact absurd htext (List.lt_irrefl _)
    · exact absurd (timestampText_lt hyear' hyear hgt) (List.lt_asymm htext)
  · exact timestampText_lt hyear hyear'

/-- The last millisecond before the epoch and the epoch. -/
theorem appendedTimestamp_across_epoch :
    appendedTimestamp (-1) .empty < appendedTimestamp 0 .empty := by
  have hroom : RecordBuffer.empty.view.length + 24 ≤ recordCapacity := by
    rw [RecordBuffer.view_empty]
    decide
  have hbefore : (appendTimestamp (-1) .empty).1 = true :=
    (appendTimestamp_iff (-1) hroom).mpr (by decide)
  have hepoch : (appendTimestamp 0 .empty).1 = true :=
    (appendTimestamp_iff 0 hroom).mpr (by decide)
  exact (appendedTimestamp_lt_iff hbefore hepoch).2.2.mpr (by decide)

end AdaptivePi.Log
