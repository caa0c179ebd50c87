import AdaptivePi.Foundation.Calendar
import Mathlib.Order.Monotone.Basic
import Mathlib.Data.Int.SuccPred

namespace AdaptivePi.Foundation

namespace Date

/-- The order of the calendar: by year, then by month, then by day. -/
def Before (a b : Date) : Prop :=
  a.year < b.year ∨ a.year = b.year ∧ (a.month < b.month ∨ a.month = b.month ∧ a.day < b.day)

/-- Months numbered through all years, January of year zero being 0. -/
def monthIndex (date : Date) : Int := 12 * date.year + (date.month - 1)

/-- The first day of a month given by its number. -/
def monthStart (index : Int) : Date := ⟨index / 12, index % 12 + 1, 1⟩

theorem monthLength_pos (year month : Int) : 28 ≤ monthLength year month := by
  unfold monthLength
  split_ifs <;> omega

theorem monthStart_monthIndex {date : Date} (hvalid : date.Valid) :
    monthStart date.monthIndex = { date with day := 1 } := by
  obtain ⟨hm1, hm12, -, -⟩ := hvalid
  have hyear : date.monthIndex / 12 = date.year := by
    unfold monthIndex
    omega
  have hmonth : date.monthIndex % 12 + 1 = date.month := by
    unfold monthIndex
    omega
  unfold monthStart
  rw [hyear, hmonth]

/-- Inside a month, days are counted from its first day. -/
theorem dayNumber_day (year month day : Int) :
    dayNumber ⟨year, month, day⟩ = dayNumber ⟨year, month, 1⟩ + (day - 1) := by
  simp only [dayNumber]
  omega

theorem dayNumber_eq_monthStart {date : Date} (hvalid : date.Valid) :
    dayNumber date = dayNumber (monthStart date.monthIndex) + (date.day - 1) := by
  rw [monthStart_monthIndex hvalid]
  exact dayNumber_day date.year date.month date.day

private theorem nextDay_of_last (year month : Int) :
    nextDay ⟨year, month, monthLength year month⟩ =
      if month < 12 then ⟨year, month + 1, 1⟩ else ⟨year + 1, 1, 1⟩ := by
  simp [nextDay]

/-- A month ends where the next one starts. -/
theorem dayNumber_monthStart_succ (index : Int) :
    dayNumber (monthStart (index + 1)) =
      dayNumber (monthStart index) + monthLength (index / 12) (index % 12 + 1) := by
  have hlength := monthLength_pos (index / 12) (index % 12 + 1)
  have hlast : Valid ⟨index / 12, index % 12 + 1, monthLength (index / 12) (index % 12 + 1)⟩ := by
    refine ⟨?_, ?_, ?_, ?_⟩ <;> simp only <;> omega
  have hnext : nextDay ⟨index / 12, index % 12 + 1, monthLength (index / 12) (index % 12 + 1)⟩ =
      monthStart (index + 1) := by
    rw [nextDay_of_last]
    unfold monthStart
    by_cases hdecember : index % 12 + 1 < 12
    · have hyear : (index + 1) / 12 = index / 12 := by omega
      have hmonth : (index + 1) % 12 = index % 12 + 1 := by omega
      rw [if_pos hdecember, hyear, hmonth]
    · have hyear : (index + 1) / 12 = index / 12 + 1 := by omega
      have hmonth : (index + 1) % 12 = 0 := by omega
      rw [if_neg hdecember, hyear, hmonth]
      rfl
  rw [← hnext, dayNumber_nextDay _ hlast, dayNumber_day]
  unfold monthStart
  omega

/-- Months are numbered in order. -/
theorem dayNumber_monthStart_lt {index index' : Int} (hlt : index < index') :
    dayNumber (monthStart index) < dayNumber (monthStart index') := by
  have hmono : StrictMono fun index => dayNumber (monthStart index) := by
    apply strictMono_int_of_lt_succ
    intro index
    have hlength := monthLength_pos (index / 12) (index % 12 + 1)
    have hsucc := dayNumber_monthStart_succ index
    simp only [hsucc]
    omega
  exact hmono hlt

/-- An earlier date has a smaller number. -/
theorem dayNumber_lt_of_before {a b : Date} (ha : a.Valid) (hb : b.Valid) (hbefore : a.Before b) :
    dayNumber a < dayNumber b := by
  have hcount := dayNumber_eq_monthStart ha
  have hcount' := dayNumber_eq_monthStart hb
  obtain ⟨ham1, ham12, had1, had⟩ := ha
  obtain ⟨hbm1, hbm12, hbd1, -⟩ := hb
  have hindex : a.monthIndex < b.monthIndex ∨ a.monthIndex = b.monthIndex ∧ a.day < b.day := by
    unfold monthIndex
    unfold Before at hbefore
    omega
  rcases hindex with hmonth | ⟨hmonth, hday⟩
  · have hle : dayNumber (monthStart (a.monthIndex + 1)) ≤ dayNumber (monthStart b.monthIndex) := by
      rcases (show a.monthIndex + 1 ≤ b.monthIndex by omega).lt_or_eq with hlt | heq
      · exact (dayNumber_monthStart_lt hlt).le
      · rw [heq]
    have hsucc := dayNumber_monthStart_succ a.monthIndex
    have hyear : a.monthIndex / 12 = a.year := by
      unfold monthIndex
      omega
    have hmonth : a.monthIndex % 12 + 1 = a.month := by
      unfold monthIndex
      omega
    rw [hyear, hmonth] at hsucc
    omega
  · rw [hmonth] at hcount
    omega

/-- The order of the calendar is total. -/
theorem before_trichotomy (a b : Date) : a.Before b ∨ a = b ∨ b.Before a := by
  obtain ⟨year, month, day⟩ := a
  obtain ⟨year', month', day'⟩ := b
  simp only [Before, Date.mk.injEq]
  omega

/-- Days are counted in the order of the calendar. -/
theorem dayNumber_lt_iff {a b : Date} (ha : a.Valid) (hb : b.Valid) :
    dayNumber a < dayNumber b ↔ a.Before b := by
  constructor
  · intro hlt
    rcases before_trichotomy a b with hbefore | rfl | hafter
    · exact hbefore
    · omega
    · have := dayNumber_lt_of_before hb ha hafter
      omega
  · exact dayNumber_lt_of_before ha hb

/-- The days before a year are those before its first of January. -/
theorem dateOf_year_lt_iff (days year : Int) :
    (dateOf days).year < year ↔ days < dayNumber ⟨year, 1, 1⟩ := by
  have hlength := monthLength_pos year 1
  have hvalid := dateOf_valid days
  have hfirst : Valid ⟨year, 1, 1⟩ := by
    refine ⟨?_, ?_, ?_, ?_⟩ <;> simp only <;> omega
  have horder := dayNumber_lt_iff hvalid hfirst
  rw [dayNumber_dateOf] at horder
  rw [horder]
  obtain ⟨hm1, -, hd1, -⟩ := hvalid
  unfold Before
  simp only
  omega

end Date

end AdaptivePi.Foundation
