import Mathlib.Tactic.Common
import Mathlib.Tactic.IntervalCases

/-!
The proleptic Gregorian calendar: dates of any year, positive or not, counted
in days from 1970-01-01. `nextDay` is the calendar rule itself; the closed
forms `dayNumber` and `dateOf` count and uncount days along it. Years start
in March inside the closed forms, so that the leap day is the last of the
year.
-/

namespace AdaptivePi.Foundation

structure Date where
  year : Int
  month : Int
  day : Int
  deriving DecidableEq, Repr

namespace Date

def isLeap (year : Int) : Bool :=
  year % 4 = 0 && (year % 100 ≠ 0 || year % 400 = 0)

def monthLength (year month : Int) : Int :=
  if month = 2 then
    if isLeap year then 29 else 28
  else if month = 4 ∨ month = 6 ∨ month = 9 ∨ month = 11 then 30 else 31

def Valid (date : Date) : Prop :=
  1 ≤ date.month ∧ date.month ≤ 12 ∧ 1 ≤ date.day ∧
    date.day ≤ monthLength date.year date.month

def nextDay (date : Date) : Date :=
  if date.day < monthLength date.year date.month then
    { date with day := date.day + 1 }
  else if date.month < 12 then
    { date with month := date.month + 1, day := 1 }
  else
    { year := date.year + 1, month := 1, day := 1 }

/-- Days from the first of March of year zero to the first of March of a later
or earlier year. -/
def daysBeforeYear (marchYear : Int) : Int :=
  marchYear * 365 + marchYear / 4 - marchYear / 100 + marchYear / 400

/-- Days from the first of March to the first of a month, March being 0. -/
def daysBeforeMonth (marchMonth : Int) : Int := (153 * marchMonth + 2) / 5

/-- Days from the epoch to a date. -/
def dayNumber (date : Date) : Int :=
  let marchYear := if date.month ≤ 2 then date.year - 1 else date.year
  let marchMonth := if date.month ≤ 2 then date.month + 9 else date.month - 3
  daysBeforeYear marchYear + daysBeforeMonth marchMonth + (date.day - 1) - 719468

/-- The year that starts in March, and the day of that year counted from zero,
of a day counted from the first of March of year zero. Eras of 400 years,
centuries and groups of four years are cut off in turn; the last century of
an era and the last year of a group are one day longer. -/
def marchYearOf (days : Int) : Int × Int :=
  let era := days / 146097
  let dayOfEra := days % 146097
  let century := min (dayOfEra / 36524) 3
  let dayOfCentury := dayOfEra - century * 36524
  let group := dayOfCentury / 1461
  let dayOfGroup := dayOfCentury % 1461
  let year := min (dayOfGroup / 365) 3
  (era * 400 + century * 100 + group * 4 + year, dayOfGroup - year * 365)

def ofMarchYear (marchYear dayOfYear : Int) : Date :=
  let marchMonth := (5 * dayOfYear + 2) / 153
  let month := if marchMonth < 10 then marchMonth + 3 else marchMonth - 9
  { year := if month ≤ 2 then marchYear + 1 else marchYear
    month := month
    day := dayOfYear - daysBeforeMonth marchMonth + 1 }

/-- The date that many days after the epoch. -/
def dateOf (days : Int) : Date :=
  ofMarchYear (marchYearOf (days + 719468)).1 (marchYearOf (days + 719468)).2

/-- The four counts that `marchYearOf` cuts off. -/
private theorem marchYearOf_counts (days : Int) :
    ∃ era century group year day : Int,
      marchYearOf days = (era * 400 + century * 100 + group * 4 + year, day) ∧
      days = era * 146097 + century * 36524 + group * 1461 + year * 365 + day ∧
      0 ≤ century ∧ century ≤ 3 ∧ 0 ≤ group ∧ group ≤ 24 ∧ 0 ≤ year ∧ year ≤ 3 ∧
      0 ≤ day ∧ day ≤ 365 ∧ (day = 365 → year = 3 ∧ (group < 24 ∨ century = 3)) := by
  refine ⟨_, _, _, _, _, rfl, ?_⟩
  obtain ⟨dayOfEra, hdayOfEra⟩ : ∃ d, d = days % 146097 := ⟨_, rfl⟩
  rw [← hdayOfEra]
  obtain ⟨century, hcentury⟩ : ∃ c, c = min (dayOfEra / 36524) 3 := ⟨_, rfl⟩
  rw [← hcentury]
  obtain ⟨dayOfCentury, hdayOfCentury⟩ : ∃ d, d = dayOfEra - century * 36524 := ⟨_, rfl⟩
  rw [← hdayOfCentury]
  have hcrange : 0 ≤ century ∧ century ≤ 3 ∧ 0 ≤ dayOfCentury ∧ dayOfCentury ≤ 36524 ∧
      (dayOfCentury = 36524 → century = 3) := by omega
  obtain ⟨dayOfGroup, hdayOfGroup⟩ : ∃ d, d = dayOfCentury % 1461 := ⟨_, rfl⟩
  rw [← hdayOfGroup]
  obtain ⟨year, hyear⟩ : ∃ y, y = min (dayOfGroup / 365) 3 := ⟨_, rfl⟩
  rw [← hyear]
  refine ⟨by omega, hcrange.1, hcrange.2.1, ?_⟩
  omega

/-- A year that starts in March ends with a leap day exactly when the calendar
year of its last February is a leap year. -/
theorem marchYearOf_spec (days : Int) :
    daysBeforeYear (marchYearOf days).1 + (marchYearOf days).2 = days ∧
      0 ≤ (marchYearOf days).2 ∧ (marchYearOf days).2 ≤ 365 ∧
      ((marchYearOf days).2 = 365 → isLeap ((marchYearOf days).1 + 1) = true) := by
  obtain ⟨era, century, group, year, day, heq, hdays, hc0, hc3, hg0, hg24, hy0, hy3,
    hd0, hd365, hlong⟩ := marchYearOf_counts days
  rw [heq]
  refine ⟨?_, hd0, hd365, ?_⟩
  · simp only [daysBeforeYear]
    omega
  · intro hday
    obtain ⟨rfl, hgroup⟩ := hlong hday
    simp only [isLeap, Bool.and_eq_true, Bool.or_eq_true, decide_eq_true_eq]
    omega

theorem ofMarchYear_valid (marchYear dayOfYear : Int) (hlower : 0 ≤ dayOfYear)
    (hupper : dayOfYear ≤ 365)
    (hleap : dayOfYear = 365 → isLeap (marchYear + 1) = true) :
    (ofMarchYear marchYear dayOfYear).Valid := by
  obtain ⟨marchMonth, hmonth⟩ : ∃ m, m = (5 * dayOfYear + 2) / 153 := ⟨_, rfl⟩
  simp only [ofMarchYear, Valid, monthLength, daysBeforeMonth, ← hmonth]
  by_cases hten : marchMonth < 10
  · have hmarch : ¬marchMonth + 3 ≤ 2 := by omega
    have htwo : marchMonth + 3 ≠ 2 := by omega
    simp only [hten, hmarch, htwo, if_true, if_false]
    split_ifs <;> omega
  · have hjan : marchMonth - 9 ≤ 2 := by omega
    simp only [hten, hjan, if_true, if_false]
    by_cases htwo : marchMonth - 9 = 2
    · by_cases hday : dayOfYear = 365
      · simp only [htwo, hleap hday, if_true]
        omega
      · split_ifs <;> omega
    · split_ifs <;> omega

/-- Every day has a date. -/
theorem dateOf_valid (days : Int) : (dateOf days).Valid := by
  obtain ⟨-, hlower, hupper, hleap⟩ := marchYearOf_spec (days + 719468)
  exact ofMarchYear_valid _ _ hlower hupper hleap

/-- A date has the number of its day. -/
theorem dayNumber_ofMarchYear (marchYear dayOfYear : Int) (hlower : 0 ≤ dayOfYear)
    (hupper : dayOfYear ≤ 365) :
    dayNumber (ofMarchYear marchYear dayOfYear) =
      daysBeforeYear marchYear + dayOfYear - 719468 := by
  obtain ⟨marchMonth, hmonth⟩ : ∃ m, m = (5 * dayOfYear + 2) / 153 := ⟨_, rfl⟩
  simp only [ofMarchYear, dayNumber, ← hmonth]
  by_cases hten : marchMonth < 10
  · have hmarch : ¬marchMonth + 3 ≤ 2 := by omega
    have hback : marchMonth + 3 - 3 = marchMonth := by omega
    simp only [hten, hmarch, hback, if_true, if_false]
    omega
  · have hjan : marchMonth - 9 ≤ 2 := by omega
    have hback : marchMonth - 9 + 9 = marchMonth := by omega
    have hyear : marchYear + 1 - 1 = marchYear := by omega
    simp only [hten, hjan, hback, hyear, if_true, if_false]
    omega

/-- Counting the days of a date found by `dateOf` gives the days back. -/
theorem dayNumber_dateOf (days : Int) : dayNumber (dateOf days) = days := by
  obtain ⟨hcount, hlower, hupper, -⟩ := marchYearOf_spec (days + 719468)
  unfold dateOf
  rw [dayNumber_ofMarchYear _ _ hlower hupper]
  omega

/-- The length of February closes the gap between two years counted from
March. -/
private theorem daysBeforeYear_succ (year : Int) :
    daysBeforeYear year = daysBeforeYear (year - 1) + 337 + monthLength year 2 := by
  simp only [daysBeforeYear, monthLength, if_true]
  by_cases hleap : isLeap year = true
  · simp only [hleap, if_true]
    simp only [isLeap, Bool.and_eq_true, Bool.or_eq_true, decide_eq_true_eq] at hleap
    omega
  · simp only [hleap]
    simp only [isLeap, Bool.and_eq_true, Bool.or_eq_true, decide_eq_true_eq] at hleap
    simp only [Bool.false_eq_true, if_false]
    omega

/-- One more day is the calendar's next day, so `dayNumber` counts along the
calendar from the epoch. -/
theorem dayNumber_nextDay (date : Date) (hvalid : date.Valid) :
    dayNumber date.nextDay = dayNumber date + 1 := by
  obtain ⟨year, month, day⟩ := date
  obtain ⟨hm1, hm12, hd1, hd⟩ := hvalid
  simp only at hm1 hm12 hd1 hd
  simp only [nextDay]
  by_cases hshort : day < monthLength year month
  · simp only [hshort, if_true, dayNumber]
    omega
  · have hlast : day = monthLength year month := by omega
    by_cases hmonth : month < 12
    · simp only [hshort, hmonth, if_true, if_false, dayNumber]
      have hfeb := daysBeforeYear_succ year
      by_cases htwo : month = 2
      · subst htwo
        simp only [daysBeforeMonth, hlast]
        split_ifs <;> omega
      · have hrest : monthLength year month =
            if month = 4 ∨ month = 6 ∨ month = 9 ∨ month = 11 then 30 else 31 := by
          simp [monthLength, htwo]
        rw [hrest] at hlast
        simp only [daysBeforeMonth]
        clear hfeb hrest hd hshort
        interval_cases month <;> simp_all <;> omega
    · have hdec : month = 12 := by omega
      subst hdec
      have hthirty : monthLength year 12 = 31 := by simp [monthLength]
      rw [hthirty] at hlast hshort
      have hyear : year + 1 - 1 = year := by omega
      simp only [hthirty, hshort, hmonth, hyear, if_false, dayNumber, daysBeforeMonth]
      split_ifs <;> omega

example : dayNumber ⟨1970, 1, 1⟩ = 0 := by decide

end Date

end AdaptivePi.Foundation
