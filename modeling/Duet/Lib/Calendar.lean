import Mathlib.Tactic.Common

/-!
# The calendar

A point in time is a number of microseconds since the start of 1970. In the proleptic Gregorian
calendar it has a date and a time of day; the calendar repeats itself every 400 years, and a leap day
is the last day of a year that begins in March.

## Main definitions

* `daysOfDate`, `dateOfDays` — the days since the start of 1970 that a date is, and back.
* `Civil` — a date and a time of day.
* `Civil.toMicros`, `Civil.ofMicros` — the point in time, and back.

## Main results

* `daysOfDate_dateOfDays`, `Civil.toMicros_ofMicros` — nothing is lost.
-/

namespace Lib

/-! ## Dates -/

/-- A date; also a month or a day out of its range, which is carried over. -/
structure Date where
  year : Int
  month : Int
  day : Int
  deriving DecidableEq, Repr

/-- A day of the 146097 days of 400 years, the first of which is the first of March of a year. -/
structure MarchDate where
  era : Int
  yearOfEra : Int
  dayOfYear : Int

namespace MarchDate

/-- `719468` is the number of days from the first of March of the year 0 to the start of 1970. -/
def toDays (d : MarchDate) : Int :=
  d.era * 146097 + (365 * d.yearOfEra + d.yearOfEra / 4 - d.yearOfEra / 100) + d.dayOfYear - 719468

def ofDays (days : Int) : MarchDate :=
  let dayOfEra := (days + 719468) % 146097
  -- the last century and the last year of four are a day longer
  let century := min (dayOfEra / 36524) 3
  let dayOfCentury := dayOfEra - century * 36524
  let dayOfFour := dayOfCentury % 1461
  let yearOfFour := min (dayOfFour / 365) 3
  ⟨(days + 719468) / 146097, 100 * century + 4 * (dayOfCentury / 1461) + yearOfFour,
    dayOfFour - yearOfFour * 365⟩

/-- The leap years before the year of a century. -/
theorem leapYears_eq (century : Int) {four year : Int} (hfour : 0 ≤ four ∧ four ≤ 24)
    (hyear : 0 ≤ year ∧ year ≤ 3) : (100 * century + 4 * four + year) / 4 = 25 * century + four ∧
      (100 * century + 4 * four + year) / 100 = century := by
  omega

theorem toDays_ofDays (days : Int) : (ofDays days).toDays = days := by
  have hera : 0 ≤ (days + 719468) % 146097 ∧ (days + 719468) % 146097 < 146097 := by omega
  have hdays : (days + 719468) / 146097 * 146097 + (days + 719468) % 146097 = days + 719468 := by
    omega
  simp only [toDays, ofDays]
  generalize (days + 719468) % 146097 = dayOfEra at *
  generalize (days + 719468) / 146097 = era at *
  have hcentury : 0 ≤ dayOfEra - min (dayOfEra / 36524) 3 * 36524 ∧
      dayOfEra - min (dayOfEra / 36524) 3 * 36524 < 36525 := by omega
  generalize min (dayOfEra / 36524) 3 = century at *
  generalize hcenturyDay : dayOfEra - century * 36524 = dayOfCentury at *
  have hfour : 0 ≤ dayOfCentury / 1461 ∧ dayOfCentury / 1461 ≤ 24 := by omega
  have hyear : 0 ≤ min (dayOfCentury % 1461 / 365) 3 ∧ min (dayOfCentury % 1461 / 365) 3 ≤ 3 := by
    omega
  obtain ⟨hleap, hskipped⟩ := leapYears_eq century hfour hyear
  rw [hleap, hskipped]
  generalize min (dayOfCentury % 1461 / 365) 3 = year at *
  omega

theorem yearOfEra_ofDays (days : Int) :
    0 ≤ (ofDays days).yearOfEra ∧ (ofDays days).yearOfEra < 400 := by
  simp only [ofDays]
  omega

theorem dayOfYear_ofDays (days : Int) :
    0 ≤ (ofDays days).dayOfYear ∧ (ofDays days).dayOfYear < 366 := by
  simp only [ofDays]
  omega

end MarchDate

/-- The days before a month of a year that begins in March, the first of which is `0`. -/
def daysBeforeMarchMonth (month : Int) : Int := (153 * month + 2) / 5

/-- The month of a day of a year that begins in March. -/
def marchMonthOf (dayOfYear : Int) : Int := (5 * dayOfYear + 2) / 153

theorem marchMonthOf_bounds {dayOfYear : Int} (h : 0 ≤ dayOfYear ∧ dayOfYear < 366) :
    (0 ≤ marchMonthOf dayOfYear ∧ marchMonthOf dayOfYear < 12) ∧
      0 ≤ dayOfYear - daysBeforeMarchMonth (marchMonthOf dayOfYear) ∧
        dayOfYear - daysBeforeMarchMonth (marchMonthOf dayOfYear) < 31 := by
  simp only [marchMonthOf, daysBeforeMarchMonth]
  omega

def daysOfDate (date : Date) : Int :=
  let year := date.year + (date.month - 1) / 12
  let month := (date.month - 1) % 12
  -- January and February belong to the year that began before
  let marchYear := if month < 2 then year - 1 else year
  MarchDate.toDays ⟨marchYear / 400, marchYear % 400,
    daysBeforeMarchMonth ((month + 10) % 12) + (date.day - 1)⟩

def dateOfDays (days : Int) : Date :=
  let marchDate := MarchDate.ofDays days
  let marchMonth := marchMonthOf marchDate.dayOfYear
  let marchYear := 400 * marchDate.era + marchDate.yearOfEra
  let day := marchDate.dayOfYear - daysBeforeMarchMonth marchMonth + 1
  if marchMonth < 10 then ⟨marchYear, marchMonth + 3, day⟩ else ⟨marchYear + 1, marchMonth - 9, day⟩

/-- A month from March on is in the year that begins with it, one before March in the next. -/
theorem daysOfDate_eq {d : MarchDate} (hyear : 0 ≤ d.yearOfEra ∧ d.yearOfEra < 400) {month : Int}
    (hmonth : 0 ≤ month ∧ month < 12) :
    daysOfDate (if month < 10
      then ⟨400 * d.era + d.yearOfEra, month + 3, d.dayOfYear - daysBeforeMarchMonth month + 1⟩
      else ⟨400 * d.era + d.yearOfEra + 1, month - 9,
        d.dayOfYear - daysBeforeMarchMonth month + 1⟩) = d.toDays := by
  have hdays : daysBeforeMarchMonth month + (d.dayOfYear - daysBeforeMarchMonth month + 1 - 1) =
      d.dayOfYear := by omega
  have hera : (400 * d.era + d.yearOfEra) / 400 = d.era ∧
      (400 * d.era + d.yearOfEra) % 400 = d.yearOfEra := by omega
  split_ifs with hmarch
  · have hcarried : (month + 3 - 1) / 12 = 0 ∧ ¬(month + 3 - 1) % 12 < 2 ∧
        ((month + 3 - 1) % 12 + 10) % 12 = month := by omega
    simp only [daysOfDate, hcarried, if_false, Int.add_zero, hera, hdays]
  · have hcarried : (month - 9 - 1) / 12 = 0 ∧ (month - 9 - 1) % 12 < 2 ∧
        ((month - 9 - 1) % 12 + 10) % 12 = month := by omega
    have hyears : 400 * d.era + d.yearOfEra + 1 - 1 = 400 * d.era + d.yearOfEra := by omega
    simp only [daysOfDate, hcarried, if_true, Int.add_zero, hyears, hera, hdays]

theorem daysOfDate_dateOfDays (days : Int) : daysOfDate (dateOfDays days) = days := by
  obtain ⟨hmonth, -⟩ := marchMonthOf_bounds (MarchDate.dayOfYear_ofDays days)
  exact (daysOfDate_eq (MarchDate.yearOfEra_ofDays days) hmonth).trans
    (MarchDate.toDays_ofDays days)

theorem dateOfDays_bounds (days : Int) :
    (1 ≤ (dateOfDays days).month ∧ (dateOfDays days).month ≤ 12) ∧
      1 ≤ (dateOfDays days).day ∧ (dateOfDays days).day ≤ 31 := by
  obtain ⟨⟨hmonth, hmonth'⟩, hday, hday'⟩ :=
    marchMonthOf_bounds (MarchDate.dayOfYear_ofDays days)
  simp only [dateOfDays]
  split_ifs <;> dsimp only <;> omega

/-! ## Dates with a time of day -/

/-- A date and a time of day; also with values out of their ranges, which are carried over. -/
structure Civil where
  date : Date
  hour : Int
  minute : Int
  second : Int
  microsecond : Int
  deriving DecidableEq, Repr

namespace Civil

def toMicros (t : Civil) : Int :=
  (((daysOfDate t.date * 24 + t.hour) * 60 + t.minute) * 60 + t.second) * 1000000 + t.microsecond

def ofMicros (micros : Int) : Civil :=
  let seconds := micros / 1000000
  ⟨dateOfDays (seconds / 86400), seconds % 86400 / 3600, seconds % 3600 / 60, seconds % 60,
    micros % 1000000⟩

theorem toMicros_ofMicros (micros : Int) : (ofMicros micros).toMicros = micros := by
  simp only [toMicros, ofMicros, daysOfDate_dateOfDays]
  omega

/-- The parts of a date and a time of day are in their ranges. -/
structure InRange (t : Civil) : Prop where
  month : 1 ≤ t.date.month ∧ t.date.month ≤ 12
  day : 1 ≤ t.date.day ∧ t.date.day ≤ 31
  hour : 0 ≤ t.hour ∧ t.hour < 24
  minute : 0 ≤ t.minute ∧ t.minute < 60
  second : 0 ≤ t.second ∧ t.second < 60
  microsecond : 0 ≤ t.microsecond ∧ t.microsecond < 1000000

theorem inRange_ofMicros (micros : Int) : (ofMicros micros).InRange := by
  obtain ⟨hmonth, hday⟩ := dateOfDays_bounds (micros / 1000000 / 86400)
  constructor <;> simp only [ofMicros] <;> omega

/-- A year of six digits, some 300000 years from now. -/
theorem natAbs_year_ofMicros {micros : Int} (h : micros.natAbs < 10000000000000000000) :
    (ofMicros micros).date.year.natAbs < 1000000 := by
  have hyear := MarchDate.yearOfEra_ofDays (micros / 1000000 / 86400)
  have hera : (MarchDate.ofDays (micros / 1000000 / 86400)).era =
      (micros / 1000000 / 86400 + 719468) / 146097 := rfl
  have hbounds : -800 ≤ (micros / 1000000 / 86400 + 719468) / 146097 ∧
      (micros / 1000000 / 86400 + 719468) / 146097 ≤ 800 := by omega
  simp only [ofMicros, dateOfDays]
  split_ifs <;> dsimp only <;> omega

end Civil

end Lib
