/-
  TokenProxy/CalendarMonth.lean
  =============================
  **The calendar month of an instant, in UTC.**

  Instants are seconds since 1970-01-01.  Years are counted from 1 March, so that a
  leap day is the last day of its year: an era of 400 years has 146097 days, a
  century 36524, four years 1461.  The month is written as `%Y%m` writes it.

  Main result: `lt_of_same_month`, two instants of one month are less than 31 days
  apart.
-/
import TokenProxy.TextReplace

namespace TokenProxy.Calendar

open TokenProxy.TextReplace (toString_injective)

/-! ## 1. Days -/

/-- A day, by its place in the era, the century, the four years, the year from 1 March. -/
structure DayOf where
  era : Nat
  century : Nat
  quad : Nat
  year : Nat
  day : Nat
  century_le : century ≤ 3
  quad_le : quad ≤ 24
  year_le : year ≤ 3
  day_le : day ≤ 365

/-- The days from 1 March of the year 0. -/
def DayOf.number (d : DayOf) : Nat :=
  146097 * d.era + 36524 * d.century + 1461 * d.quad + 365 * d.year + d.day

/-- The last day of an era is still in its fourth century, and the last day of four years
    in the fourth of them. -/
def dayOf (z : Nat) : DayOf :=
  let century := min (z % 146097 / 36524) 3
  let inCentury := z % 146097 - 36524 * century
  let year := min (inCentury % 1461 / 365) 3
  { era := z / 146097
    century := century
    quad := inCentury / 1461
    year := year
    day := inCentury % 1461 - 365 * year
    century_le := by omega
    quad_le := by omega
    year_le := by omega
    day_le := by omega }

theorem number_dayOf (z : Nat) : (dayOf z).number = z := by
  simp only [dayOf, DayOf.number]
  omega

/-! ## 2. Months -/

/-- The month within the year from 1 March: 0 is March, 11 February. -/
def DayOf.monthFromMarch (d : DayOf) : Nat := (5 * d.day + 2) / 153

def DayOf.yearFromMarch (d : DayOf) : Nat := 400 * d.era + 100 * d.century + 4 * d.quad + d.year

def DayOf.calendarMonth (d : DayOf) : Nat :=
  if d.monthFromMarch < 10 then d.monthFromMarch + 3 else d.monthFromMarch - 9

def DayOf.calendarYear (d : DayOf) : Nat :=
  if d.monthFromMarch < 10 then d.yearFromMarch else d.yearFromMarch + 1

/-- The day of an instant; 1970-01-01 is 719468 days after 1 March of the year 0. -/
def gmtime (t : Nat) : DayOf := dayOf (t / 86400 + 719468)

def twoDigits (n : Nat) : List Char := [Nat.digitChar (n / 10), Nat.digitChar (n % 10)]

/-- `time.strftime("%Y%m", time.gmtime(t))`. -/
def yearMonth (t : Nat) : String :=
  .ofList ((toString (gmtime t).calendarYear).toList ++ twoDigits (gmtime t).calendarMonth)

example : yearMonth 0 = "197001" ∧ yearMonth 1709251199 = "202402" ∧
    yearMonth 1709251200 = "202403" ∧ yearMonth 1735689599 = "202412" := by decide +kernel

theorem DayOf.monthFromMarch_le (d : DayOf) : d.monthFromMarch ≤ 11 := by
  have hday := d.day_le
  simp only [monthFromMarch]
  omega

theorem DayOf.calendarMonth_le (d : DayOf) : d.calendarMonth ≤ 12 := by
  have hmonth := d.monthFromMarch_le
  simp only [calendarMonth]
  split
  · omega
  · omega

/-- A year and month of the calendar are those of one year and month counted from March. -/
theorem DayOf.fromMarch_of_calendar {d e : DayOf} (hyear : d.calendarYear = e.calendarYear)
    (hmonth : d.calendarMonth = e.calendarMonth) :
    d.yearFromMarch = e.yearFromMarch ∧ d.monthFromMarch = e.monthFromMarch := by
  have hd := d.monthFromMarch_le
  have he := e.monthFromMarch_le
  simp only [calendarYear, calendarMonth] at hyear hmonth
  by_cases hdm : d.monthFromMarch < 10
  · by_cases hem : e.monthFromMarch < 10
    · simp only [hdm, hem, if_true] at hyear hmonth
      omega
    · simp only [hdm, hem, if_true, if_false] at hyear hmonth
      omega
  · by_cases hem : e.monthFromMarch < 10
    · simp only [hdm, hem, if_true, if_false] at hyear hmonth
      omega
    · simp only [hdm, hem, if_false] at hyear hmonth
      omega

/-- Days of one month: the days before it are the same, and at most 31 are left. -/
theorem DayOf.number_lt {d e : DayOf} (hyear : d.yearFromMarch = e.yearFromMarch)
    (hmonth : d.monthFromMarch = e.monthFromMarch) : e.number < d.number + 31 := by
  have hd := d.century_le
  have hd' := d.quad_le
  have hd'' := d.year_le
  have he := e.century_le
  have he' := e.quad_le
  have he'' := e.year_le
  simp only [yearFromMarch] at hyear
  have hparts : d.era = e.era ∧ d.century = e.century ∧ d.quad = e.quad ∧ d.year = e.year := by
    omega
  have hday : e.day < d.day + 31 := by
    simp only [monthFromMarch] at hmonth
    omega
  simp only [number]
  omega

theorem twoDigits_injective : ∀ m ≤ 12, ∀ n ≤ 12, twoDigits m = twoDigits n → m = n := by
  decide

theorem calendar_of_yearMonth {t u : Nat} (h : yearMonth t = yearMonth u) :
    (gmtime t).calendarYear = (gmtime u).calendarYear ∧
      (gmtime t).calendarMonth = (gmtime u).calendarMonth := by
  have hlength : ∀ n, (twoDigits n).length = 2 := fun _ => rfl
  have hlist := String.ofList_injective h
  obtain ⟨hyear, hmonth⟩ := List.append_inj' hlist (by rw [hlength, hlength])
  constructor
  · exact toString_injective hyear
  · exact twoDigits_injective _ (DayOf.calendarMonth_le _) _ (DayOf.calendarMonth_le _) hmonth

/-- Two instants of one month are less than 31 days apart. -/
theorem lt_of_same_month {t u : Nat} (h : yearMonth t = yearMonth u) : u < t + 31 * 86400 := by
  obtain ⟨hyear, hmonth⟩ := calendar_of_yearMonth h
  obtain ⟨hyear, hmonth⟩ := DayOf.fromMarch_of_calendar hyear hmonth
  have hdays := DayOf.number_lt hyear hmonth
  rw [gmtime, gmtime, number_dayOf, number_dayOf] at hdays
  omega

end TokenProxy.Calendar
