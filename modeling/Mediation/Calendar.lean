/-!
# The Gregorian calendar

Days are counted from 1970-01-01 in both directions. A year of this count runs
from March to February, so the leap day is the last day of a year; 400 years
have 146097 days. Counting the days of the date of a day gives the day back
(`Calendar.dayOf_dateOf`).
-/

namespace Mediation

/-- A date: the year may be zero or negative, months and days count from one. -/
structure Date where
  year : Int
  month : Int
  day : Int
  deriving DecidableEq, Repr

namespace Calendar

def isLeapYear (y : Int) : Bool := y % 4 = 0 && (y % 100 ≠ 0 || y % 400 = 0)

def daysInMonth (y m : Int) : Int :=
  if m = 2 then (if isLeapYear y then 29 else 28)
  else if m = 4 || m = 6 || m = 9 || m = 11 then 30
  else 31

def isDate (d : Date) : Bool :=
  1 ≤ d.month && d.month ≤ 12 && 1 ≤ d.day && d.day ≤ daysInMonth d.year d.month

/-! ### Months of a year that begins in March -/

def monthsFromMarch (m : Int) : Int := if m ≤ 2 then m + 9 else m - 3

def monthAfterMarch (k : Int) : Int := if k < 10 then k + 3 else k - 9

def daysBeforeMonth (k : Int) : Int := (153 * k + 2) / 5

def monthOfDay (dayOfYear : Int) : Int := (5 * dayOfYear + 2) / 153

theorem monthOfDay_range {n : Int} (h0 : 0 ≤ n) (h1 : n ≤ 365) :
    0 ≤ monthOfDay n ∧ monthOfDay n < 12 := by
  unfold monthOfDay
  omega

theorem monthsFromMarch_monthAfterMarch {k : Int} (h0 : 0 ≤ k) (h1 : k < 12) :
    monthsFromMarch (monthAfterMarch k) = k := by
  unfold monthsFromMarch monthAfterMarch
  split <;> split <;> omega

/-! ### Years of an era of 400 years -/

def daysBeforeYear (y : Int) : Int := 365 * y + y / 4 - y / 100

/-- The century of an era that holds a day of the era; the last century has one day more. -/
def centuryOfDay (dayOfEra : Int) : Int := min (dayOfEra / 36524) 3

/-- The year of a four-year cycle that holds a day of the cycle; the last year has one day more. -/
def yearOfCycleDay (dayOfCycle : Int) : Int := min (dayOfCycle / 365) 3

def yearOfDay (dayOfEra : Int) : Int :=
  let century := centuryOfDay dayOfEra
  let dayOfCentury := dayOfEra - 36524 * century
  100 * century + 4 * (dayOfCentury / 1461) + yearOfCycleDay (dayOfCentury % 1461)

theorem yearOfDay_range {n : Int} (h0 : 0 ≤ n) (h1 : n < 146097) :
    0 ≤ yearOfDay n ∧ yearOfDay n < 400 := by
  simp only [yearOfDay, centuryOfDay, yearOfCycleDay]
  omega

theorem daysBeforeYear_eq {c q y : Int} (hq0 : 0 ≤ q) (hq1 : q ≤ 24) (hy0 : 0 ≤ y) (hy1 : y ≤ 3) :
    daysBeforeYear (100 * c + 4 * q + y) = 36524 * c + 1461 * q + 365 * y := by
  have h4 : (100 * c + 4 * q + y) / 4 = 25 * c + q := by omega
  have h100 : (100 * c + 4 * q + y) / 100 = c := by omega
  rw [daysBeforeYear, h4, h100]
  omega

theorem sub_daysBeforeYear_range {n : Int} (h0 : 0 ≤ n) (h1 : n < 146097) :
    0 ≤ n - daysBeforeYear (yearOfDay n) ∧ n - daysBeforeYear (yearOfDay n) ≤ 365 := by
  have hc : 0 ≤ n - 36524 * centuryOfDay n ∧ n - 36524 * centuryOfDay n ≤ 36524 := by
    simp only [centuryOfDay]
    omega
  simp only [yearOfDay]
  generalize hr : n - 36524 * centuryOfDay n = r at hc ⊢
  have hy : 0 ≤ yearOfCycleDay (r % 1461) ∧ yearOfCycleDay (r % 1461) ≤ 3
      ∧ 0 ≤ r % 1461 - 365 * yearOfCycleDay (r % 1461)
      ∧ r % 1461 - 365 * yearOfCycleDay (r % 1461) ≤ 365 := by
    simp only [yearOfCycleDay]
    omega
  rw [daysBeforeYear_eq (by omega) (by omega) hy.1 hy.2.1]
  omega

/-! ### Days and dates -/

def epoch : Int := 719468

def dayOf (d : Date) : Int :=
  let y := if d.month ≤ 2 then d.year - 1 else d.year
  y / 400 * 146097 + daysBeforeYear (y % 400) + daysBeforeMonth (monthsFromMarch d.month)
    + d.day - 1 - epoch

def dateOf (day : Int) : Date :=
  let era := (day + epoch) / 146097
  let dayOfEra := (day + epoch) % 146097
  let year := yearOfDay dayOfEra
  let dayOfYear := dayOfEra - daysBeforeYear year
  let k := monthOfDay dayOfYear
  let month := monthAfterMarch k
  ⟨if month ≤ 2 then year + era * 400 + 1 else year + era * 400, month,
    dayOfYear - daysBeforeMonth k + 1⟩

theorem dayOf_dateOf (day : Int) : dayOf (dateOf day) = day := by
  have hz := Int.emod_add_mul_ediv (day + epoch) 146097
  have h0 := Int.emod_nonneg (day + epoch) (by decide : (146097 : Int) ≠ 0)
  have h1 := Int.emod_lt_of_pos (day + epoch) (by decide : (0 : Int) < 146097)
  have hy := yearOfDay_range h0 h1
  have hd := sub_daysBeforeYear_range h0 h1
  have hm := monthOfDay_range hd.1 hd.2
  have hk := monthsFromMarch_monthAfterMarch hm.1 hm.2
  have hdiv : ∀ e y : Int, 0 ≤ y → y < 400 → (y + e * 400) / 400 = e ∧ (y + e * 400) % 400 = y := by
    intro e y h h'
    omega
  obtain ⟨hq, hr⟩ := hdiv ((day + epoch) / 146097) _ hy.1 hy.2
  simp only [dayOf, dateOf, hk]
  split
  · simp only [Int.add_sub_cancel]
    rw [hq, hr]
    omega
  · rw [hq, hr]
    omega

end Calendar

end Mediation
