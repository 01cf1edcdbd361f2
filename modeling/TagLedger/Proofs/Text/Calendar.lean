import Mathlib.Order.Monotone.Basic
import Mathlib.Order.Nat
import Mathlib.Tactic.Common
import TagLedger.Timestamp

/-!
The calendar. Days are counted in cycles of 400 years, and years from March, so that the leap day is
the last of its year. The date of a day is a date of the calendar and leads back to the day.
-/

namespace TagLedger

namespace Timestamp

/-- Days from the first day of a cycle to the first day of a year of it. Years begin in March. -/
def yearStart (year : Nat) : Nat := 365 * year + year / 4 - year / 100 + year / 400

theorem yearStart_mono : Monotone yearStart := by
  refine monotone_nat_of_le_succ fun y => ?_
  simp only [yearStart]
  omega

/-- The year of a cycle that a day falls in. -/
def yearOfDay (day : Nat) : Nat := (day - day / 1460 + day / 36524 - day / 146096) / 365

theorem yearOfDay_mono : Monotone yearOfDay := by
  refine monotone_nat_of_le_succ fun d => Nat.div_le_div_right ?_
  omega

/-- The first and the last day of every year fall in that year. -/
theorem yearOfDay_ends :
    ∀ y < 400, yearOfDay (yearStart y) = y ∧ yearOfDay (yearStart (y + 1) - 1) = y := by
  decide +kernel

theorem yearOfDay_lt {day : Nat} (h : day < 146097) : yearOfDay day < 400 := by
  have hmono := yearOfDay_mono (show day ≤ yearStart (399 + 1) - 1 by simp only [yearStart]; omega)
  rw [(yearOfDay_ends 399 (by decide)).2] at hmono
  omega

/-- A day falls in the year between whose ends it lies. -/
theorem yearStart_le_and_lt {day : Nat} (h : day < 146097) :
    yearStart (yearOfDay day) ≤ day ∧ day < yearStart (yearOfDay day + 1) := by
  have hlt := yearOfDay_lt h
  generalize hy : yearOfDay day = y at hlt
  constructor
  · by_contra hlow
    obtain _ | y := y
    · simp [yearStart] at hlow
    · have hmono := yearOfDay_mono (show day ≤ yearStart (y + 1) - 1 by omega)
      rw [(yearOfDay_ends y (by omega)).2] at hmono
      omega
  · by_contra hhigh
    obtain heq | hne := Nat.eq_or_lt_of_le (show y + 1 ≤ 400 by omega)
    · rw [heq] at hhigh
      simp only [yearStart] at hhigh
      omega
    · have hmono := yearOfDay_mono (show yearStart (y + 1) ≤ day by omega)
      rw [(yearOfDay_ends (y + 1) hne).1] at hmono
      omega

/-- Month and day of the month of a day counted from the first of March. -/
def monthOfDay (day : Nat) : Nat :=
  let m := (5 * day + 2) / 153
  if m < 10 then m + 3 else m - 9

def dayOfMonth (day : Nat) : Nat := day - (153 * ((5 * day + 2) / 153) + 2) / 5 + 1

theorem monthOfDay_spec : ∀ day < 366,
    1 ≤ monthOfDay day ∧ monthOfDay day ≤ 12 ∧ 1 ≤ dayOfMonth day ∧
      (monthOfDay day ≠ 2 → dayOfMonth day ≤ daysInMonth 0 (monthOfDay day)) ∧
      (monthOfDay day = 2 → dayOfMonth day ≤ 29) ∧
      (monthOfDay day = 2 → dayOfMonth day = 29 → day = 365) ∧
      (monthOfDay day ≤ 2 ↔ 306 ≤ day) ∧
      (153 * ((monthOfDay day + 9) % 12) + 2) / 5 + dayOfMonth day = day + 1 := by
  decide +kernel

/-- A day as its cycle of 400 years and its place there. -/
theorem dateFromDays_eq {cycle : Int} {day : Nat} (h : day < 146097) :
    dateFromDays (cycle * 146097 + day - 719468) =
      let year := yearOfDay day
      let rest := day - yearStart year
      (if monthOfDay rest ≤ 2 then year + cycle * 400 + 1 else year + cycle * 400,
        monthOfDay rest, dayOfMonth rest) := by
  have hcycle : (cycle * 146097 + day - 719468 + 719468).fdiv 146097 = cycle := by
    rw [Int.fdiv_eq_ediv_of_nonneg _ (by decide)]
    omega
  have hday : (cycle * 146097 + day - 719468 + 719468 - cycle * 146097).toNat = day := by omega
  have hlt := yearOfDay_lt h
  have hstart : yearStart (yearOfDay day) =
      365 * yearOfDay day + yearOfDay day / 4 - yearOfDay day / 100 := by
    simp only [yearStart]
    omega
  simp only [dateFromDays, hcycle, hday]
  rw [hstart]
  rfl

/-- Every day is in a cycle. -/
theorem exists_cycle (days : Int) :
    ∃ (cycle : Int) (day : Nat), day < 146097 ∧ days = cycle * 146097 + day - 719468 := by
  refine ⟨(days + 719468) / 146097, ((days + 719468) % 146097).toNat, ?_, ?_⟩ <;> omega

theorem yearStart_succ_le (year : Nat) : yearStart (year + 1) ≤ yearStart year + 366 := by
  simp only [yearStart]
  omega

/-- The 29th of February is there in leap years only. -/
theorem isLeapYear_of_long {year : Nat} {cycle : Int}
    (h : yearStart year + 366 ≤ yearStart (year + 1)) :
    isLeapYear (year + cycle * 400 + 1) = true := by
  simp only [yearStart] at h
  simp only [isLeapYear, Bool.and_eq_true, Bool.or_eq_true, beq_iff_eq, bne_iff_ne]
  omega

theorem daysFromDate_eq {year month day : Nat} {cycle : Int} (hyear : year < 400) :
    daysFromDate (if month ≤ 2 then year + cycle * 400 + 1 else year + cycle * 400) month day =
      cycle * 146097 + yearStart year + ((153 * ((month + 9) % 12) + 2) / 5 + day : Nat) - 1 -
        719468 := by
  have hmarch : (if month ≤ 2 then
      (if month ≤ 2 then (year : Int) + cycle * 400 + 1 else year + cycle * 400) - 1
      else if month ≤ 2 then (year : Int) + cycle * 400 + 1 else year + cycle * 400) =
        year + cycle * 400 := by
    split <;> omega
  have hcycle : ((year : Int) + cycle * 400).fdiv 400 = cycle := by
    rw [Int.fdiv_eq_ediv_of_nonneg _ (by decide)]
    omega
  simp only [daysFromDate, hmarch, hcycle, yearStart]
  omega

/-- The date of a day is a date of the calendar and leads back to the day. -/
theorem daysFromDate_dateFromDays (days : Int) :
    let date := dateFromDays days
    1 ≤ date.2.1 ∧ date.2.1 ≤ 12 ∧ 1 ≤ date.2.2 ∧ date.2.2 ≤ daysInMonth date.1 date.2.1 ∧
      daysFromDate date.1 date.2.1 date.2.2 = days := by
  obtain ⟨cycle, day, hday, rfl⟩ := exists_cycle days
  have hyear := yearOfDay_lt hday
  obtain ⟨hlow, hhigh⟩ := yearStart_le_and_lt hday
  have hlength := yearStart_succ_le (yearOfDay day)
  rw [dateFromDays_eq hday]
  generalize yearOfDay day = year at *
  obtain ⟨hm1, hm12, hd1, hother, hfeb, hlast, hearly, hsum⟩ :=
    monthOfDay_spec (day - yearStart year) (by omega)
  refine ⟨hm1, hm12, hd1, ?_, ?_⟩
  · by_cases hmonth : monthOfDay (day - yearStart year) = 2
    · have hle := hfeb hmonth
      simp only [hmonth, daysInMonth, le_refl, if_true]
      split
      · exact hle
      · rename_i hleap
        by_contra hbig
        have h365 := hlast hmonth (by omega)
        exact hleap (isLeapYear_of_long (by omega))
    · simpa [daysInMonth, hmonth] using hother hmonth
  · simp only
    rw [daysFromDate_eq hyear, hsum]
    omega

/-- The year of a day between two dates is between their years. -/
theorem yearInRange_dateFromDays {days : Int} (hfirst : daysFromDate firstYear 1 1 ≤ days)
    (hlast : days ≤ daysFromDate lastYear 12 31) : yearInRange (dateFromDays days).1 = true := by
  have hfirst : -96465292 ≤ days := hfirst
  have hlast : days ≤ 95026236 := hlast
  obtain ⟨cycle, day, hday, rfl⟩ := exists_cycle days
  have hyear := yearOfDay_lt hday
  obtain ⟨hlow, hhigh⟩ := yearStart_le_and_lt hday
  have hlength := yearStart_succ_le (yearOfDay day)
  rw [dateFromDays_eq hday]
  generalize yearOfDay day = year at *
  obtain ⟨-, -, -, -, -, -, hearly, -⟩ := monthOfDay_spec (day - yearStart year) (by omega)
  have hrange : -656 ≤ cycle ∧ cycle ≤ 655 := by omega
  have hbegin : cycle = -656 → 256 < year ∨ year = 256 ∧ 306 ≤ day - yearStart year := by
    intro hcycle
    have h256 : yearStart 256 = 93502 := rfl
    obtain hlt | rfl | hgt := Nat.lt_trichotomy year 256
    · have hmono := yearStart_mono (show year + 1 ≤ 256 by omega)
      omega
    · exact Or.inr ⟨rfl, by omega⟩
    · exact Or.inl hgt
  have hend : cycle = 655 → year < 142 ∨ year = 142 ∧ ¬ 306 ≤ day - yearStart year := by
    intro hcycle
    have h142 : yearStart 142 = 51864 := rfl
    have h143 : yearStart 143 = 52229 := rfl
    obtain hlt | rfl | hgt := Nat.lt_trichotomy year 142
    · exact Or.inl hlt
    · exact Or.inr ⟨rfl, by omega⟩
    · have hmono := yearStart_mono (show 143 ≤ year by omega)
      omega
  simp only [yearInRange, firstYear, lastYear, hearly, Bool.and_eq_true, decide_eq_true_eq]
  split_ifs <;> omega

end Timestamp

end TagLedger
