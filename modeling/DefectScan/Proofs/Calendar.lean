import DefectScan.Timestamp

/-!
# Days and dates

Every day has a date, and the date gives the day back:

    daysFromCivil year month day = days     for (year, month, day) = civilFromDays days

and the date exists in the calendar (`civilFromDays_valid`). Years are counted from March within eras
of 400 years. The year of a day is estimated by taking out the leap days before it, and what has to
be seen is that the estimate is exact (`yearStart_le`, `le_yearStart_add`), also on the last day of a
leap year (`isLeap_of_last`).
-/

namespace DefectScan.Timestamp

/-! ## The year of a day -/

/-- The first day of a year, counted from the start of its era. -/
def yearStart (year : Int) : Int := 365 * year + year / 4 - year / 100

/-- The year of a day of the era. -/
def yearOf (day : Int) : Int := (day - day / 1460 + day / 36524 - day / 146096) / 365

section
variable {day : Int} (hlow : 0 ≤ day) (hhigh : day ≤ 146096)

include hlow hhigh

theorem yearOf_bounds : 0 ≤ yearOf day ∧ yearOf day ≤ 399 := by
  unfold yearOf
  omega

/-- The centuries are right; the last day of the era would start a fifth one. -/
theorem century_bounds :
    day / 36524 - day / 146096 ≤ yearOf day / 100 ∧ yearOf day / 100 ≤ day / 36524 := by
  unfold yearOf
  omega

/-- The cycles of four years are right up to one year. -/
theorem cycle_bounds : 4 * (day / 1460) - 1 ≤ yearOf day ∧ yearOf day ≤ 4 * (day / 1460) + 3 := by
  unfold yearOf
  omega

theorem yearStart_le : yearStart (yearOf day) ≤ day := by
  have hcentury := century_bounds hlow hhigh
  have hcycle := cycle_bounds hlow hhigh
  unfold yearStart yearOf at *
  omega

theorem le_yearStart_add : day ≤ yearStart (yearOf day) + 365 := by
  have hcentury := century_bounds hlow hhigh
  have hcycle := cycle_bounds hlow hhigh
  unfold yearStart yearOf at *
  omega

/-- A year with 366 days ends in a leap year. -/
theorem isLeap_of_last (hlast : day = yearStart (yearOf day) + 365) :
    (yearOf day + 1) % 4 = 0 ∧ ((yearOf day + 1) % 100 ≠ 0 ∨ (yearOf day + 1) % 400 = 0) := by
  have hcentury := century_bounds hlow hhigh
  have hcycle := cycle_bounds hlow hhigh
  by_cases hend : day = 146096
  · subst hend
    decide
  · have hera : day / 146096 = 0 := by omega
    have hsame : day / 36524 = yearOf day / 100 := by omega
    have hestimate : yearOf day = (day - day / 1460 + day / 36524) / 365 := by
      rw [yearOf, hera, Int.sub_zero]
    generalize yearOf day = year at *
    unfold yearStart at hlast
    have hcycle' : 4 * (day / 1460) = year + 1 := by omega
    refine ⟨by omega, Or.inl ?_⟩
    -- at the end of a century the day would belong to the next one
    intro hend
    have hquarter : year / 4 = 25 * (year / 100) + 24 := by omega
    omega

end

/-! ## The date of a day -/

/-- The month of a day of the year, counted from March. -/
def monthOf (day : Int) : Int := (5 * day + 2) / 153

/-- The first day of a month, counted from the first of March. -/
def monthStart (month : Int) : Int := (153 * month + 2) / 5

theorem civilFromDays_eq (days era day : Int) (hera : era = (days + 719468) / 146097)
    (hday : day = days + 719468 - era * 146097) :
    let ofYear := day - yearStart (yearOf day)
    let month := if monthOf ofYear < 10 then monthOf ofYear + 3 else monthOf ofYear - 9
    civilFromDays days = (yearOf day + era * 400 + if month ≤ 2 then 1 else 0, month,
      ofYear - monthStart (monthOf ofYear) + 1) := by
  subst hera hday
  rfl

theorem monthOf_bounds {day : Int} (hlow : 0 ≤ day) (hhigh : day ≤ 365) :
    0 ≤ monthOf day ∧ monthOf day ≤ 11 ∧ monthStart (monthOf day) ≤ day ∧
      day < monthStart (monthOf day + 1) := by
  unfold monthOf monthStart
  omega

/-- A date in a year that starts in March, as a date of the calendar. -/
structure MarchDate where
  era : Int
  year : Int
  month : Int
  day : Int

namespace MarchDate

/-- The month, counted from January. -/
def calendarMonth (d : MarchDate) : Int := if d.month < 10 then d.month + 3 else d.month - 9

def calendarYear (d : MarchDate) : Int :=
  d.year + d.era * 400 + if d.calendarMonth ≤ 2 then 1 else 0

structure Valid (d : MarchDate) : Prop where
  year : 0 ≤ d.year ∧ d.year ≤ 399
  month : 0 ≤ d.month ∧ d.month ≤ 11
  day : 1 ≤ d.day
  last : monthStart d.month + d.day - 1 < monthStart (d.month + 1)
  /-- The year of a 29 February is a leap year. -/
  leap : monthStart d.month + d.day - 1 ≤ 364 ∨ (monthStart d.month + d.day - 1 = 365 ∧
    (d.year + 1) % 4 = 0 ∧ ((d.year + 1) % 100 ≠ 0 ∨ (d.year + 1) % 400 = 0))

theorem daysFromCivil_eq {d : MarchDate} (h : d.Valid) :
    daysFromCivil d.calendarYear d.calendarMonth d.day
      = d.era * 146097 + yearStart d.year + (monthStart d.month + d.day - 1) - 719468 := by
  obtain ⟨era, year, month, day⟩ := d
  obtain ⟨hyear, hmonth, -, -, -⟩ := h
  simp only at hyear hmonth
  simp only [calendarYear, calendarMonth, daysFromCivil, yearStart, monthStart]
  by_cases hfirst : month < 10
  · simp only [hfirst, if_true]
    rw [if_neg (by omega), if_neg (by omega), if_pos (by omega)]
    omega
  · simp only [hfirst, if_false]
    rw [if_pos (by omega), if_pos (by omega), if_neg (by omega)]
    omega

theorem calendarMonth_bounds {d : MarchDate} (h : d.Valid) :
    1 ≤ d.calendarMonth ∧ d.calendarMonth ≤ 12 := by
  have hmonth := h.month
  unfold calendarMonth
  split <;> omega

/-- The lengths of the months before February, in whatever year. -/
theorem daysInMonth_eq (year : Int) {month : Int} (hlow : 0 ≤ month) (hhigh : month ≤ 10) :
    daysInMonth year (if month < 10 then month + 3 else month - 9)
      = monthStart (month + 1) - monthStart month := by
  have hcases : month = 0 ∨ month = 1 ∨ month = 2 ∨ month = 3 ∨ month = 4 ∨ month = 5 ∨
      month = 6 ∨ month = 7 ∨ month = 8 ∨ month = 9 ∨ month = 10 := by omega
  rcases hcases with rfl | rfl | rfl | rfl | rfl | rfl | rfl | rfl | rfl | rfl | rfl <;> rfl

theorem isLeapYear_of_mod {year era : Int}
    (h : year % 4 = 0 ∧ (year % 100 ≠ 0 ∨ year % 400 = 0)) : isLeapYear (year + era * 400) = true := by
  unfold isLeapYear
  simp only [Bool.and_eq_true, Bool.or_eq_true, decide_eq_true_eq]
  omega

theorem day_le_daysInMonth {d : MarchDate} (h : d.Valid) :
    d.day ≤ daysInMonth d.calendarYear d.calendarMonth := by
  obtain ⟨era, year, month, day⟩ := d
  obtain ⟨-, hmonth, -, hlast, hleap⟩ := h
  simp only at hmonth hlast hleap
  simp only [calendarYear, calendarMonth]
  unfold monthStart at hlast hleap
  by_cases hfebruary : month = 11
  · subst hfebruary
    change day ≤ if isLeapYear (year + era * 400 + 1) then 29 else 28
    split
    · omega
    · next hnot =>
      rcases hleap with hleap | ⟨-, hleap⟩
      · omega
      · rw [show year + era * 400 + 1 = year + 1 + era * 400 by omega] at hnot
        exact absurd (isLeapYear_of_mod hleap) hnot
  · rw [daysInMonth_eq _ hmonth.1 (by omega)]
    unfold monthStart
    omega

end MarchDate

/-- The date of a day exists, and it gives the day back. -/
theorem civilFromDays_valid (days : Int) :
    ∃ year month day, civilFromDays days = (year, month, day) ∧ daysFromCivil year month day = days ∧
      1 ≤ month ∧ month ≤ 12 ∧ 1 ≤ day ∧ day ≤ daysInMonth year month := by
  obtain ⟨era, hera⟩ : ∃ era, era = (days + 719468) / 146097 := ⟨_, rfl⟩
  obtain ⟨day, hday⟩ : ∃ day, day = days + 719468 - era * 146097 := ⟨_, rfl⟩
  have hlow : 0 ≤ day := by omega
  have hhigh : day ≤ 146096 := by omega
  have hstart := yearStart_le hlow hhigh
  have hend := le_yearStart_add hlow hhigh
  have hmonth := @monthOf_bounds (day - yearStart (yearOf day)) (by omega) (by omega)
  let d : MarchDate := ⟨era, yearOf day, monthOf (day - yearStart (yearOf day)),
    day - yearStart (yearOf day) - monthStart (monthOf (day - yearStart (yearOf day))) + 1⟩
  have hvalid : d.Valid := by
    refine ⟨yearOf_bounds hlow hhigh, ⟨hmonth.1, hmonth.2.1⟩, ?_, ?_, ?_⟩
    · simp only [d]
      omega
    · simp only [d]
      omega
    · simp only [d]
      by_cases hlast : day = yearStart (yearOf day) + 365
      · exact Or.inr ⟨by omega, isLeap_of_last hlow hhigh hlast⟩
      · exact Or.inl (by omega)
  refine ⟨d.calendarYear, d.calendarMonth, d.day, civilFromDays_eq days era day hera hday, ?_,
    (MarchDate.calendarMonth_bounds hvalid).1, (MarchDate.calendarMonth_bounds hvalid).2, hvalid.day,
    MarchDate.day_le_daysInMonth hvalid⟩
  rw [MarchDate.daysFromCivil_eq hvalid]
  simp only [d]
  omega

end DefectScan.Timestamp
