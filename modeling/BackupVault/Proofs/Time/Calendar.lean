import BackupVault.Time.Calendar

/-!
# Counting days

The day with a given number is a day of the calendar, and has that number.  The calendar repeats
itself after 400 years; such an era consists of centuries, each of them of spans of four years,
where only the last year of a span or of the era has a leap day.  Years begin in March, so that
a leap day is the last day of its year.

## Overview

- `Era`: where a day is in its era
- `Date.dayNumber_ofDayNumber`: the day with a number has that number
- `Date.isValid_ofDayNumber`: it is a day of the calendar
-/

set_option autoImplicit false

namespace BackupVault

/-! ## §1 Days of an era -/

/-- The day of an era is the given day of the given year of a span of four years, in a century. -/
structure Era (dayOfEra century span year day : Nat) : Prop where
  century_le : century ≤ 3
  span_le : span ≤ 24
  year_le : year ≤ 3
  day_le : day ≤ 365
  sum : dayOfEra = 36524 * century + 1461 * span + 365 * year + day
  /-- Only the last year of a span has a leap day, and the last year of a century only if it is
  also the last of the era. -/
  leap : day = 365 → year = 3 ∧ (span ≠ 24 ∨ century = 3)

namespace Era

theorem exists_of_lt {dayOfEra : Nat} (h : dayOfEra < 146097) :
    ∃ century span year day, Era dayOfEra century span year day := by
  -- The last century, and the last year of a span, are a day longer than the others.
  let century := min 3 (dayOfEra / 36524)
  let span := (dayOfEra - 36524 * century) / 1461
  let year := min 3 ((dayOfEra - 36524 * century) % 1461 / 365)
  refine ⟨century, span, year, (dayOfEra - 36524 * century) % 1461 - 365 * year, ?_⟩
  constructor <;> omega

variable {dayOfEra century span year day : Nat}

/-- The year of the era is found by leaving out the leap days. -/
theorem yearOfEra (h : Era dayOfEra century span year day) :
    (dayOfEra - dayOfEra / 1460 + dayOfEra / 36524 - dayOfEra / 146096) / 365 =
      100 * century + 4 * span + year := by
  obtain ⟨hcentury, hspan, hyear, hday, hsum, hleap⟩ := h
  -- A century is a day too long only at the very end of the era.
  have hcenturies : dayOfEra / 36524 = century + dayOfEra / 146096 := by
    by_cases hlast : dayOfEra = 146096
    · omega
    · have hlt : 1461 * span + 365 * year + day < 36524 := by omega
      omega
  -- Each span has one leap day, and the days left over may or may not have one more.
  by_cases hmore : 24 * century + span + 365 * year + day < 1460
  · have hspans : dayOfEra / 1460 = 25 * century + span := by omega
    rw [hspans, hcenturies]
    omega
  · have hspans : dayOfEra / 1460 = 25 * century + span + 1 := by omega
    rw [hspans, hcenturies]
    omega

theorem dayOfYear (h : Era dayOfEra century span year day) :
    dayOfEra - (365 * (100 * century + 4 * span + year) +
      (100 * century + 4 * span + year) / 4 - (100 * century + 4 * span + year) / 100) = day := by
  obtain ⟨hcentury, hspan, hyear, hday, hsum, hleap⟩ := h
  have hfours : (100 * century + 4 * span + year) / 4 = 25 * century + span := by omega
  have hhundreds : (100 * century + 4 * span + year) / 100 = century := by omega
  rw [hfours, hhundreds]
  omega

theorem daysBeforeYear (h : Era dayOfEra century span year day) (era : Int) :
    Date.daysBeforeYear (100 * century + 4 * span + year + era * 400) + day =
      dayOfEra + 146097 * era := by
  obtain ⟨hcentury, hspan, hyear, hday, hsum, hleap⟩ := h
  unfold Date.daysBeforeYear
  omega

end Era

/-! ## §2 Months -/

/-- The month of a day of the year, counted from March as zero. -/
structure Month (dayOfYear fromMarch day : Nat) : Prop where
  fromMarch_le : fromMarch ≤ 11
  sum : dayOfYear = Date.daysBeforeMonth fromMarch + day
  lt : dayOfYear < Date.daysBeforeMonth (fromMarch + 1)

theorem Month.ofDayOfYear {dayOfYear : Nat} (h : dayOfYear ≤ 365) :
    Month dayOfYear ((5 * dayOfYear + 2) / 153)
      (dayOfYear - (153 * ((5 * dayOfYear + 2) / 153) + 2) / 5) := by
  constructor
  · omega
  · unfold Date.daysBeforeMonth
    omega
  · unfold Date.daysBeforeMonth
    omega

/-- A month from March to January is not longer than it is said to be. -/
theorem Month.day_le {dayOfYear fromMarch day : Nat} (h : Month dayOfYear fromMarch day)
    (hne : fromMarch ≠ 11) (year : Int) :
    day + 1 ≤ Calendar.daysInMonth year
      (if fromMarch < 10 then fromMarch + 3 else fromMarch - 9) := by
  obtain ⟨hle, hsum, hlt⟩ := h
  unfold Date.daysBeforeMonth at hsum hlt
  have hmonth : ¬ (if fromMarch < 10 then fromMarch + 3 else fromMarch - 9) = 2 := by
    split <;> omega
  rw [Calendar.daysInMonth, if_neg hmonth]
  -- Each of the other months has 30 days or 31, by its place in the row of months.
  by_cases hearly : fromMarch < 10
  · rw [if_pos hearly]
    split <;> omega
  · rw [if_neg hearly]
    split <;> omega

/-! ## §3 Dates -/

namespace Date

/-- Where the day with a number is in the calendar. -/
theorem exists_era (n : Int) :
    ∃ (era : Int) (dayOfEra century span year day fromMarch dayOfMonth : Nat),
      Era dayOfEra century span year day ∧ Month day fromMarch dayOfMonth ∧
      n + 719468 = dayOfEra + 146097 * era ∧
      ofDayNumber n =
        { year := 100 * century + 4 * span + year + era * 400 + if fromMarch < 10 then 0 else 1
          month := if fromMarch < 10 then fromMarch + 3 else fromMarch - 9
          day := dayOfMonth + 1 } := by
  obtain ⟨century, span, year, day, hera⟩ :=
    Era.exists_of_lt (show ((n + 719468) % 146097).toNat < 146097 by omega)
  have hmonth := Month.ofDayOfYear hera.day_le
  refine ⟨_, _, _, _, _, _, _, _, hera, hmonth, show n + 719468 = _ + 146097 *
    ((n + 719468) / 146097) by omega, ?_⟩
  have hle := hmonth.fromMarch_le
  simp only [ofDayNumber, hera.yearOfEra, hera.dayOfYear]
  -- January and February belong to the next year.
  by_cases hlate : (5 * day + 2) / 153 < 10
  · rw [if_pos hlate, if_pos hlate, if_neg (by omega)]
    push_cast
    rfl
  · rw [if_neg hlate, if_neg hlate, if_pos (by omega)]
    push_cast
    rfl

/-- The day with a number has that number. -/
theorem dayNumber_ofDayNumber (n : Int) : (ofDayNumber n).dayNumber = n := by
  obtain ⟨era, dayOfEra, century, span, year, day, fromMarch, dayOfMonth, hera, hmonth, hn,
    hdate⟩ := exists_era n
  have hyear := hera.daysBeforeYear era
  have hday := hmonth.sum
  have hle := hmonth.fromMarch_le
  -- The year and the month that the days are counted from are those of the day in its era.
  have hfrom : (ofDayNumber n).dayNumber =
      daysBeforeYear (100 * century + 4 * span + year + era * 400) + daysBeforeMonth fromMarch +
        ((dayOfMonth + 1 : Nat) : Int) - 1 - 719468 := by
    rw [hdate, dayNumber]
    by_cases hlate : fromMarch < 10
    · simp only [if_pos hlate, if_neg (show ¬ fromMarch + 3 ≤ 2 by omega), Int.add_zero,
        show (fromMarch + 3 + 9) % 12 = fromMarch by omega]
    · simp only [if_neg hlate, if_pos (show fromMarch - 9 ≤ 2 by omega), Int.add_sub_cancel,
        show (fromMarch - 9 + 9) % 12 = fromMarch by omega]
  rw [hfrom]
  omega

/-- The day with a number is a day of the calendar. -/
theorem isValid_ofDayNumber (n : Int) : (ofDayNumber n).isValid = true := by
  obtain ⟨era, dayOfEra, century, span, year, day, fromMarch, dayOfMonth, hera, hmonth, -, hdate⟩ :=
    exists_era n
  have hle := hmonth.fromMarch_le
  have hdays :
      dayOfMonth + 1 ≤ Calendar.daysInMonth (ofDayNumber n).year (ofDayNumber n).month := by
    rw [hdate]
    by_cases hfebruary : fromMarch = 11
    · -- February has 28 days, and one more in a leap year.
      subst hfebruary
      have hsum := hmonth.sum
      have hday := hera.day_le
      unfold daysBeforeMonth at hsum
      by_cases hleap : day = 365
      · obtain ⟨hyear, hspan⟩ := hera.leap hleap
        have := hera.century_le
        have := hera.span_le
        have hleapYear : Calendar.isLeapYear
            (100 * century + 4 * span + year + era * 400 + 1) = true := by
          simp only [Calendar.isLeapYear, Bool.and_eq_true, Bool.or_eq_true, beq_iff_eq, bne_iff_ne]
          omega
        simp only [show ¬ (11 < 10) by omega, ↓reduceIte, Calendar.daysInMonth, hleapYear]
        omega
      · simp only [show ¬ (11 < 10) by omega, ↓reduceIte, Calendar.daysInMonth]
        split <;> omega
    · exact hmonth.day_le hfebruary _
  have hfirst : 1 ≤ (ofDayNumber n).month ∧ (ofDayNumber n).month ≤ 12 := by
    rw [hdate]
    dsimp only
    split <;> omega
  have hday : (ofDayNumber n).day = dayOfMonth + 1 := by rw [hdate]
  simp only [isValid, Bool.and_eq_true, decide_eq_true_eq, hday]
  exact ⟨⟨hfirst, Nat.le_add_left ..⟩, hdays⟩

end Date

end BackupVault
