/-!
# Calendar

The proleptic Gregorian calendar: which days there are, and how they are counted from the first
day of 1970.

## Overview

- `Calendar.isLeapYear`, `Calendar.daysInMonth`: which days there are
- `Date.isValid`: a date that exists
- `Date.dayNumber`, `Date.ofDayNumber`: counting days
-/

set_option autoImplicit false

namespace BackupVault

namespace Calendar

def isLeapYear (year : Int) : Bool := year % 4 == 0 && (year % 100 != 0 || year % 400 == 0)

def daysInMonth (year : Int) (month : Nat) : Nat :=
  if month = 2 then (if isLeapYear year then 29 else 28)
  else if month = 4 ∨ month = 6 ∨ month = 9 ∨ month = 11 then 30
  else 31

end Calendar

structure Date where
  year : Int
  month : Nat
  day : Nat
deriving DecidableEq, Repr

namespace Date

def isValid (d : Date) : Bool :=
  1 ≤ d.month && d.month ≤ 12 && 1 ≤ d.day && d.day ≤ Calendar.daysInMonth d.year d.month

/-- Days from the first of March of year zero to the first of March of a year, whose months are
counted from March on. -/
def daysBeforeYear (year : Int) : Int := 365 * year + year / 4 - year / 100 + year / 400

/-- Days from the first of March to the first of a month, counted from March as zero. -/
def daysBeforeMonth (month : Nat) : Nat := (153 * month + 2) / 5

/-- The number of the day, with the first day of 1970 as zero. -/
def dayNumber (d : Date) : Int :=
  let year := if d.month ≤ 2 then d.year - 1 else d.year
  let month := (d.month + 9) % 12
  daysBeforeYear year + daysBeforeMonth month + d.day - 1 - 719468

def ofDayNumber (n : Int) : Date :=
  let days := n + 719468
  let era := days / 146097
  let dayOfEra := (days % 146097).toNat
  let yearOfEra := (dayOfEra - dayOfEra / 1460 + dayOfEra / 36524 - dayOfEra / 146096) / 365
  let dayOfYear := dayOfEra - (365 * yearOfEra + yearOfEra / 4 - yearOfEra / 100)
  let fromMarch := (5 * dayOfYear + 2) / 153
  let month := if fromMarch < 10 then fromMarch + 3 else fromMarch - 9
  { year := yearOfEra + era * 400 + (if month ≤ 2 then 1 else 0)
    month
    day := dayOfYear - (153 * fromMarch + 2) / 5 + 1 }

end Date

end BackupVault
