import BackupVault.Text.Blank
import BackupVault.Text.Decimal
import BackupVault.Time.Calendar

/-!
# Points in time

A point in time is a count of seconds with a fraction.  Its text is the Internet date and time
format: date, `T`, time of day, offset from universal time.  Reading is lenient about white space,
about the width of the fields and about the case of letters; writing is always in universal time,
with as many digits of fraction as are needed, in groups of three.

## Overview

- `Timestamp.ofText?`: reading
- `Timestamp.text`: writing
-/

set_option autoImplicit false

namespace BackupVault

structure Timestamp where
  /-- Seconds since the beginning of 1970. -/
  seconds : Int
  /-- The rest; a billion and more during a leap second. -/
  nanos : Nat
deriving DecidableEq, Repr

instance : Inhabited Timestamp := ⟨{ seconds := 0, nanos := 0 }⟩

namespace Timestamp

/-! ## §1 Reading -/

/-- A number of one digit to `width` digits, white space before it. -/
def number? (width : Nat) (cs : List Char) : Option (Nat × List Char) :=
  let cs := Text.trimStartChars cs
  let digits := (cs.take width).takeWhile Char.isDigit
  if digits.isEmpty then none else some (Text.digitsValue 10 digits, cs.drop digits.length)

/-- A year: up to four digits, or any number of them after a sign. -/
def year? (cs : List Char) : Option (Int × List Char) :=
  match Text.trimStartChars cs with
  | '-' :: rest =>
    let digits := rest.takeWhile Char.isDigit
    if digits.isEmpty then none
    else some (-(Text.digitsValue 10 digits : Int), rest.drop digits.length)
  | '+' :: rest =>
    let digits := rest.takeWhile Char.isDigit
    if digits.isEmpty then none else some (Text.digitsValue 10 digits, rest.drop digits.length)
  | rest => (number? 4 rest).map fun (n, rest) => ((n : Int), rest)

/-- The character, white space before it. -/
def mark? (c : Char) (cs : List Char) : Option (List Char) :=
  match Text.trimStartChars cs with
  | d :: rest => if d = c then some rest else none
  | [] => none

/-- A fraction of a second in billionths; further digits do not count. -/
def fraction? : List Char → Option (Nat × List Char)
  | '.' :: rest =>
    let digits := rest.takeWhile Char.isDigit
    if digits.isEmpty then none
    else
      some (Text.digitsValue 10 ((digits.take 9) ++ List.replicate (9 - digits.length) '0'),
        rest.drop digits.length)
  | rest => some (0, rest)

/-- Two digits, the first of them below `limit`. -/
def pair? (limit : Char) : List Char → Option (Nat × List Char)
  | a :: b :: rest =>
    if a.isDigit ∧ a < limit ∧ b.isDigit then some (Text.digitsValue 10 [a, b], rest) else none
  | _ => none

/-- Hours and minutes of an offset, in seconds.  Colons and white space may stand between them. -/
def offsetAmount? (cs : List Char) : Option (Int × List Char) := do
  let (hours, rest) ← pair? ':' cs
  let (minutes, rest) ← pair? '6' (rest.dropWhile fun c => c = ':' || Text.isBlank c)
  return (3600 * (hours : Int) + 60 * minutes, rest)

def offset? (cs : List Char) : Option (Int × List Char) :=
  match Text.trimStartChars cs with
  | 'Z' :: rest => some (0, rest)
  | 'z' :: rest => some (0, rest)
  | '+' :: rest => offsetAmount? rest
  | '-' :: rest => (offsetAmount? rest).map fun (n, rest) => (-n, rest)
  | '\u2212' :: rest => (offsetAmount? rest).map fun (n, rest) => (-n, rest)
  | rest => if (rest.take 3).map Char.toUpper = "UTC".toList then some (0, rest.drop 3) else none

/-- The first and the last year that are read. -/
def yearRange : Int × Int := (-262143, 262142)

def date? (cs : List Char) : Option (Date × List Char) := do
  let (year, rest) ← year? cs
  let (month, rest) ← number? 2 (← mark? '-' rest)
  let (day, rest) ← number? 2 (← mark? '-' rest)
  let date : Date := { year, month, day }
  if date.isValid ∧ yearRange.1 ≤ year ∧ year ≤ yearRange.2 then some (date, rest) else none

/-- A time of day: its seconds since midnight, and billionths.  Second 60 is a leap second. -/
def timeOfDay? (cs : List Char) : Option ((Nat × Nat) × List Char) := do
  let (hour, rest) ← number? 2 cs
  let (minute, rest) ← number? 2 (← mark? ':' rest)
  let (second, rest) ← number? 2 (← mark? ':' rest)
  let (nanos, rest) ← fraction? rest
  if hour ≤ 23 ∧ minute ≤ 59 ∧ second ≤ 60 then
    let leap := if second = 60 then 1 else 0
    some ((3600 * hour + 60 * minute + (second - leap), nanos + leap * 1000000000), rest)
  else none

def isInRange (seconds : Int) : Bool :=
  86400 * Date.dayNumber ⟨yearRange.1, 1, 1⟩ ≤ seconds &&
    seconds < 86400 * Date.dayNumber ⟨yearRange.2 + 1, 1, 1⟩

def ofText? (s : String) : Option Timestamp := do
  let (date, rest) ← date? s.toList
  let c :: rest := rest | none
  if c ≠ 'T' ∧ c ≠ 't' ∧ c ≠ ' ' then none
  let ((second, nanos), rest) ← timeOfDay? rest
  let (offset, rest) ← offset? rest
  let seconds := 86400 * date.dayNumber + second - offset
  if offset.natAbs < 86400 ∧ isInRange seconds ∧ (Text.trimStartChars rest).isEmpty then
    some { seconds, nanos }
  else none

/-! ## §2 Writing -/

def padded (width n : Nat) : String :=
  let digits := Nat.toDigits 10 n
  String.ofList (List.replicate (width - digits.length) '0' ++ digits)

/-- A year; one without four digits carries a sign. -/
def yearText (year : Int) : String :=
  if 0 ≤ year ∧ year ≤ 9999 then padded 4 year.toNat
  else (if year < 0 then "-" else "+") ++ padded 4 year.natAbs

/-- A fraction of a second, in thousandths, millionths or billionths, unless it is zero. -/
def fractionText (nanos : Nat) : String :=
  if nanos = 0 then ""
  else if nanos % 1000000 = 0 then "." ++ padded 3 (nanos / 1000000)
  else if nanos % 1000 = 0 then "." ++ padded 6 (nanos / 1000)
  else "." ++ padded 9 nanos

/-- Date and time up to the second. -/
def secondText (t : Timestamp) : String :=
  let date := Date.ofDayNumber (t.seconds / 86400)
  let second := (t.seconds % 86400).toNat
  let leap := t.nanos / 1000000000
  yearText date.year ++ "-" ++ padded 2 date.month ++ "-" ++ padded 2 date.day ++ "T" ++
    padded 2 (second / 3600) ++ ":" ++ padded 2 (second / 60 % 60) ++ ":" ++
    padded 2 (second % 60 + leap)

def text (t : Timestamp) : String :=
  t.secondText ++ fractionText (t.nanos % 1000000000) ++ "Z"

end Timestamp

end BackupVault
