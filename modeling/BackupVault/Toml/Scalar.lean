import BackupVault.Bytes
import BackupVault.Text.Decimal
import BackupVault.Time.Calendar
import BackupVault.Toml.Value

/-!
# TOML numbers, truth values and points in time

Whatever stands between two separators is one word, and a word has to be a number, a truth value
or a point in time as a whole.

## Overview

- `Toml.integer?`, `Toml.float?`: numbers, with underscores between their digits
- `Toml.isDate`, `Toml.isTime`: parts of points in time
- `Toml.scalar?`: one value that is no string, list or table
-/

set_option autoImplicit false

namespace BackupVault.Toml

/-! ## §1 Digits -/

/-- The longest row of digits, in which single underscores stand between digits only. -/
def digits? (isDigit : Char → Bool) : List Char → Option (List Char × List Char)
  | [] => none
  | c :: rest =>
    if !isDigit c then none
    else
      match rest with
      | '_' :: after => (digits? isDigit after).map fun (ds, after) => (c :: ds, after)
      | d :: after =>
        if isDigit d then (digits? isDigit (d :: after)).map fun (ds, after) => (c :: ds, after)
        else some ([c], d :: after)
      | [] => some ([c], [])

def wholeDigits? (isDigit : Char → Bool) (cs : List Char) : Option (List Char) :=
  match digits? isDigit cs with
  | some (ds, []) => some ds
  | _ => none

/-- The digits of a decimal number, which does not begin with a zero unless it is one. -/
def decimal? (cs : List Char) : Option (List Char × List Char) :=
  match cs with
  | '0' :: rest => some (['0'], rest)
  | cs => digits? Char.isDigit cs

/-- A sign, and the characters after it. -/
def sign : List Char → Bool × List Char
  | '-' :: rest => (true, rest)
  | '+' :: rest => (false, rest)
  | cs => (false, cs)

/-! ## §2 Integers -/

/-- The number is one of 64 bits. -/
def fits (n : Int) : Option Int :=
  if -0x8000000000000000 ≤ n ∧ n < 0x8000000000000000 then some n else none

/-- An integer: decimal with or without a sign, hexadecimal, octal or binary. -/
def integer? : List Char → Option Int
  | '0' :: 'x' :: rest => do
    fits (Text.digitsValue 16 (← wholeDigits? (fun c => (Bytes.hexValue? c).isSome) rest))
  | '0' :: 'o' :: rest => do
    fits (Text.digitsValue 8 (← wholeDigits? (fun c => '0' ≤ c && c ≤ '7') rest))
  | '0' :: 'b' :: rest => do
    fits (Text.digitsValue 2 (← wholeDigits? (fun c => c = '0' || c = '1') rest))
  | cs => do
    let (negative, cs) := sign cs
    let (ds, []) ← decimal? cs | none
    let n : Int := Text.digitsValue 10 ds
    fits (if negative then -n else n)

/-! ## §3 Numbers with a fraction -/

/-- The number `m · 10^e` rounds to an infinite one: it is at least half a step above the largest
number with 53 bits below `2^1024`. -/
def isHuge (m : Nat) (e : Int) : Bool :=
  let size := (Nat.toDigits 10 m).length
  if m = 0 || e + size ≤ 308 then false
  else if e + size > 310 then true
  else
    let limit := (1 <<< 1024) - (1 <<< 970)
    if 0 ≤ e then limit ≤ m * Nat.pow 10 e.toNat else limit * Nat.pow 10 (-e).toNat ≤ m

/-- The exponent of a number, if there is one, up to the end of the word. -/
def exponent? : List Char → Option Int
  | [] => some 0
  | c :: rest => do
    if c ≠ 'e' ∧ c ≠ 'E' then none
    let (negative, rest) := sign rest
    let n : Int := Text.digitsValue 10 (← wholeDigits? Char.isDigit rest)
    return if negative then -n else n

/-- A number with a fraction or an exponent, an infinite one, or none at all.  A positive one must
not be too large. -/
def isFloat (cs : List Char) : Bool :=
  let (negative, cs) := sign cs
  if cs = "inf".toList || cs = "nan".toList then true
  else
    match decimal? cs with
    | some (whole, '.' :: rest) =>
      match digits? Char.isDigit rest with
      | some (fraction, rest) =>
        match exponent? rest with
        | some e =>
          negative || !isHuge (Text.digitsValue 10 (whole ++ fraction)) (e - fraction.length)
        | none => false
      | none => false
    | some (whole, c :: rest) =>
      match exponent? (c :: rest) with
      | some e => negative || !isHuge (Text.digitsValue 10 whole) e
      | none => false
    | _ => false

/-! ## §4 Points in time -/

/-- A number of exactly `width` digits that is at most `most`. -/
def field? (width most : Nat) (cs : List Char) : Option (Nat × List Char) :=
  let ds := cs.take width
  let n := Text.digitsValue 10 ds
  if ds.length = width ∧ ds.all Char.isDigit ∧ n ≤ most then some (n, cs.drop width) else none

def after? (c : Char) : List Char → Option (List Char)
  | d :: rest => if d = c then some rest else none
  | [] => none

def date? (cs : List Char) : Option (List Char) := do
  let (year, rest) ← field? 4 9999 cs
  let (month, rest) ← field? 2 12 (← after? '-' rest)
  let (day, rest) ← field? 2 31 (← after? '-' rest)
  if Date.isValid { year, month, day } then some rest else none

def time? (cs : List Char) : Option (List Char) := do
  let (_, rest) ← field? 2 23 cs
  let (_, rest) ← field? 2 59 (← after? ':' rest)
  let (_, rest) ← field? 2 60 (← after? ':' rest)
  match rest with
  | '.' :: digit :: rest => if digit.isDigit then some (rest.dropWhile Char.isDigit) else none
  | rest => some rest

/-- An offset from universal time, up to the end of the word. -/
def isOffset : List Char → Bool
  | [] => true
  | ['Z'] => true
  | ['z'] => true
  | c :: rest =>
    if c = '+' || c = '-' then
      match (do
        let (_, rest) ← field? 2 23 rest
        let (_, rest) ← field? 2 59 (← after? ':' rest)
        pure rest) with
      | some [] => true
      | _ => false
    else false

def isDate (cs : List Char) : Bool := date? cs = some []

def isTime (cs : List Char) : Bool := time? cs = some []

/-- A time of day with or without an offset. -/
def isTimeWithOffset (cs : List Char) : Bool :=
  match time? cs with
  | some rest => isOffset rest
  | none => false

def isDateTime (cs : List Char) : Bool :=
  match date? cs with
  | some (c :: rest) => (c = 'T' || c = 't') && isTimeWithOffset rest
  | _ => false

/-! ## §5 Words -/

def isWordChar (c : Char) : Bool :=
  c.isAlphanum || c = '_' || c = '+' || c = '-' || c = '.' || c = ':'

def word? (cs : List Char) : Option Value :=
  if cs = "true".toList then some (.boolean true)
  else if cs = "false".toList then some (.boolean false)
  else if isDate cs || isTime cs || isDateTime cs then some (.datetime (String.ofList cs))
  else if isFloat cs then some (.float (String.ofList cs))
  else (integer? cs).map .integer

/-- One value that is no string, list or table.  Between a date and a time may stand a space. -/
def scalar? (cs : List Char) : Option (Value × List Char) := do
  let word := cs.takeWhile isWordChar
  let rest := cs.dropWhile isWordChar
  if isDate word then
    match rest with
    | ' ' :: after =>
      let time := after.takeWhile isWordChar
      if isTimeWithOffset time then
        return (.datetime (String.ofList (word ++ ' ' :: time)), after.dropWhile isWordChar)
    | _ => pure ()
  return (← word? word, rest)

end BackupVault.Toml
