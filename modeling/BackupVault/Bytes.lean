/-!
# Byte strings

Everything that crosses a connection or lies in a file is a packed byte string.  The stable view
of one is the list `b.data.toList`; numbers enter and leave it in either byte order.

## Overview

- `Bytes.replicate`, `Bytes.ramp`: long strings built by doubling
- `Bytes.ofNatLE`, `Bytes.toNatLE`: fixed-width little-endian numbers (the wire)
- `Bytes.ofNatBE`, `Bytes.toNatBE`: big-endian numbers (keys and hashes)
- `Bytes.hex`, `Bytes.ofHex?`: lower-case hexadecimal text
-/

set_option autoImplicit false

namespace BackupVault

/-- A packed string of bytes. -/
abbrev Bytes := ByteArray

/-- Two byte strings are compared on the packed form, wherever an equality test is asked for. -/
instance (priority := 2000) : DecidableEq Bytes := ByteArray.decEq

namespace Bytes

/-! ## §1 Building -/

def ofList (xs : List UInt8) : Bytes := ⟨xs.toArray⟩

theorem size_ofList (xs : List UInt8) : (ofList xs).size = xs.length := rfl

/-- The UTF-8 encoding of a text. -/
def ofText (s : String) : Bytes := s.toUTF8

/-- `n` copies of one byte.  Doubling keeps the number of appends logarithmic. -/
def replicate (n : Nat) (b : UInt8) : Bytes :=
  if n = 0 then ByteArray.empty
  else
    let half := replicate (n / 2) b
    if n % 2 = 0 then half ++ half else (half ++ half).push b
termination_by n

/-- The bytes `0, 1, 2, …` modulo 256, `n` of them. -/
def ramp (n : Nat) : Bytes :=
  let cycle := ofList ((List.range 256).map UInt8.ofNat)
  let rec rounds (k : Nat) : Bytes :=
    if k = 0 then ByteArray.empty
    else
      let half := rounds (k / 2)
      if k % 2 = 0 then half ++ half else half ++ half ++ cycle
  termination_by k
  (rounds (n / 256 + 1)).extract 0 n

/-- Bytes filled up with zeros, or cut, to the given size. -/
def fit (size : Nat) (b : Bytes) : Bytes :=
  ofList ((b.data.toList ++ List.replicate size 0).take size)

theorem size_fit (size : Nat) (b : Bytes) : (fit size b).size = size := by
  rw [fit, size_ofList]
  simp

/-- The byte at an index; zero past the end. -/
def at0 (b : Bytes) (i : Nat) : UInt8 := if h : i < b.size then b.get i h else 0

def allFrom (b : Bytes) (i : Nat) (p : UInt8 → Bool) : Bool :=
  if i < b.size then p (b.at0 i) && allFrom b (i + 1) p else true
termination_by b.size - i

/-! ## §2 Numbers -/

/-- The `width` low bytes of `n`, least significant first. -/
def listOfNatLE : (width n : Nat) → List UInt8
  | 0, _ => []
  | width + 1, n => UInt8.ofNat n :: listOfNatLE width (n / 256)

def natOfListLE : List UInt8 → Nat
  | [] => 0
  | x :: xs => x.toNat + 256 * natOfListLE xs

def ofNatLE (width n : Nat) : Bytes := ofList (listOfNatLE width n)

def toNatLE (b : Bytes) : Nat := natOfListLE b.data.toList

/-- The `width` low bytes of `n`, most significant first. -/
def ofNatBE (width n : Nat) : Bytes := ofList (listOfNatLE width n).reverse

def toNatBE (b : Bytes) : Nat :=
  b.data.toList.foldl (fun n x => 256 * n + x.toNat) 0

/-- How many bytes a number needs; zero needs none. -/
def byteLength (n : Nat) : Nat := if n = 0 then 0 else Nat.log2 n / 8 + 1

/-! ## §3 Hexadecimal text -/

def hexDigit (n : Nat) : Char := "0123456789abcdef".toList.getD n '0'

/-- The value of a hexadecimal digit of either case. -/
def hexValue? (c : Char) : Option Nat :=
  if '0' ≤ c ∧ c ≤ '9' then some (c.toNat - '0'.toNat)
  else if 'a' ≤ c ∧ c ≤ 'f' then some (c.toNat - 'a'.toNat + 10)
  else if 'A' ≤ c ∧ c ≤ 'F' then some (c.toNat - 'A'.toNat + 10)
  else none

def hex (b : Bytes) : String :=
  String.ofList (b.data.toList.flatMap fun x => [hexDigit (x.toNat / 16), hexDigit (x.toNat % 16)])

/-- The bytes written as pairs of hexadecimal digits, of either case. -/
def ofHexDigits? : List Char → Option (List UInt8)
  | [] => some []
  | [_] => none
  | a :: b :: rest => do
    let high ← hexValue? a
    let low ← hexValue? b
    return UInt8.ofNat (16 * high + low) :: (← ofHexDigits? rest)

def ofHex? (s : String) : Option Bytes := (ofHexDigits? s.toList).map ofList

/-! ## §4 Order -/

/-- Byte strings compare by their first difference, a proper beginning coming first. -/
def lexLt : List UInt8 → List UInt8 → Bool
  | _, [] => false
  | [], _ :: _ => true
  | x :: xs, y :: ys => x < y || (x == y && lexLt xs ys)

def le (a b : Bytes) : Bool := !lexLt b.data.toList a.data.toList

end Bytes

end BackupVault
