import BackupVault.Bytes

/-!
# Written numbers

Numbers as people write them: digits, perhaps after a sign.
-/

set_option autoImplicit false

namespace BackupVault.Text

def digitsValue (base : Nat) (ds : List Char) : Nat :=
  ds.foldl (fun n c => base * n + (Bytes.hexValue? c).getD 0) 0

def digits? (cs : List Char) : Option Nat :=
  if !cs.isEmpty && cs.all Char.isDigit then some (digitsValue 10 cs) else none

/-- The number below a limit that is written as digits, perhaps after a plus sign. -/
def decimal? (limit : Nat) (cs : List Char) : Option Nat :=
  let digits : List Char := match cs with
    | '+' :: rest => rest
    | cs => cs
  (digits? digits).filter (· < limit)

/-- Likewise, where zero may also be written with a minus sign. -/
def signedDecimal? (limit : Nat) (cs : List Char) : Option Nat :=
  match cs with
  | '-' :: rest => (digits? rest).filter (· = 0)
  | cs => decimal? limit cs

end BackupVault.Text
