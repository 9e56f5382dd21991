import BackupVault.Bytes

/-!
# Reading bytes as text that cannot fail

Well-formed UTF-8 is read as it stands.  Where the bytes are not well formed, the longest piece
that could still have begun a character becomes one replacement character, and reading goes on
with the byte after it.
-/

set_option autoImplicit false

namespace BackupVault.Text

def replacement : Char := Char.ofNat 0xfffd

def isWithin (lo hi : UInt8) (b : UInt8) : Bool := lo ≤ b && b ≤ hi

/-- How many continuation bytes a lead byte asks for, with the bounds of the first of them;
`none` for a byte that cannot begin a longer character. -/
def continuation? (lead : UInt8) : Option (Nat × UInt8 × UInt8) :=
  if isWithin 0xc2 0xdf lead then some (1, 0x80, 0xbf)
  else if lead == 0xe0 then some (2, 0xa0, 0xbf)
  else if lead == 0xed then some (2, 0x80, 0x9f)
  else if isWithin 0xe1 0xef lead then some (2, 0x80, 0xbf)
  else if lead == 0xf0 then some (3, 0x90, 0xbf)
  else if isWithin 0xf1 0xf3 lead then some (3, 0x80, 0xbf)
  else if lead == 0xf4 then some (3, 0x80, 0x8f)
  else none

/-- Take `need` continuation bytes, the first within the given bounds and the others within the
usual ones.  The value grows by six bits for each; `none` where a byte does not fit, which is
then left in place. -/
def takeContinuation (value : Nat) (lo hi : UInt8) :
    (need : Nat) → List UInt8 → Option Nat × List UInt8
  | 0, rest => (some value, rest)
  | _ + 1, [] => (none, [])
  | need + 1, b :: rest =>
    if isWithin lo hi b then
      takeContinuation (value * 64 + (b.toNat - 0x80)) 0x80 0xbf need rest
    else (none, b :: rest)

theorem length_takeContinuation (value : Nat) (lo hi : UInt8) (need : Nat) (bs : List UInt8) :
    (takeContinuation value lo hi need bs).2.length ≤ bs.length := by
  fun_induction takeContinuation value lo hi need bs <;> simp_all
  omega

/-- The value bits of a lead byte that asks for `need` continuation bytes. -/
def leadBits (need : Nat) (lead : UInt8) : Nat := lead.toNat % (1 <<< (6 - need))

def lossyChars : List UInt8 → List Char
  | [] => []
  | b :: rest =>
    if b < 0x80 then Char.ofNat b.toNat :: lossyChars rest
    else
      match continuation? b with
      | none => replacement :: lossyChars rest
      | some (need, lo, hi) =>
        have := length_takeContinuation (leadBits need b) lo hi need rest
        ((takeContinuation (leadBits need b) lo hi need rest).1.elim replacement Char.ofNat) ::
          lossyChars (takeContinuation (leadBits need b) lo hi need rest).2
termination_by bs => bs.length

def lossy (b : Bytes) : String :=
  match String.fromUTF8? b with
  | some s => s
  | none => String.ofList (lossyChars b.data.toList)

end BackupVault.Text
