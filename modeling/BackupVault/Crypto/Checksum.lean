import BackupVault.Bytes

/-!
# The `cksum` checksum

The message is read as a polynomial over the field of two elements, most significant bit of each
byte first, followed by the bytes of its length, least significant first and none of them
superfluous.  The checksum is the complement of what is left of it, shifted by 32 places, after
division by the generator.

## Overview

- `Checksum.generator`: the divisor without its leading term
- `Checksum.shiftByte`: eight steps of the division, bit by bit
- `Checksum.step`: the same for a register and a byte, by table
- `cksum`: the whole checksum
-/

set_option autoImplicit false

namespace BackupVault

namespace Checksum

/-- The generator `x³² + x²⁶ + x²³ + … + 1` without its leading term. -/
def generator : UInt32 := 0x04c11db7

/-- One step of the division: shift by one place and take the generator off if its leading term
came up. -/
def shiftBit (r : UInt32) : UInt32 :=
  if r &&& 0x80000000 = 0 then r <<< 1 else (r <<< 1) ^^^ generator

def shiftByte (r : UInt32) : UInt32 :=
  shiftBit (shiftBit (shiftBit (shiftBit (shiftBit (shiftBit (shiftBit (shiftBit r)))))))

/-- `shiftByte` of every register whose low 24 bits are zero. -/
def table : Array UInt32 := Array.ofFn fun i : Fin 256 => shiftByte (UInt32.ofNat i.val <<< 24)

/-- Move one byte of the message into the register. -/
def step (r : UInt32) (b : UInt8) : UInt32 :=
  (r <<< 8) ^^^ table.getD ((r >>> 24) ^^^ b.toUInt32).toNat 0

def feed (b : Bytes) (i : Nat) (r : UInt32) : UInt32 :=
  if i < b.size then feed b (i + 1) (step r (b.at0 i)) else r
termination_by b.size - i

/-- Move the bytes of a length into the register, least significant first; zero has none. -/
def feedLength (n : Nat) (r : UInt32) : UInt32 :=
  if n = 0 then r else feedLength (n / 256) (step r (UInt8.ofNat n))
termination_by n

end Checksum

def cksum (b : Bytes) : UInt32 :=
  ~~~ Checksum.feedLength b.size (Checksum.feed b 0 0)

end BackupVault
