import BackupVault.Bytes
import BackupVault.Crypto.Sha1

/-!
# Padding before RSA

Optimal asymmetric encryption padding with SHA-1 and the empty label: a message becomes a block
of the size of the modulus, masked by a random seed, and the seed is masked in turn.

## Overview

- `Oaep.mask`: the mask that a seed stretches to
- `Oaep.pad?`, `Oaep.unpad?`: one block and back
-/

set_option autoImplicit false

namespace BackupVault.Oaep

/-- The bytes of a block that carry no message: two hashes, a zero and a one. -/
def overhead : Nat := 2 * Sha1.size + 2

def labelHash : Bytes := Sha1.hash ByteArray.empty

/-- A seed stretched to `size` bytes by hashing it together with a counter. -/
def mask (seed : Bytes) (size : Nat) : Bytes :=
  ((List.range (size / Sha1.size + 1)).foldl
    (fun b i => b ++ Sha1.hash (seed ++ Bytes.ofNatBE 4 i)) ByteArray.empty).extract 0 size

def add (a b : Bytes) : Bytes :=
  Bytes.ofList (List.zipWith (· ^^^ ·) a.data.toList b.data.toList)

/-- The block of `size` bytes for a message, if there is room for it. -/
def pad? (size : Nat) (seed message : Bytes) : Option Bytes :=
  if message.size + overhead ≤ size then
    let data := labelHash ++ Bytes.replicate (size - overhead - message.size) 0 ++
      Bytes.ofList [1] ++ message
    let maskedData := add data (mask seed data.size)
    let maskedSeed := add seed (mask maskedData Sha1.size)
    some (Bytes.ofList [0] ++ maskedSeed ++ maskedData)
  else none

/-- The message after the zeros and the one that come before it. -/
def afterOne? : List UInt8 → Option (List UInt8)
  | [] => none
  | b :: rest => if b = 0 then afterOne? rest else if b = 1 then some rest else none

/-- The message in a block, if the block is one that `pad?` makes. -/
def unpad? (block : Bytes) : Option Bytes :=
  if block.size < overhead then none
  else
    let maskedSeed := block.extract 1 (1 + Sha1.size)
    let maskedData := block.extract (1 + Sha1.size) block.size
    let seed := add maskedSeed (mask maskedData Sha1.size)
    let data := add maskedData (mask seed maskedData.size)
    if Bytes.at0 block 0 = 0 ∧ data.extract 0 Sha1.size = labelHash then
      (afterOne? (data.extract Sha1.size data.size).data.toList).map Bytes.ofList
    else none

end BackupVault.Oaep
