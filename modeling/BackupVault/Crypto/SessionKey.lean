import BackupVault.Bytes
import BackupVault.Crypto.Aes
import BackupVault.Crypto.Entropy
import BackupVault.Crypto.Error

/-!
# Session keys

A session key is sixteen bytes.  It encrypts with AES-128 in the mode that chains each block to
the one before it, from a chain of zeros, after filling up the last block: `n` bytes are missing
to the next full block, and `n` bytes of value `n` are added.

## Overview

- `SessionKey.encrypt`, `SessionKey.decrypt`: the cipher on byte strings
- `Padding.add`, `Padding.remove?`: filling up the last block
- `Chain.encrypt`, `Chain.decrypt`: the chained blocks
-/

set_option autoImplicit false

namespace BackupVault

/-! ## §1 Padding -/

namespace Padding

/-- How many bytes are missing to the next full block; a full block asks for another one. -/
def missing (size : Nat) : Nat := 16 - size % 16

def add (b : Bytes) : Bytes :=
  b ++ Bytes.replicate (missing b.size) (UInt8.ofNat (missing b.size))

/-- The byte string without its padding, if it is padded. -/
def remove? (b : Bytes) : Option Bytes :=
  let n := (Bytes.at0 b (b.size - 1)).toNat
  if 1 ≤ n ∧ n ≤ 16 ∧ n ≤ b.size ∧ Bytes.allFrom b (b.size - n) (fun x => x.toNat == n) then
    some (b.extract 0 (b.size - n))
  else none

end Padding

/-! ## §2 Chained blocks -/

namespace Chain

open Aes

/-- The whole blocks of a byte string. -/
def blocks (b : Bytes) : List Block :=
  (List.range (b.size / 16)).map fun i => Block.ofBytesAt b (16 * i)

def bytes (bs : List Block) : Bytes := bs.foldl Block.push ByteArray.empty

/-- Add to each block the encryption of the one before it, and encrypt. -/
def encrypt (k : Schedule) (chain : Block) : List Block → List Block
  | [] => []
  | b :: rest =>
    let c := k.encrypt (b.add chain)
    c :: encrypt k c rest

/-- Decrypt each block, and take off the encryption of the one before it. -/
def decrypt (k : Schedule) (chain : Block) : List Block → List Block
  | [] => []
  | c :: rest => (k.decrypt c).add chain :: decrypt k c rest

end Chain

/-! ## §3 Keys -/

abbrev SessionKey.size : Nat := 16

/-- A session key: sixteen bytes. -/
structure SessionKey where
  bytes : Bytes
  size_eq : bytes.size = SessionKey.size := by decide
deriving DecidableEq

namespace SessionKey

def ofBytes (b : Bytes) : Except CryptoError SessionKey :=
  if h : b.size = size then .ok ⟨b, h⟩ else .error (.invalidKeySize b.size)

def generate (e : Entropy) : SessionKey × Entropy :=
  let (b, e') := e.draw size
  (⟨Bytes.fit size b, Bytes.size_fit size b⟩, e')

def schedule (k : SessionKey) : Aes.Schedule := Aes.Schedule.ofKey (Aes.Block.ofBytesAt k.bytes 0)

/-- How a diagnosis shows a key: not at all. -/
def debug (_ : SessionKey) : String := "SymmetricKey(..)"

def debugCipher (k : SessionKey) : String :=
  "SymmetricCipher \x7b key: " ++ k.debug ++ " \x7d"

def encrypt (k : SessionKey) (plain : Bytes) : Bytes :=
  Chain.bytes (Chain.encrypt k.schedule Aes.Block.zero (Chain.blocks (Padding.add plain)))

/-- Decrypt a byte string; one that is no encryption under the key is refused. -/
def decrypt (k : SessionKey) (cipher : Bytes) : Except CryptoError Bytes :=
  let refused : Except CryptoError Bytes :=
    .error (.decrypt s!"invalid padding in {cipher.size}-byte ciphertext")
  if cipher.size = 0 ∨ cipher.size % 16 ≠ 0 then refused
  else
    match Padding.remove?
        (Chain.bytes (Chain.decrypt k.schedule Aes.Block.zero (Chain.blocks cipher))) with
    | some plain => .ok plain
    | none => refused

end SessionKey

end BackupVault
