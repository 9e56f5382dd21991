import BackupVault.Wire.Error
import BackupVault.Wire.Source
import BackupVault.Wire.Name
import BackupVault.Wire.ClientId

/-!
# Readers

A reader takes fields off a source and counts the bytes of the reads that were filled.  Lengths
come from the wire and are checked before anything is read; a source that ends early gives a
short read, never zeros.

## Overview

- `Reader.fill`: the one read that all others are made of
- `Reader.text`, `Reader.blob`, `Reader.name`, `Reader.clientId`: the fields
- `Reader.finish`: closing a block of declared length
-/

set_option autoImplicit false

namespace BackupVault

/-- A source with the count of the bytes read from it. -/
structure Reader where
  source : Source
  /-- The bytes of the reads that were filled completely. -/
  consumed : Nat := 0

/-- Something read from a reader, or the error that stopped it. -/
abbrev Read (α : Type) := EStateM WireError Reader α

namespace Reader

def ofBytes (b : Bytes) : Reader := { source := Source.ofBytes b }

def remaining (r : Reader) : Nat := r.source.left

/-- The error of a read of `needed` bytes that met the end of the source. -/
def endError (needed : Nat) : Ending → WireError
  | .closed => .shortRead needed
  | .failing .unexpectedEnd => .shortRead needed
  | .failing cause => .io cause

/-! ## §1 Reads -/

/-- Exactly `n` bytes.  Only a complete read counts; an incomplete one uses up the source. -/
def fill (n : Nat) : Read Bytes := fun r =>
  let (source, missing) := r.source.skip n
  if missing = 0 then
    .ok (r.source.peek n) { source := source, consumed := r.consumed + n }
  else .error (endError n r.source.ending) { r with source := source }

def u8 : Read UInt8 := do return UInt8.ofNat (← fill 1).toNatLE

def u16 : Read UInt16 := do return UInt16.ofNat (← fill 2).toNatLE

def u32 : Read UInt32 := do return UInt32.ofNat (← fill 4).toNatLE

/-- Exactly `n` bytes; more than `maxPayload` are refused before anything is read. -/
def bytes (n : Nat) : Read Bytes :=
  if n > maxPayload then throw (.payloadTooLarge n) else fill n

def textOf (n : Nat) (field : String) : Read String := do
  match String.fromUTF8? (← bytes n) with
  | some s => return s
  | none => throw (.invalidText field)

/-- A text after its length in two bytes. -/
def text (field : String) : Read String := do
  textOf (← u16).toNat field

/-- Bytes after their length in four bytes. -/
def blob : Read Bytes := do
  bytes (← u32).toNat

def name : Read Name := do return Name.padded (← fill nameCapacity)

def clientId : Read ClientId := do return ClientId.padded (← fill 16)

def rest : Read Bytes := do
  bytes (← get).remaining

/-! ## §2 Blocks of declared length -/

def block (declared : UInt32) : Read Bytes := bytes declared.toNat

/-- Judge what was decoded from a block of `declared` bytes, given the reader it left behind.
Running past the end of the block and leaving bytes in it both mean that the length was wrong. -/
def finish {α : Type} (r : Reader) (decoded : Except WireError α) (declared : UInt32) :
    Except WireError α :=
  match decoded with
  | .error (.shortRead _) => .error (.lengthMismatch declared r.consumed)
  | .error e => .error e
  | .ok value =>
    if r.remaining = 0 then .ok value else .error (.lengthMismatch declared r.consumed)

/-- Decode a block in memory that was declared to have the given length. -/
def decodeBlock {α : Type} (decode : Read α) (block : Bytes) (declared : UInt32) :
    Except WireError α :=
  match decode (ofBytes block) with
  | .ok value r => r.finish (.ok value) declared
  | .error e r => r.finish (.error e) declared

def expectVersion (expected : UInt8) : Read UInt8 := do
  let actual ← u8
  if actual = expected then return actual
  else throw (.versionMismatch expected actual)

/-- The value that a code stands for, or the error for a code without one. -/
def decodeCode {γ α : Type} (table : γ → Option α) (unknown : γ → WireError) (raw : γ) : Read α :=
  match table raw with
  | some code => return code
  | none => throw (unknown raw)

def lift {α : Type} : Except WireError α → Read α
  | .ok value => return value
  | .error e => throw e

end Reader

end BackupVault
