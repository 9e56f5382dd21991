import BackupVault.Wire.Frame
import BackupVault.Wire.Reader

/-!
# Fields as data

A list of fields to put into a frame, and a list of fields to take from a reader.  Putting and
taking go on after a field that fails, except in a frame that is itself such a field.

## Overview

- `Put`, `Frame.put`, `Frame.putEach`: the fields are written in place
- `Get`, `Field`, `Get.read`, `Reader.getEach`
-/

set_option autoImplicit false

namespace BackupVault

/-! ## §1 Putting -/

/-- A field to put into a frame. -/
inductive Put where
  | u8 (v : UInt8)
  | u16 (v : UInt16)
  | u32 (v : UInt32)
  | bytes (b : Bytes)
  /-- A frame built on its own.  Building it stops at a field that cannot be put, and there is
  nothing to put then.  A frame that was built can always be put (`Frame.putFrame`); if its builder
  went on after such a field, it is the frame of the fields that could be put
  (`Frame.putEach`). -/
  | frame (fields : List Put)
  | name (n : Name)
  | clientId (id : ClientId)
  | text (s : String)
  | blob (b : Bytes)

namespace Frame

/-- A piece of work on a frame in place.  What was written before a failure stays written. -/
abbrev Step := EStateM WireError Frame Unit

/-- Measure a text, then write its length in two bytes, then write the text. -/
def textStep (field text : String) : Step := do
  let b := Bytes.ofText text
  if b.size > maxText then throw (.fieldTooLong field b.size maxText)
  modify (·.putU16 (UInt16.ofNat b.size))
  modify (·.putBytes b)

/-- Check the length of some bytes, then write it in four bytes, then write the bytes. -/
def blobStep (field : String) (b : Bytes) : Step := do
  let size ← ofExcept (checkedSize field b.size)
  modify (·.putU32 size)
  modify (·.putBytes b)

mutual

def put : Put → Step
  | .u8 v => modify (·.putU8 v)
  | .u16 v => modify (·.putU16 v)
  | .u32 v => modify (·.putU32 v)
  | .bytes b => modify (·.putBytes b)
  | .frame fields => fun f =>
    match putAll fields empty with
    | .ok _ built => .ok () (f.putFrame built)
    | .error e _ => .error e f
  | .name n => modify (·.putName n)
  | .clientId id => modify (·.putClientId id)
  | .text s => textStep "text" s
  | .blob b => blobStep "blob" b

/-- Put the fields one after another, up to the first that fails. -/
def putAll : List Put → Step
  | [] => pure ()
  | p :: rest => do
    put p
    putAll rest

end

/-- Put the fields one by one, going on after those that fail.  Also gives the size of the frame, or
the error, after each. -/
def putEach (f : Frame) : List Put → List (Except WireError Nat) × Frame
  | [] => ([], f)
  | p :: rest =>
    let (told, g) : Except WireError Nat × Frame :=
      match put p f with
      | .ok _ g => (.ok g.size, g)
      | .error e g => (.error e, g)
    let (sizes, last) := putEach g rest
    (told :: sizes, last)

end Frame

/-! ## §2 Getting -/

/-- A field to take from a reader. -/
inductive Get where
  | u8
  | u16
  | u32
  | bytes (n : Nat)
  /-- A block whose length was declared elsewhere. -/
  | block (n : UInt32)
  | textOf (n : Nat)
  | text
  | blob
  | name
  | clientId

inductive Field where
  | number (n : Nat)
  | bytes (b : Bytes)
  | text (s : String)
  | name (n : Name)
  | clientId (id : ClientId)
deriving DecidableEq

namespace Get

def read : Get → Read Field
  | u8 => do return .number (← Reader.u8).toNat
  | u16 => do return .number (← Reader.u16).toNat
  | u32 => do return .number (← Reader.u32).toNat
  | bytes n => do return .bytes (← Reader.bytes n)
  | block n => do return .bytes (← Reader.block n)
  | textOf n => do return .text (← Reader.textOf n "text")
  | text => do return .text (← Reader.text "text")
  | blob => do return .bytes (← Reader.blob)
  | name => do return .name (← Reader.name)
  | clientId => do return .clientId (← Reader.clientId)

end Get

namespace Reader

/-- Take one field, whatever comes of it. -/
def get (r : Reader) (g : Get) : Except WireError Field × Reader :=
  match g.read r with
  | .ok field r => (.ok field, r)
  | .error e r => (.error e, r)

/-- Take the fields one by one, going on after those that fail. -/
def getEach (r : Reader) : List Get → List (Except WireError Field) × Reader
  | [] => ([], r)
  | g :: rest =>
    let (field, r) := r.get g
    let (fields, r) := getEach r rest
    (field :: fields, r)

end Reader

end BackupVault
