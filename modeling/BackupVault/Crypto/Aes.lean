import BackupVault.Bytes

/-!
# The AES-128 block cipher

A block is four columns of four bytes.  Each round substitutes the bytes, shifts the rows, mixes
the columns and adds a round key; each of these steps stands beside the step that undoes it.

## Overview

- `Aes.substitute`, `Aes.desubstitute`: bytes
- `Aes.Block.shiftRows`, `Aes.Block.unshiftRows`: rows
- `Aes.Column.mix`, `Aes.Column.unmix`: columns, over the field of 256 elements
- `Aes.Schedule.ofKey`: the eleven round keys
- `Aes.Schedule.encrypt`, `Aes.Schedule.decrypt`: one block
-/

set_option autoImplicit false

namespace BackupVault.Aes

/-! ## §1 Bytes -/

def substitution : Array UInt8 := #[
  0x63, 0x7c, 0x77, 0x7b, 0xf2, 0x6b, 0x6f, 0xc5, 0x30, 0x01, 0x67, 0x2b, 0xfe, 0xd7, 0xab, 0x76,
  0xca, 0x82, 0xc9, 0x7d, 0xfa, 0x59, 0x47, 0xf0, 0xad, 0xd4, 0xa2, 0xaf, 0x9c, 0xa4, 0x72, 0xc0,
  0xb7, 0xfd, 0x93, 0x26, 0x36, 0x3f, 0xf7, 0xcc, 0x34, 0xa5, 0xe5, 0xf1, 0x71, 0xd8, 0x31, 0x15,
  0x04, 0xc7, 0x23, 0xc3, 0x18, 0x96, 0x05, 0x9a, 0x07, 0x12, 0x80, 0xe2, 0xeb, 0x27, 0xb2, 0x75,
  0x09, 0x83, 0x2c, 0x1a, 0x1b, 0x6e, 0x5a, 0xa0, 0x52, 0x3b, 0xd6, 0xb3, 0x29, 0xe3, 0x2f, 0x84,
  0x53, 0xd1, 0x00, 0xed, 0x20, 0xfc, 0xb1, 0x5b, 0x6a, 0xcb, 0xbe, 0x39, 0x4a, 0x4c, 0x58, 0xcf,
  0xd0, 0xef, 0xaa, 0xfb, 0x43, 0x4d, 0x33, 0x85, 0x45, 0xf9, 0x02, 0x7f, 0x50, 0x3c, 0x9f, 0xa8,
  0x51, 0xa3, 0x40, 0x8f, 0x92, 0x9d, 0x38, 0xf5, 0xbc, 0xb6, 0xda, 0x21, 0x10, 0xff, 0xf3, 0xd2,
  0xcd, 0x0c, 0x13, 0xec, 0x5f, 0x97, 0x44, 0x17, 0xc4, 0xa7, 0x7e, 0x3d, 0x64, 0x5d, 0x19, 0x73,
  0x60, 0x81, 0x4f, 0xdc, 0x22, 0x2a, 0x90, 0x88, 0x46, 0xee, 0xb8, 0x14, 0xde, 0x5e, 0x0b, 0xdb,
  0xe0, 0x32, 0x3a, 0x0a, 0x49, 0x06, 0x24, 0x5c, 0xc2, 0xd3, 0xac, 0x62, 0x91, 0x95, 0xe4, 0x79,
  0xe7, 0xc8, 0x37, 0x6d, 0x8d, 0xd5, 0x4e, 0xa9, 0x6c, 0x56, 0xf4, 0xea, 0x65, 0x7a, 0xae, 0x08,
  0xba, 0x78, 0x25, 0x2e, 0x1c, 0xa6, 0xb4, 0xc6, 0xe8, 0xdd, 0x74, 0x1f, 0x4b, 0xbd, 0x8b, 0x8a,
  0x70, 0x3e, 0xb5, 0x66, 0x48, 0x03, 0xf6, 0x0e, 0x61, 0x35, 0x57, 0xb9, 0x86, 0xc1, 0x1d, 0x9e,
  0xe1, 0xf8, 0x98, 0x11, 0x69, 0xd9, 0x8e, 0x94, 0x9b, 0x1e, 0x87, 0xe9, 0xce, 0x55, 0x28, 0xdf,
  0x8c, 0xa1, 0x89, 0x0d, 0xbf, 0xe6, 0x42, 0x68, 0x41, 0x99, 0x2d, 0x0f, 0xb0, 0x54, 0xbb, 0x16]

def inverseSubstitution : Array UInt8 :=
  (List.range 256).foldl
    (fun t i => t.set! (substitution.getD i 0).toNat (UInt8.ofNat i)) (Array.replicate 256 0)

def substitute (x : UInt8) : UInt8 := substitution.getD x.toNat 0

def desubstitute (x : UInt8) : UInt8 := inverseSubstitution.getD x.toNat 0

/-- Multiplication by `x` in the field of 256 elements. -/
def double (a : UInt8) : UInt8 := if a < 0x80 then a <<< 1 else (a <<< 1) ^^^ 0x1b

/-! ## §2 Columns -/

/-- Four bytes. -/
structure Column where
  a : UInt8
  b : UInt8
  c : UInt8
  d : UInt8
deriving DecidableEq

namespace Column

def add (s t : Column) : Column := ⟨s.a ^^^ t.a, s.b ^^^ t.b, s.c ^^^ t.c, s.d ^^^ t.d⟩

def map (f : UInt8 → UInt8) (s : Column) : Column := ⟨f s.a, f s.b, f s.c, f s.d⟩

/-- The bytes moved up by one place, the first becoming the last. -/
def rotate (s : Column) : Column := ⟨s.b, s.c, s.d, s.a⟩

/-- The product with the circulant matrix of `2, 3, 1, 1`. -/
def mix (s : Column) : Column :=
  let row (a b c d : UInt8) : UInt8 := double a ^^^ double b ^^^ b ^^^ c ^^^ d
  ⟨row s.a s.b s.c s.d, row s.b s.c s.d s.a, row s.c s.d s.a s.b, row s.d s.a s.b s.c⟩

/-- The product with the circulant matrix of `14, 11, 13, 9`, the inverse of the other one.  It is
the other one times the circulant matrix of `5, 0, 4, 0`. -/
def unmix (s : Column) : Column :=
  let u := double (double (s.a ^^^ s.c))
  let v := double (double (s.b ^^^ s.d))
  mix ⟨s.a ^^^ u, s.b ^^^ v, s.c ^^^ u, s.d ^^^ v⟩

end Column

/-! ## §3 Blocks -/

/-- Sixteen bytes, column by column. -/
structure Block where
  w : Column
  x : Column
  y : Column
  z : Column
deriving DecidableEq

namespace Block

def zero : Block := ⟨⟨0, 0, 0, 0⟩, ⟨0, 0, 0, 0⟩, ⟨0, 0, 0, 0⟩, ⟨0, 0, 0, 0⟩⟩

def add (s t : Block) : Block := ⟨s.w.add t.w, s.x.add t.x, s.y.add t.y, s.z.add t.z⟩

def map (f : Column → Column) (s : Block) : Block := ⟨f s.w, f s.x, f s.y, f s.z⟩

/-- Row `r` moved to the left by `r` places. -/
def shiftRows (s : Block) : Block :=
  ⟨⟨s.w.a, s.x.b, s.y.c, s.z.d⟩, ⟨s.x.a, s.y.b, s.z.c, s.w.d⟩,
   ⟨s.y.a, s.z.b, s.w.c, s.x.d⟩, ⟨s.z.a, s.w.b, s.x.c, s.y.d⟩⟩

def unshiftRows (s : Block) : Block :=
  ⟨⟨s.w.a, s.z.b, s.y.c, s.x.d⟩, ⟨s.x.a, s.w.b, s.z.c, s.y.d⟩,
   ⟨s.y.a, s.x.b, s.w.c, s.z.d⟩, ⟨s.z.a, s.y.b, s.x.c, s.w.d⟩⟩

/-- The column whose bytes begin at index `i`; bytes past the end count as zero. -/
def columnAt (b : Bytes) (i : Nat) : Column :=
  ⟨Bytes.at0 b i, Bytes.at0 b (i + 1), Bytes.at0 b (i + 2), Bytes.at0 b (i + 3)⟩

def ofBytesAt (b : Bytes) (i : Nat) : Block :=
  ⟨columnAt b i, columnAt b (i + 4), columnAt b (i + 8), columnAt b (i + 12)⟩

def pushColumn (b : Bytes) (c : Column) : Bytes := (((b.push c.a).push c.b).push c.c).push c.d

def push (b : Bytes) (s : Block) : Bytes :=
  pushColumn (pushColumn (pushColumn (pushColumn b s.w) s.x) s.y) s.z

end Block

/-! ## §4 Rounds -/

/-- One round: substitute, shift, mix and add the round key. -/
def round (s key : Block) : Block :=
  (((s.map (Column.map substitute)).shiftRows).map Column.mix).add key

def unround (s key : Block) : Block :=
  (((s.add key).map Column.unmix).unshiftRows).map (Column.map desubstitute)

/-- The last round mixes no columns. -/
def lastRound (s key : Block) : Block :=
  ((s.map (Column.map substitute)).shiftRows).add key

def unlastRound (s key : Block) : Block :=
  ((s.add key).unshiftRows).map (Column.map desubstitute)

/-- The round key after `key`, with the constant of its round. -/
def nextKey (key : Block) (constant : UInt8) : Block :=
  let w := (key.w.add (key.z.rotate.map substitute)).add ⟨constant, 0, 0, 0⟩
  let x := key.x.add w
  let y := key.y.add x
  ⟨w, x, y, key.z.add y⟩

/-- The round keys: one before the rounds, one for each round, and one for the last. -/
structure Schedule where
  first : Block
  middle : List Block
  last : Block

namespace Schedule

def expand (key : Block) : List UInt8 → List Block
  | [] => []
  | c :: rest =>
    let next := nextKey key c
    next :: expand next rest

def ofKey (key : Block) : Schedule :=
  let middle := expand key [0x01, 0x02, 0x04, 0x08, 0x10, 0x20, 0x40, 0x80, 0x1b]
  { first := key, middle, last := nextKey (middle.getLastD key) 0x36 }

def encrypt (k : Schedule) (s : Block) : Block :=
  lastRound (k.middle.foldl round (s.add k.first)) k.last

def decrypt (k : Schedule) (s : Block) : Block :=
  (k.middle.foldr (fun key s => unround s key) (unlastRound s k.last)).add k.first

end Schedule

end BackupVault.Aes
