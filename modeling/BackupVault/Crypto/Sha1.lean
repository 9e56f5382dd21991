import BackupVault.Bytes

/-!
# SHA-1

The hash that pads and masks messages before RSA, and that stretches a seed into random bytes.
-/

set_option autoImplicit false

namespace BackupVault.Sha1

/-- The five words of the running hash. -/
structure Digest where
  a : UInt32
  b : UInt32
  c : UInt32
  d : UInt32
  e : UInt32

def size : Nat := 20

def initial : Digest := ⟨0x67452301, 0xefcdab89, 0x98badcfe, 0x10325476, 0xc3d2e1f0⟩

def rotate (n : UInt32) (w : UInt32) : UInt32 := (w <<< n) ||| (w >>> (32 - n))

/-- The message, a one bit, zeros up to a multiple of 64 bytes less eight, and the length in bits
as eight bytes. -/
def pad (message : Bytes) : Bytes :=
  message.push 0x80 ++ Bytes.replicate ((119 - message.size % 64) % 64) 0 ++
    Bytes.ofNatBE 8 (8 * message.size)

/-- The word whose four bytes begin at index `i`. -/
def wordAt (b : Bytes) (i : Nat) : UInt32 :=
  let byte (k : Nat) : UInt32 := (Bytes.at0 b (i + k)).toUInt32
  (byte 0 <<< 24) ||| (byte 1 <<< 16) ||| (byte 2 <<< 8) ||| byte 3

/-- The eighty words that a block expands to; each new one mixes four earlier ones. -/
def schedule (b : Bytes) (offset : Nat) : Array UInt32 :=
  let first := (Array.range 16).map fun i => wordAt b (offset + 4 * i)
  (List.range 64).foldl (fun w i =>
    w.push (rotate 1 (w.getD (i + 13) 0 ^^^ w.getD (i + 8) 0 ^^^ w.getD (i + 2) 0 ^^^
      w.getD i 0))) first

/-- The mixing function and the constant of round `t`. -/
def mix (t : Nat) (b c d : UInt32) : UInt32 :=
  if t < 20 then ((b &&& c) ||| (~~~ b &&& d)) + 0x5a827999
  else if t < 40 then (b ^^^ c ^^^ d) + 0x6ed9eba1
  else if t < 60 then ((b &&& c) ||| (b &&& d) ||| (c &&& d)) + 0x8f1bbcdc
  else (b ^^^ c ^^^ d) + 0xca62c1d6

def round (s : Digest) (t : Nat) (w : UInt32) : Digest :=
  ⟨rotate 5 s.a + mix t s.b s.c s.d + s.e + w, s.a, rotate 30 s.b, s.c, s.d⟩

/-- Move the block at the given offset into the running hash. -/
def compress (s : Digest) (b : Bytes) (offset : Nat) : Digest :=
  let w := schedule b offset
  let r := (List.range 80).foldl (fun s t => round s t (w.getD t 0)) s
  ⟨s.a + r.a, s.b + r.b, s.c + r.c, s.d + r.d, s.e + r.e⟩

def Digest.bytes (s : Digest) : Bytes :=
  Bytes.ofNatBE 4 s.a.toNat ++ Bytes.ofNatBE 4 s.b.toNat ++ Bytes.ofNatBE 4 s.c.toNat ++
    Bytes.ofNatBE 4 s.d.toNat ++ Bytes.ofNatBE 4 s.e.toNat

def hash (message : Bytes) : Bytes :=
  let padded := pad message
  ((List.range (padded.size / 64)).foldl (fun s i => compress s padded (64 * i)) initial).bytes

end BackupVault.Sha1
