import BackupVault.Crypto.PublicKey
import BackupVault.Encoding.Base64
import BackupVault.Text.Blank

/-!
# RSA key pairs

A client keeps its key pair as one line of base 64.  The line holds the distinguished encoding of
a private key: version, algorithm, and the numbers of a key with two primes.  The three numbers
that only speed up decryption are written, but what is read of them is not trusted.

## Overview

- `KeyPair.isConsistent`: the numbers of a pair fit together
- `KeyPair.ofBase64`, `KeyPair.toBase64`: the line and back
- `KeyPair.decrypt`: undoing the encryption under the public key
- `KeyPair.generate`: a new pair of a given size
-/

set_option autoImplicit false

namespace BackupVault

/-- A public key, the private exponent and the two primes. -/
structure KeyPair where
  modulus : Nat
  exponent : Nat
  privateExponent : Nat
  p : Nat
  q : Nat
deriving DecidableEq, Repr

namespace KeyPair

def publicKey (k : KeyPair) : PublicKey := { modulus := k.modulus, exponent := k.exponent }

/-- The modulus is the product of the primes, and the exponents undo one another modulo each prime
less one. -/
def isConsistent (k : KeyPair) : Bool :=
  k.publicKey.isAcceptable && k.p * k.q == k.modulus && 2 ≤ k.p && 2 ≤ k.q &&
    k.exponent * k.privateExponent % (k.p - 1) == 1 &&
    k.exponent * k.privateExponent % (k.q - 1) == 1

/-- Size of the pair: eight bits for each byte of the modulus. -/
def bits (k : KeyPair) : Nat := 8 * k.publicKey.size

def publicDer (k : KeyPair) : Bytes := k.publicKey.toDer

def debug (k : KeyPair) : String := "KeyPair \x7b bits: " ++ toString k.bits ++ ", .. \x7d"

/-! ## §1 Encoding -/

/-- The numbers of the pair, after the version of a key with two primes.  `none` if one prime has
no inverse modulo the other. -/
def numbers? (k : KeyPair) : Option (List UInt8) := do
  let coefficient ← Modular.inverse? k.q k.p
  return Der.element Der.sequenceTag
    (Der.natural 0 ++ Der.natural k.modulus ++ Der.natural k.exponent ++
      Der.natural k.privateExponent ++ Der.natural k.p ++ Der.natural k.q ++
      Der.natural (k.privateExponent % (k.p - 1)) ++ Der.natural (k.privateExponent % (k.q - 1)) ++
      Der.natural coefficient)

def toDer? (k : KeyPair) : Option (List UInt8) := do
  return Der.element Der.sequenceTag
    (Der.natural 0 ++ rsaAlgorithm ++ Der.element Der.octetStringTag (← k.numbers?))

def toBase64 (k : KeyPair) : Except CryptoError String :=
  match k.toDer? with
  | some bs => .ok (Base64.encode (Bytes.ofList bs))
  | none => .error (.invalidKeyEncoding "primes are not coprime")

def ofNumbers? (bs : List UInt8) : Option KeyPair := do
  let content ← Der.whole? (Der.element? Der.sequenceTag bs)
  let (version, rest) ← Der.natural? content
  let (modulus, rest) ← Der.natural? rest
  let (exponent, rest) ← Der.natural? rest
  let (privateExponent, rest) ← Der.natural? rest
  let (p, rest) ← Der.natural? rest
  let (q, rest) ← Der.natural? rest
  let (_, rest) ← Der.natural? rest
  let (_, rest) ← Der.natural? rest
  let (_, rest) ← Der.natural? rest
  if version = 0 ∧ rest.isEmpty then some { modulus, exponent, privateExponent, p, q } else none

/-- Read the parts that may follow the numbers, each with a tag of the context.  Says whether a
public key is among them: the part numbered one, if only parts numbered zero come before it.
Every part after those holds exactly one element. -/
def extras? : (fuel : Nat) → (early : Bool) → List UInt8 → Option Bool
  | 0, _, _ => none
  | _ + 1, _, [] => some false
  | fuel + 1, early, bs => do
    let (tag, content, rest) ← Der.anyElement? bs
    if !Der.isContextTag tag then none
    if early && Der.tagNumber tag == 0 then extras? fuel true rest
    else if early && Der.tagNumber tag == 1 then
      if tag != 0x81 then none
      let _ ← Der.wholeBits? content
      let _ ← extras? fuel false rest
      return true
    else
      if !Der.isConstructed tag then none
      let _ ← Der.whole? (Der.anyElement? content |>.map fun (_, inner, after) => (inner, after))
      extras? fuel false rest

/-- Read a pair with version and algorithm.  Version one has a public key after the numbers,
version zero has none. -/
def ofDer? (b : Bytes) : Option KeyPair := do
  let content ← Der.whole? (Der.element? Der.sequenceTag b.data.toList)
  let (version, rest) ← Der.natural? content
  let (_, rest) ← PublicKey.algorithm? rest
  let (numbers, rest) ← Der.element? Der.octetStringTag rest
  let hasPublicKey ← extras? (rest.length + 1) true rest
  if version = (if hasPublicKey then 1 else 0) then ofNumbers? numbers else none

/-- The pair in a line of base 64; white space around it does not count. -/
def ofBase64 (s : String) : Except CryptoError KeyPair :=
  match Base64.decode? (Text.trim s) with
  | none => .error (.invalidKeyEncoding "not base 64")
  | some b =>
    match ofDer? b with
    | none => .error (.invalidKeyEncoding "malformed encoding")
    | some k =>
      if k.isConsistent then .ok k else .error (.invalidKeyEncoding "numbers do not fit")

/-! ## §2 Decryption -/

/-- Decrypt a message that was encrypted under the public key.  The result is raised back to the
public exponent, and has to give the ciphertext again. -/
def decrypt (k : KeyPair) (cipher : Bytes) : Except CryptoError Bytes :=
  let c := cipher.toNatBE
  if cipher.size = k.publicKey.size ∧ c < k.modulus then
    let m := Modular.power c k.privateExponent k.modulus
    if Modular.power m k.exponent k.modulus = c then
      match Oaep.unpad? (Bytes.ofNatBE k.publicKey.size m) with
      | some message => .ok message
      | none => .error (.decrypt "decryption error")
    else .error (.decrypt "internal error")
  else .error (.decrypt "decryption error")

/-! ## §3 Generation -/

def newExponent : Nat := 65537

def defaultBits : Nat := 1024

/-- The first probable prime among `n, n + 2, …`, as long as it has the bits that it should. -/
def nextPrime? (limit : Nat) : (tries n : Nat) → Option Nat
  | 0, _ => none
  | tries + 1, n =>
    if n ≥ limit then none
    else if Modular.isProbablePrime n then some n
    else nextPrime? limit tries (n + 2)

/-- A random probable prime of exactly `bits` bits, the two highest of them set. -/
def randomPrime? (bits : Nat) (e : Entropy) : Option Nat × Entropy :=
  let (n, e) := e.drawNat (bits / 8 + 1)
  let start := (3 <<< (bits - 2)) + n % (1 <<< (bits - 2))
  (nextPrime? (1 <<< bits) (100 * bits) (start + 1 - start % 2), e)

/-- Two different primes of half the size each, and the exponents; tried again when they do not
fit together. -/
def search (bits : Nat) : (tries : Nat) → Entropy → Option KeyPair × Entropy
  | 0, e => (none, e)
  | tries + 1, e =>
    let (p, e) := randomPrime? (bits / 2) e
    let (q, e) := randomPrime? (bits - bits / 2) e
    match p, q with
    | some p, some q =>
      match Modular.inverse? newExponent ((p - 1) * (q - 1)) with
      | some d =>
        let k : KeyPair :=
          { modulus := p * q, exponent := newExponent, privateExponent := d, p, q }
        if p ≠ q ∧ k.isConsistent then (some k, e) else search bits tries e
      | none => search bits tries e
    | _, _ => search bits tries e

/-- Why there are no pairs of a size.  Below twelve bits hardly any prime of half the size has its
two highest bits set, and up to sixteen the modulus does not exceed the public exponent. -/
def sizeFault? (bits : Nat) : Option KeySizeFault :=
  if bits < 12 then some .tooFewPrimes
  else if bits ≤ 16 then some .invalidModulus
  else if bits > PublicKey.maxBits then some .modulusTooLarge
  else none

def generate (bits : Nat) (e : Entropy) : Except CryptoError KeyPair × Entropy :=
  match sizeFault? bits with
  | some fault => (.error (.keyGeneration bits fault), e)
  | none =>
    match search bits 1000 e with
    | (some k, e) => (.ok k, e)
    | (none, e) => (.error (.keyGeneration bits .tooFewPrimes), e)

end KeyPair

end BackupVault
