import BackupVault.Crypto.Entropy
import BackupVault.Crypto.Error
import BackupVault.Crypto.Modular
import BackupVault.Crypto.Oaep
import BackupVault.Encoding.Der

/-!
# RSA public keys

A client presents its public key as a distinguished encoding of the algorithm, the modulus and
the exponent.  The server encrypts session keys under it.
-/

set_option autoImplicit false

namespace BackupVault

/-- The algorithm of all keys, as the content of its object identifier, with empty parameters. -/
def rsaAlgorithm : List UInt8 :=
  Der.element Der.sequenceTag
    (Der.element Der.identifierTag [0x2a, 0x86, 0x48, 0x86, 0xf7, 0x0d, 0x01, 0x01, 0x01] ++
      Der.element Der.nullTag [])

structure PublicKey where
  modulus : Nat
  exponent : Nat
deriving DecidableEq, Repr

namespace PublicKey

def maxBits : Nat := 4096

def maxExponent : Nat := (1 <<< 33) - 1

/-- The modulus is odd, larger than the exponent and not too large; the exponent is odd, at least
two and not too large. -/
def isAcceptable (k : PublicKey) : Bool :=
  k.modulus < 1 <<< maxBits && k.exponent < k.modulus && k.modulus % 2 == 1 &&
    k.exponent % 2 == 1 && 2 ≤ k.exponent && k.exponent ≤ maxExponent

/-- Size of the modulus in bytes. -/
def size (k : PublicKey) : Nat := Bytes.byteLength k.modulus

/-! ## §1 Encoding -/

def numbers (k : PublicKey) : List UInt8 :=
  Der.element Der.sequenceTag (Der.natural k.modulus ++ Der.natural k.exponent)

def toDer (k : PublicKey) : Bytes :=
  Bytes.ofList (Der.element Der.sequenceTag (rsaAlgorithm ++ Der.bitString k.numbers))

def ofNumbers? (bs : List UInt8) : Option PublicKey := do
  let content ← Der.whole? (Der.element? Der.sequenceTag bs)
  let (modulus, rest) ← Der.natural? content
  let (exponent, rest) ← Der.natural? rest
  if rest.isEmpty then some { modulus, exponent } else none

/-- Read an algorithm; only `rsaAlgorithm` is known. -/
def algorithm? (bs : List UInt8) : Option (Unit × List UInt8) :=
  if bs.take rsaAlgorithm.length = rsaAlgorithm then some ((), bs.drop rsaAlgorithm.length)
  else none

def ofDer? (b : Bytes) : Option PublicKey := do
  let content ← Der.whole? (Der.element? Der.sequenceTag b.data.toList)
  let (_, rest) ← algorithm? content
  let bits ← Der.whole? (Der.element? Der.bitStringTag rest)
  ofNumbers? (← Der.wholeBits? bits)

/-- The key with the given encoding, if it is acceptable. -/
def ofDer (b : Bytes) : Except CryptoError PublicKey :=
  match ofDer? b with
  | none => .error (.invalidPublicKey "malformed encoding")
  | some k =>
    if k.isAcceptable then .ok k else .error (.invalidPublicKey "numbers out of range")

/-! ## §2 Encryption -/

/-- The block raised to the public exponent. -/
def raise (k : PublicKey) (block : Bytes) : Bytes :=
  Bytes.ofNatBE k.size (Modular.power block.toNatBE k.exponent k.modulus)

def encryptWith (k : PublicKey) (seed message : Bytes) : Except CryptoError Bytes :=
  match Oaep.pad? k.size seed message with
  | some block => .ok (k.raise block)
  | none => .error (.encrypt "message too long")

def encrypt (k : PublicKey) (message : Bytes) (e : Entropy) : Except CryptoError Bytes × Entropy :=
  let (seed, e) := e.draw Sha1.size
  (k.encryptWith seed message, e)

end PublicKey

end BackupVault
