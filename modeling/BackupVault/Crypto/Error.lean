/-!
# Errors of keys and ciphers

What can be wrong with key material or with a message under a key.
-/

set_option autoImplicit false

namespace BackupVault

/-- Why no key pair of some size can be made. -/
inductive KeySizeFault where
  /-- There are hardly any primes of half the size. -/
  | tooFewPrimes
  /-- The modulus would not be larger than the public exponent. -/
  | invalidModulus
  | modulusTooLarge
deriving DecidableEq, Repr

def KeySizeFault.message : KeySizeFault → String
  | tooFewPrimes => "too few primes of given length to generate an RSA key"
  | invalidModulus => "invalid modulus"
  | modulusTooLarge => "modulus too large"

/-- What is wrong with key material or with a message under a key. -/
inductive CryptoError where
  | keyGeneration (bits : Nat) (fault : KeySizeFault)
  | invalidKeyEncoding (reason : String)
  | invalidPublicKey (reason : String)
  | invalidKeySize (actual : Nat)
  | encrypt (reason : String)
  | decrypt (reason : String)
deriving DecidableEq, Repr

def CryptoError.kind : CryptoError → String
  | keyGeneration .. => "KeyGeneration"
  | invalidKeyEncoding _ => "InvalidKeyEncoding"
  | invalidPublicKey _ => "InvalidPublicKey"
  | invalidKeySize _ => "InvalidSymmetricKeyLength"
  | encrypt _ => "Encrypt"
  | decrypt _ => "Decrypt"

def CryptoError.message : CryptoError → String
  | keyGeneration bits fault => s!"Failed to generate {bits}-bit RSA key: " ++ fault.message
  | invalidKeyEncoding reason => "Invalid private key encoding: " ++ reason
  | invalidPublicKey reason => "Invalid public key: " ++ reason
  | invalidKeySize actual => s!"Symmetric key must be 16 bytes, got {actual}"
  | encrypt reason => "Encryption failed: " ++ reason
  | decrypt reason => "Decryption failed: " ++ reason

def CryptoError.outline : CryptoError → String
  | invalidKeyEncoding _ => (invalidKeyEncoding "*").message
  | invalidPublicKey _ => (invalidPublicKey "*").message
  | e => e.message

def CryptoError.cause? : CryptoError → Option String
  | keyGeneration _ fault => some fault.message
  | _ => none

end BackupVault
