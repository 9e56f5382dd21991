import BackupVault.Bytes
import BackupVault.Crypto.Sha1

/-!
# Randomness

Identities, session keys, seeds and labels are drawn from an endless supply of bytes.  Nothing is
assumed of the supply; a program stretches a seed from the system into one.
-/

set_option autoImplicit false

namespace BackupVault

/-- An endless supply of bytes, some of them used. -/
structure Entropy where
  byte : Nat → UInt8
  used : Nat := 0

namespace Entropy

/-- A seed stretched by hashing it together with a counter. -/
def ofSeed (seed : Bytes) : Entropy where
  byte i := Bytes.at0 (Sha1.hash (seed ++ Bytes.ofNatLE 8 i)) 0

def draw (e : Entropy) (n : Nat) : Bytes × Entropy :=
  (Bytes.ofList ((List.range n).map fun i => e.byte (e.used + i)), { e with used := e.used + n })

def drawNat (e : Entropy) (n : Nat) : Nat × Entropy :=
  let (b, e) := e.draw n
  (b.toNatBE, e)

end Entropy

end BackupVault
