import BackupVault.Crypto.Entropy
import BackupVault.IoFailure
import BackupVault.Storage.Error
import BackupVault.Storage.FileTree
import BackupVault.Wire.Source

/-!
# Hosts

What the programs need of the machine that they run on: its files, its network and its
randomness.  The programs are written for any host.
-/

set_option autoImplicit false

namespace BackupVault

/-- A machine for programs to run on, with its kinds of connections and of listeners. -/
class Host (κ ℓ : outParam Type) (m : Type → Type) where
  load : Path → m (Except IoFailure Bytes)
  /-- Write a file, new or in place of its old content. -/
  save : Path → Bytes → m (Except IoFailure Unit)
  /-- An operation on the files below a directory. -/
  below {α : Type} : Path → EStateM StorageError FileTree α → m (Except StorageError α)
  connect : String → m (Except IoFailure κ)
  /-- Send some bytes, and take in bytes until they are enough or no more come. -/
  exchange : κ → Bytes → (Bytes → Bool) → m (Arrival × κ)
  bind : String → m (Except IoFailure ℓ)
  draw {α : Type} : (Entropy → α × Entropy) → m α

/-- A program that may fail runs on the same hosts. -/
instance {ε κ ℓ : Type} {m : Type → Type} [Monad m] [Host κ ℓ m] : Host κ ℓ (ExceptT ε m) where
  load p := ExceptT.lift (Host.load p)
  save p b := ExceptT.lift (Host.save p b)
  below p x := ExceptT.lift (Host.below p x)
  connect address := ExceptT.lift (Host.connect address)
  exchange line sent isEnough := ExceptT.lift (Host.exchange line sent isEnough)
  bind address := ExceptT.lift (Host.bind address)
  draw x := ExceptT.lift (Host.draw x)

def Host.loadText {κ ℓ : Type} {m : Type → Type} [Monad m] [Host κ ℓ m] (p : Path) :
    m (Except IoFailure String) := do
  match ← Host.load p with
  | .error e => return .error e
  | .ok b =>
    match String.fromUTF8? b with
    | some s => return .ok s
    | none => return .error .notText

end BackupVault
