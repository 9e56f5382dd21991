import BackupVault.Config.TransferInfo
import BackupVault.IoFailure

/-!
# Addresses

An address is a host and a port with a colon between them.
-/

set_option autoImplicit false

namespace BackupVault

structure Address where
  host : String
  port : Nat
deriving DecidableEq, Repr

def Address.ofText (s : String) : Except IoFailure Address :=
  match splitAtLastColon s.toList with
  | none => .error .invalidAddress
  | some (host, written) =>
    match port? written with
    | some port => .ok { host := String.ofList host, port }
    | none => .error .invalidPort

end BackupVault
