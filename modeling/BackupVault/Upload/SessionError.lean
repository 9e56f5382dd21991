import BackupVault.Crypto.Error
import BackupVault.Storage.Error
import BackupVault.Wire.Error

/-!
# Errors of sessions

Why the server ends a conversation with an uploading client before its time.
-/

set_option autoImplicit false

namespace BackupVault

inductive SessionError where
  | wire (e : WireError)
  | crypto (e : CryptoError)
  | storage (e : StorageError)
  /-- The client is not known, or not by this name. -/
  | unknownClient (who : String)
  /-- A message could not be sent. -/
  | io (cause : IoFailure)
deriving DecidableEq

def SessionError.kind : SessionError → String
  | wire e => "Protocol." ++ e.kind
  | crypto e => "Crypto." ++ e.kind
  | storage e => "Storage." ++ e.kind
  | unknownClient _ => "UnknownClient"
  | io _ => "Io"

def SessionError.message : SessionError → String
  | wire e => e.message
  | crypto e => e.message
  | storage e => e.message
  | unknownClient who => "Unknown client " ++ who
  | io cause => "I/O error: " ++ cause.message

def SessionError.outline : SessionError → String
  | crypto e => e.outline
  | storage e => e.outline
  | e => e.message

end BackupVault
