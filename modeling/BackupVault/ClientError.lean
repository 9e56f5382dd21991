import BackupVault.Crypto.Error
import BackupVault.Text.Quoted
import BackupVault.Wire.Error

/-!
# Errors of clients

Why a client does not get what it asked for.
-/

set_option autoImplicit false

namespace BackupVault

/-- Why a client does not get what it asked for. -/
inductive ClientError where
  | wire (e : WireError)
  | crypto (e : CryptoError)
  /-- The server does not register the name. -/
  | registrationRejected (name : String)
  /-- The server speaks to another client. -/
  | identityMismatch (expected actual : String)
  | fileNotFound (filename : String)
  | noBackupFiles
  | serverFailure
  /-- A response that does not fit the request. -/
  | unexpectedResponse (code : UInt16)
  | io (cause : IoFailure)
deriving DecidableEq

namespace ClientError

/-- The word for the kind of an error, after that for the part of the program it comes from. -/
def kind : ClientError → String
  | wire e => "Protocol." ++ e.kind
  | crypto e => "Crypto." ++ e.kind
  | registrationRejected _ => "RegistrationRejected"
  | identityMismatch .. => "IdentityMismatch"
  | fileNotFound _ => "FileNotFound"
  | noBackupFiles => "NoBackupFiles"
  | serverFailure => "ServerFailure"
  | unexpectedResponse _ => "UnexpectedResponse"
  | io _ => "Io"

def message : ClientError → String
  | wire e => e.message
  | crypto e => e.message
  | registrationRejected name => "Server rejected registration of " ++ Text.quoted name
  | identityMismatch expected actual => s!"Server answered for {actual}, expected {expected}"
  | fileNotFound filename => "File not found on server: " ++ filename
  | noBackupFiles => "Server has no backup files for this user"
  | serverFailure => "Server failed to handle the request"
  | unexpectedResponse code => s!"Unexpected response code {code}"
  | io cause => "I/O error: " ++ cause.message

/-- The words for an error, with a star for the reason why something cannot be read. -/
def outline : ClientError → String
  | crypto e => e.outline
  | e => e.message

/-- The words for the cause of an error, if something else caused it. -/
def cause? : ClientError → Option String
  | wire e => e.cause?
  | crypto e => e.cause?
  | io cause => some cause.message
  | _ => none

end ClientError

end BackupVault
