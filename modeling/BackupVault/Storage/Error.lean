import BackupVault.Crypto.Error
import BackupVault.IoFailure
import BackupVault.Storage.Path
import BackupVault.Text.Quoted
import BackupVault.Wire.ClientId

/-!
# Errors of storage

What can be wrong with a user's files or with the directory of clients.
-/

set_option autoImplicit false

namespace BackupVault

/-- What is wrong with the file that holds the directory of clients.  Clients are named as the file
names them. -/
inductive DirectoryFault where
  /-- The file is no document, or has a value of the wrong kind. -/
  | malformed
  | invalidId (written : String)
  | duplicateName (name : String)
  | badPublicKey (client reason : String)
  | unreadableSessionKey (client : String)
  | badSessionKey (client : String) (e : CryptoError)
deriving DecidableEq

def DirectoryFault.message : DirectoryFault → String
  | malformed => "not a valid document"
  | invalidId written => "invalid client id " ++ Text.quoted written
  | duplicateName name => "duplicate name " ++ Text.quoted name
  | badPublicKey client reason => "public key of " ++ client ++ ": " ++ reason
  | unreadableSessionKey client => "session key of " ++ client ++ ": not base 64"
  | badSessionKey client e => "session key of " ++ client ++ ": " ++ e.message

def DirectoryFault.outline : DirectoryFault → String
  | malformed => "*"
  | badPublicKey client _ => (badPublicKey client "*").message
  | unreadableSessionKey client => "session key of " ++ client ++ ": *"
  | fault => fault.message

/-- What is wrong with a user's files or with the directory of clients. -/
inductive StorageError where
  | userNotFound (user : UserId)
  | fileNotFound (path : Path)
  | alreadyExists (path : Path)
  | deleteFailed (path : Path) (cause : IoFailure)
  | invalidFilename (filename : String)
  | invalidClientDirectory (path : Path) (fault : DirectoryFault)
  | io (path : Path) (cause : IoFailure)
deriving DecidableEq

namespace StorageError

def kind : StorageError → String
  | userNotFound _ => "UserNotFound"
  | fileNotFound _ => "FileNotFound"
  | alreadyExists _ => "AlreadyExists"
  | deleteFailed .. => "DeleteFailed"
  | invalidFilename _ => "InvalidFilename"
  | invalidClientDirectory .. => "InvalidClientDirectory"
  | io .. => "Io"

def message : StorageError → String
  | userNotFound user => s!"No backup directory for user {user}"
  | fileNotFound path => "File not found: " ++ path.display
  | alreadyExists path => "File already exists: " ++ path.display
  | deleteFailed path cause => "Failed to delete " ++ path.display ++ ": " ++ cause.message
  | invalidFilename filename => "Invalid filename: " ++ Text.quoted filename
  | invalidClientDirectory path fault =>
    "Invalid client directory " ++ path.display ++ ": " ++ fault.message
  | io path cause => "I/O error on " ++ path.display ++ ": " ++ cause.message

def outline : StorageError → String
  | invalidClientDirectory path fault =>
    "Invalid client directory " ++ path.display ++ ": " ++ fault.outline
  | e => e.message

def cause? : StorageError → Option String
  | deleteFailed _ cause => some cause.message
  | io _ cause => some cause.message
  | _ => none

end StorageError

end BackupVault
