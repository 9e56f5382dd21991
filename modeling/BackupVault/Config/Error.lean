import BackupVault.Crypto.Error
import BackupVault.IoFailure
import BackupVault.Storage.FileTree
import BackupVault.Text.Quoted
import BackupVault.Wire.Error

/-!
# Errors of configuration files

What can be wrong with the files that a program is set up by.
-/

set_option autoImplicit false

namespace BackupVault

inductive LineFault where
  /-- The line with this meaning is empty or not there. -/
  | missing (label : String)
  | surplus (expected : Nat)
  | badAddress (written : String)
  | nameTooLong (size : Nat)
  | badId (written : String)
  | badKey (e : CryptoError)
deriving DecidableEq

def LineFault.message : LineFault → String
  | missing label => "missing " ++ label
  | surplus expected => s!"expected exactly {expected} lines"
  | badAddress written => "server address " ++ Text.quoted written ++ " is not host:port"
  | nameTooLong size => s!"client name is {size} bytes, maximum is {nameCapacity}"
  | badId written => "client id " ++ Text.quoted written ++ " is not a valid id"
  | badKey e => e.message

inductive ConfigError where
  | io (path : Path) (cause : IoFailure)
  | invalidLines (path : Path) (fault : LineFault)
  /-- The file is no document, or one of its values is not of the right kind. -/
  | invalidDocument (path : Path)
deriving DecidableEq

namespace ConfigError

def kind : ConfigError → String
  | io .. => "Io"
  | invalidLines .. => "InvalidFile"
  | invalidDocument _ => "Toml"

def documentFault : String := "not a valid document"

def message : ConfigError → String
  | io path cause => "Failed to access " ++ path.display ++ ": " ++ cause.message
  | invalidLines path fault => "Invalid " ++ path.display ++ ": " ++ fault.message
  | invalidDocument path => "Invalid config " ++ path.display ++ ": " ++ documentFault

def outline : ConfigError → String
  | invalidLines path (.badKey e) => "Invalid " ++ path.display ++ ": " ++ e.outline
  | invalidDocument path => "Invalid config " ++ path.display ++ ": *"
  | e => e.message

def cause? : ConfigError → Option String
  | io _ cause => some cause.message
  | invalidLines .. => none
  | invalidDocument _ => some documentFault

end ConfigError

/-- An operation on configuration files, or what was wrong. -/
abbrev Configured (α : Type) := EStateM ConfigError FileTree α

def FileTree.loadAs {α : Type} (path : Path)
    (judge : Path → Except IoFailure String → Except ConfigError α) : Configured α := fun t =>
  let (read, t) : Except IoFailure String × FileTree :=
    match FileTree.loadText path t with
    | .ok s t => (.ok s, t)
    | .error e t => (.error e, t)
  match judge path read with
  | .ok value => .ok value t
  | .error e => .error e t

end BackupVault
