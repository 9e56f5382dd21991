import BackupVault.Config.Lines
import BackupVault.Crypto.KeyPair
import BackupVault.Wire.ClientId

/-!
# Identity files

A client that was registered keeps its name, its identity and its key pair in three lines.

## Overview

- `SavedIdentity.ofText`, `SavedIdentity.text`: the lines and back
- `SavedIdentity.load?`, `SavedIdentity.save`: the file
-/

set_option autoImplicit false

namespace BackupVault

/-- Who a client is, once it was registered. -/
structure SavedIdentity where
  name : String
  id : ClientId
  keys : KeyPair
deriving DecidableEq

namespace SavedIdentity

def fileName : String := "me.info"

def ofText (s : String) : Except LineFault SavedIdentity := do
  let (name, written, key) ← threeLines "client name" "client id" "private key" s
  let some id := (ClientId.ofText? written).filter ClientId.isRegistered
    | throw (.badId written)
  match KeyPair.ofBase64 key with
  | .ok keys => return { name, id, keys }
  | .error e => throw (.badKey e)

def text (i : SavedIdentity) : Except LineFault String :=
  match i.keys.toBase64 with
  | .ok key => .ok (i.name ++ "\n" ++ i.id.text ++ "\n" ++ key ++ "\n")
  | .error e => .error (.badKey e)

/-- What was read from an identity file, if there is one. -/
def ofRead? (path : Path) : Except IoFailure String → Except ConfigError (Option SavedIdentity)
  | .ok s => ((ofText s).map some).mapError (.invalidLines path)
  | .error .notFound => .ok none
  | .error e => .error (.io path e)

def load? (path : Path) : Configured (Option SavedIdentity) := FileTree.loadAs path ofRead?

def save (i : SavedIdentity) (path : Path) : Configured Unit := do
  match i.text with
  | .ok s => (FileTree.save path (Bytes.ofText s)).orFail (.io path)
  | .error fault => throw (.invalidLines path fault)

end SavedIdentity

end BackupVault
