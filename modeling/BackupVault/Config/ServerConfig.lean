import BackupVault.Config.Error
import BackupVault.Toml.Document

/-!
# Configuration of the server

A document that may set addresses, root and versions; what it leaves out has a default, and what
it says beyond that does not count.

## Overview

- `ServerConfig.ofText?`, `ServerConfig.load`: reading a document
- `expandHome`: paths below the home directory
-/

set_option autoImplicit false

namespace BackupVault

/-- A path that begins with `~` lies in the home directory. -/
def expandHome (home : Option Path) (p : Path) : Path :=
  let s := p.display
  if s = "~" then home.getD (Path.ofText ".")
  else if s.startsWith "~/" then
    match home with
    | some home => home.join (Path.ofText (String.ofList (s.toList.drop 2)))
    | none => p
  else p

/-- What the server is told before it starts. -/
structure ServerConfig where
  /-- Where to listen for backup requests. -/
  backupAddress : String := "0.0.0.0:1337"
  /-- Where to listen for registrations and uploads. -/
  secureAddress : String := "0.0.0.0:1234"
  root : Path := Path.ofText "~/backupsvr"
  backupVersion : UInt8 := 1
  handshakeVersion : UInt8 := 3
deriving DecidableEq

namespace ServerConfig

def rootDirectory (c : ServerConfig) (home : Option Path) : Path := expandHome home c.root

/-- The value under a key, if it is of the right kind; the default if there is none. -/
def setting? {α : Type} (es : Toml.Entries) (key : String) (default : α)
    (kind : Toml.Value → Option α) : Option α :=
  match es.find? key with
  | some v => kind v
  | none => some default

def version? (v : Toml.Value) : Option UInt8 :=
  match v.integer? with
  | some n => if 0 ≤ n ∧ n < 256 then some (UInt8.ofNat n.toNat) else none
  | none => none

def ofText? (s : String) : Option ServerConfig := do
  let es ← Toml.parse? s
  let unset : ServerConfig := {}
  return {
    backupAddress := ← setting? es "backup_addr" unset.backupAddress Toml.Value.string?
    secureAddress := ← setting? es "secure_addr" unset.secureAddress Toml.Value.string?
    root := ← setting? es "root" unset.root fun v => v.string?.map Path.ofText
    backupVersion := ← setting? es "backup_version" unset.backupVersion version?
    handshakeVersion := ← setting? es "handshake_version" unset.handshakeVersion version? }

def ofRead (path : Path) : Except IoFailure String → Except ConfigError ServerConfig
  | .ok s =>
    match ofText? s with
    | some c => .ok c
    | none => .error (.invalidDocument path)
  | .error e => .error (.io path e)

def load (path : Path) : Configured ServerConfig := FileTree.loadAs path ofRead

end ServerConfig

end BackupVault
