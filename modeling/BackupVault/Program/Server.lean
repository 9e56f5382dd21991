import BackupVault.Backup.Connection
import BackupVault.Program.Host
import BackupVault.Program.Report
import BackupVault.Program.ServerOptions
import BackupVault.Upload.Conversation

/-!
# The server program

The server listens at two addresses over one root: for backup requests, and for registrations and
uploads.

## Overview

- `Service`: a server that was started
- `Server.start`: from the options to a service
- `Service.answerRequest`, `Service.answerClient`: what a service does with a connection
-/

set_option autoImplicit false

namespace BackupVault

/-- A server that was started, with its two listeners. -/
structure Service (ℓ : Type) where
  config : ServerConfig
  backupListener : ℓ
  secureListener : ℓ
  registry : Registry
  clients : ClientDirectory

namespace Service

variable {ℓ : Type}

/-- The service as far as it is about the files of users. -/
def storage (s : Service ℓ) (files : FileTree) : Storage := { registry := s.registry, files }

/-- The service as far as its conversations with clients share it. -/
def vault (s : Service ℓ) (files : FileTree) (entropy : Entropy) (now : Timestamp) : Vault :=
  { registry := s.registry, clients := s.clients, files, entropy, now }

def answerRequest (s : Service ℓ) (label : String) (incoming : Reader) (files : FileTree) :
    Bytes × Service ℓ × FileTree :=
  let served := Backup.serve s.config.backupVersion label incoming {} (s.storage files)
  (served.outgoing.written, { s with registry := served.storage.registry }, served.storage.files)

def greet (s : Service ℓ) : Conversation :=
  { version := s.config.handshakeVersion, incoming := Reader.ofBytes ByteArray.empty }

/-- Go on with a conversation after some bytes came in. -/
def answerClient (s : Service ℓ) (c : Conversation) (incoming : Bytes) (files : FileTree)
    (entropy : Entropy) (now : Timestamp) :
    Bytes × Conversation × Service ℓ × FileTree × Entropy :=
  let (back, c, v) := c.answer incoming (s.vault files entropy now)
  (back, c, { s with registry := v.registry, clients := v.clients }, v.files, v.entropy)

end Service

namespace Server

variable {κ ℓ : Type} {m : Type → Type} [Monad m] [Host κ ℓ m]

def configFor (o : ServerOptions) : ExceptT Report m ServerConfig := do
  match o.config with
  | none => return o.override {}
  | some path =>
    return o.override
      (← orReport ConfigError.report (ServerConfig.ofRead path (← Host.loadText path)))

def listenAt (address : String) : ExceptT Report m ℓ := do
  orFailed ("Failed to bind " ++ address) (← Host.bind address)

/-- Start the server.  The root is made before the server listens, and the directory of clients is
opened after that. -/
def start (o : ServerOptions) (home : Option Path) : ExceptT Report m (Service ℓ) := do
  let config ← configFor o
  let root := config.rootDirectory home
  let registry ← orReport (fun e : StorageError => e.report.within "Failed to open backup root")
    (← Host.below root (Registry.create root))
  let backupListener ← listenAt config.backupAddress
  let secureListener ← listenAt config.secureAddress
  let clients ← orReport
    (fun e : StorageError => e.report.within "Failed to load client directory")
    (← Host.below root (ClientDirectory.openAt root))
  return { config, backupListener, secureListener, registry, clients }

def homeOf (environment : String → Option String) : Option Path :=
  ((environment "HOME").filter (· ≠ "")).map Path.ofText

/-- Start the server on a command line; the outcome tells why it did not start. -/
def launch (environment : String → Option String) (line : List String) :
    m (Except Outcome (Service ℓ)) := do
  match ServerOptions.ofLine environment line with
  | .error .badUsage => return .error { code := 2, stderr := ServerOptions.usage }
  | .error .help => return .error { stdout := ServerOptions.usage }
  | .error .version => return .error { stdout := ServerOptions.versionText }
  | .ok o =>
    match ← (start o (homeOf environment)).run with
    | .ok service => return .ok service
    | .error r => return .error (Outcome.ofResult (.error r))

end Server

end BackupVault
