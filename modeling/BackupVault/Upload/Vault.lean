import BackupVault.Storage.Registry
import BackupVault.Upload.ClientDirectory
import BackupVault.Upload.SessionError

/-!
# The vault

Everything that the conversations with uploading clients share: the registry of backup
directories, the directory of clients, the files under both, randomness and a clock.  Each
operation here is one that no other conversation can come between.

## Overview

- `Vault.candidates`: the identities that are drawn for a client
- `Vault.register`, `Vault.record?`, `Vault.setKeys`: the directory of clients
- `Vault.store`: the files of a client
-/

set_option autoImplicit false

namespace BackupVault

/-- What the conversations with clients share. -/
structure Vault where
  registry : Registry
  clients : ClientDirectory
  files : FileTree
  entropy : Entropy
  now : Timestamp

/-- One operation on the vault, or why it ends the conversation. -/
abbrev Vaulted (α : Type) := EStateM SessionError Vault α

namespace Vault

def clientStore (v : Vault) : ClientStore := { directory := v.clients, files := v.files }

def withClientStore (v : Vault) (s : ClientStore) : Vault :=
  { v with clients := s.directory, files := s.files }

def storage (v : Vault) : Storage := { registry := v.registry, files := v.files }

def withStorage (v : Vault) (s : Storage) : Vault :=
  { v with registry := s.registry, files := s.files }

/-- An operation on the directory of clients. -/
def enrolled {α : Type} (x : Enrolled α) : Vaulted α := fun v =>
  match x v.clientStore with
  | .ok a s => .ok a (v.withClientStore s)
  | .error e s => .error (.storage e) (v.withClientStore s)

/-- An operation on the files of users. -/
def registered {α : Type} (x : Registered α) : Vaulted α := fun v =>
  match x v.storage with
  | .ok a s => .ok a (v.withStorage s)
  | .error e s => .error (.storage e) (v.withStorage s)

def draw {α : Type} (x : Entropy → α × Entropy) : Vaulted α := fun v =>
  .ok (x v.entropy).1 { v with entropy := (x v.entropy).2 }

/-! ## §1 Clients -/

def drawId : Vaulted ClientId := do
  return ClientId.random (← draw fun e => e.draw 16)

/-- The identities that are drawn for a new client, one after another up to the first free one.

Nothing is assumed of the supply of randomness, and one that gives the same bytes again and again
never gives a free identity.  After `draws` of them the last one is therefore followed by those with
the next numbers, among which is a free one as long as there is one at all. -/
def candidates : (draws : Nat) → Vaulted (List ClientId)
  | 0 => do
    let id ← drawId
    return (List.range ((← get).clients.size + 2)).map id.shifted
  | draws + 1 => do
    let id ← drawId
    if (← get).clients.isFree id then return [id]
    return id :: (← candidates draws)

/-- So many identities in a row are not free only if nearly all are taken. -/
def maxDraws : Nat := 64

def register (name : String) : Vaulted (Option ClientId) := do
  let drawn ← candidates maxDraws
  enrolled (ClientDirectory.register .sound name drawn (← get).now)

def record? (id : ClientId) : Vaulted (Option ClientRecord) := do
  return (← get).clients.find? id

def setKeys (id : ClientId) (publicKey : PublicKey) (sessionKey : SessionKey) : Vaulted Unit := do
  if !(← enrolled (ClientDirectory.setKeys .sound id publicKey sessionKey (← get).now)) then
    throw (.unknownClient id.text)

/-! ## §2 Files -/

def store (id : ClientId) (filename : String) (content : Bytes) : Vaulted Path :=
  registered (Registry.store id.storageId filename content)

/-- Start over with what is on disk, as after a restart. -/
def restart : EStateM StorageError Vault Unit := fun v =>
  let reopen : EStateM StorageError FileTree (Registry × ClientDirectory) := do
    return (← Registry.create v.registry.root, ← v.clients.reopened)
  match reopen v.files with
  | .ok (registry, clients) files => .ok () { v with registry, clients, files }
  | .error e files => .error e { v with files }

end Vault

end BackupVault
