import BackupVault.Crypto.PublicKey
import BackupVault.Crypto.SessionKey
import BackupVault.Encoding.Base64
import BackupVault.Storage.Error
import BackupVault.Time.Timestamp
import BackupVault.Toml.Document
import BackupVault.Wire.ClientId

/-!
# Records of clients

What the server knows about a client, and how a document holds it: keys in base 64, identity and
time as text.

## Overview

- `ClientRecord`: what the server knows
- `ClientEntry`: how a document holds it
- `ClientEntry.all?`, `ClientEntry.document`: a whole document, read and written
-/

set_option autoImplicit false

namespace BackupVault

structure ClientRecord where
  id : ClientId
  name : String
  publicKey : Option PublicKey
  sessionKey : Option SessionKey
  lastSeen : Timestamp
deriving DecidableEq

/-- How a document holds what the server knows about a client. -/
structure ClientEntry where
  id : String
  name : String
  publicKey : Option String
  sessionKey : Option String
  lastSeen : Timestamp
deriving DecidableEq

namespace ClientEntry

/-! ## §1 Between records and entries -/

def ofRecord (r : ClientRecord) : ClientEntry where
  id := r.id.text
  name := r.name
  publicKey := r.publicKey.map fun k => Base64.encode k.toDer
  sessionKey := r.sessionKey.map fun k => Base64.encode k.bytes
  lastSeen := r.lastSeen

def publicKeyOf (client : String) : Option String → Except DirectoryFault (Option PublicKey)
  | none => .ok none
  | some written =>
    match Base64.decode? written with
    | none => .error (.badPublicKey client "not base 64")
    | some der =>
      match PublicKey.ofDer der with
      | .ok k => .ok (some k)
      | .error e => .error (.badPublicKey client e.message)

def sessionKeyOf (client : String) : Option String → Except DirectoryFault (Option SessionKey)
  | none => .ok none
  | some written =>
    match Base64.decode? written with
    | none => .error (.unreadableSessionKey client)
    | some b =>
      match SessionKey.ofBytes b with
      | .ok k => .ok (some k)
      | .error e => .error (.badSessionKey client e)

def toRecord (e : ClientEntry) : Except DirectoryFault ClientRecord := do
  let some id := (ClientId.ofText? e.id).filter ClientId.isRegistered
    | throw (.invalidId e.id)
  return {
    id
    name := e.name
    publicKey := ← publicKeyOf e.id e.publicKey
    sessionKey := ← sessionKeyOf e.id e.sessionKey
    lastSeen := e.lastSeen }

/-! ## §2 Reading -/

/-- A field of an entry, which is a table or lists its fields in order. -/
def field? (v : Toml.Value) (index : Nat) (key : String) : Option Toml.Value :=
  match v with
  | .table _ es => Toml.Entries.find? es key
  | .array _ items => items[index]?
  | _ => none

def requiredText? (v : Toml.Value) (index : Nat) (key : String) : Option String :=
  (field? v index key).bind Toml.Value.string?

/-- A text that may be missing; the outer `none` means that something else is there. -/
def optionalText? (v : Toml.Value) (index : Nat) (key : String) : Option (Option String) :=
  match field? v index key with
  | none => some none
  | some field => field.string?.map some

def ofValue? (v : Toml.Value) : Option ClientEntry := do
  return {
    id := ← requiredText? v 0 "id"
    name := ← requiredText? v 1 "name"
    publicKey := ← optionalText? v 2 "public_key"
    sessionKey := ← optionalText? v 3 "session_key"
    lastSeen := ← Timestamp.ofText? (← requiredText? v 4 "last_seen") }

def all? (s : String) : Option (List ClientEntry) := do
  match (← Toml.parse? s).find? "clients" with
  | none => return []
  | some v => (← v.array?).mapM ofValue?

/-! ## §3 Writing -/

def line (key value : String) : String := key ++ " = " ++ Toml.quote value ++ "\n"

def optionalLine (key : String) : Option String → String
  | none => ""
  | some value => line key value

def lines (e : ClientEntry) : String :=
  "[[clients]]\n" ++ line "id" e.id ++ line "name" e.name ++
    optionalLine "public_key" e.publicKey ++ optionalLine "session_key" e.sessionKey ++
    line "last_seen" e.lastSeen.text

/-- The entries one after another, with an empty line between them. -/
def document (es : List ClientEntry) : String :=
  if es.isEmpty then "clients = []\n" else "\n".intercalate (es.map lines)

end ClientEntry

end BackupVault
