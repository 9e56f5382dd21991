import BackupVault.Crypto.Checksum
import BackupVault.Upload.Vault
import BackupVault.Wire.ClientMessage
import BackupVault.Wire.ServerMessage

/-!
# Sessions

The server's half of a conversation with an uploading client: registration, if the client asks for
it, then the exchange of keys, then uploads until the client accepts a checksum or gives up.

A session is always in one phase.  In some phases it waits for a message, in the others it has
something to do with the vault; each such thing is one step, between which other sessions may take
steps of their own.

## Overview

- `Session.Phase`: where a conversation stands
- `Session.hear`: what a message does
- `Session.act`: what the session does with the vault
-/

set_option autoImplicit false

namespace BackupVault.Session

/-- Where a conversation stands. -/
inductive Phase where
  /-- Nothing was said yet. -/
  | greeting
  /-- The client asked for an identity. -/
  | registering (name : String)
  /-- The client has its identity and is to present its public key. -/
  | registered
  /-- The client says who it is and presents a public key. -/
  | identifying (client : ClientId) (name : Name) (key : Bytes)
  /-- The client is who it says, and gets a session key. -/
  | issuing (client : ClientId) (key : PublicKey)
  /-- The client is to send a file. -/
  | receiving (client : ClientId) (key : SessionKey)
  /-- The checksum of this file was reported; the client is to judge it. -/
  | judging (client : ClientId) (key : SessionKey) (filename : Name) (content : Bytes)
  /-- The client accepted the checksum. -/
  | storing (client : ClientId) (filename : String) (content : Bytes)
  /-- The conversation is over. -/
  | ended (outcome : Except SessionError Unit)

/-- The next phase, after an answer to the client if there is one. -/
structure Turn where
  phase : Phase
  reply : Option ServerBody := none

def Turn.fail (e : SessionError) : Turn := { phase := .ended (.error e) }

def unexpected (expected : String) (body : ClientBody) : SessionError :=
  .wire (.unexpectedMessage expected body.code.toWord)

/-! ## §1 Listening -/

/-- The first message asks for an identity or presents a public key. -/
def hearGreeting (m : ClientMessage) : Turn :=
  match m.body with
  | .registration name =>
    match name.toText with
    | .ok name => { phase := .registering name }
    | .error e => .fail (.wire e)
  | .publicKey name key => { phase := .identifying m.sender name key }
  | body => .fail (unexpected "Registration or PublicKey" body)

/-- After registration the client presents its public key. -/
def hearKey (m : ClientMessage) : Turn :=
  match m.body with
  | .publicKey name key => { phase := .identifying m.sender name key }
  | body => .fail (unexpected "PublicKey" body)

/-- The plain content of an upload.  One that does not decrypt is taken as it is, so that its
checksum will not be the one that the client expects. -/
def plainContent (key : SessionKey) (content : Bytes) : Bytes :=
  match key.decrypt content with
  | .ok plain => plain
  | .error _ => content

def hearUpload (client : ClientId) (key : SessionKey) (m : ClientMessage) : Turn :=
  match m.body with
  | .upload filename content =>
    let plain := plainContent key content
    { phase := .judging client key filename plain
      reply := some (.uploaded client (UInt32.ofNat plain.size) filename (cksum plain)) }
  | body => .fail (unexpected "UploadFile" body)

def hearVerdict (client : ClientId) (key : SessionKey) (filename : Name) (content : Bytes)
    (m : ClientMessage) : Turn :=
  match m.body with
  | .accept _ =>
    match filename.toText with
    | .ok filename => { phase := .storing client filename content }
    | .error e => .fail (.wire e)
  | .retry _ => { phase := .receiving client key }
  | .giveUp _ => { phase := .ended (.ok ()) }
  | body => .fail (unexpected "checksum verdict" body)

/-- Once keys were exchanged, only the client they were exchanged with is listened to. -/
def fromClient (client : ClientId) (m : ClientMessage) (turn : Turn) : Turn :=
  if m.sender = client then turn else .fail (.unknownClient m.sender.text)

def hear (phase : Phase) (m : ClientMessage) : Turn :=
  match phase with
  | .greeting => hearGreeting m
  | .registered => hearKey m
  | .receiving client key => fromClient client m (hearUpload client key m)
  | .judging client key filename content =>
    fromClient client m (hearVerdict client key filename content m)
  | phase => { phase }

/-! ## §2 Acting -/

def actRegister (name : String) : Vaulted Turn := do
  match ← Vault.register name with
  | some id => return { phase := .registered, reply := some (.registered id) }
  | none => return { phase := .ended (.ok ()), reply := some .refused }

/-- Look up the client; its name and its public key have to be in order. -/
def actIdentify (client : ClientId) (name : Name) (key : Bytes) : Vaulted Turn := do
  let some record ← Vault.record? client | throw (.unknownClient client.text)
  match name.toText with
  | .error e => throw (.wire e)
  | .ok name =>
    if record.name ≠ name then
      throw (.unknownClient (client.text ++ " (" ++ Text.quoted name ++ ")"))
    match PublicKey.ofDer key with
    | .ok key => return { phase := .issuing client key }
    | .error e => throw (.crypto e)

/-- Draw a session key, remember it and send it to the client under its public key. -/
def actIssue (client : ClientId) (key : PublicKey) : Vaulted Turn := do
  let sessionKey ← Vault.draw SessionKey.generate
  match ← Vault.draw (key.encrypt sessionKey.bytes) with
  | .error e => throw (.crypto e)
  | .ok encrypted =>
    Vault.setKeys client key sessionKey
    return { phase := .receiving client sessionKey, reply := some (.sessionKey client encrypted) }

def actStore (client : ClientId) (filename : String) (content : Bytes) : Vaulted Turn := do
  let _ ← Vault.store client filename content
  return { phase := .ended (.ok ()), reply := some .success }

/-- What the session does with the vault, in a phase that has something to do. -/
def action? : Phase → Option (Vaulted Turn)
  | .registering name => some (actRegister name)
  | .identifying client name key => some (actIdentify client name key)
  | .issuing client key => some (actIssue client key)
  | .storing client filename content => some (actStore client filename content)
  | _ => none

/-- Do what there is to do; an error ends the conversation. -/
def act (x : Vaulted Turn) (v : Vault) : Turn × Vault :=
  match x v with
  | .ok turn v => (turn, v)
  | .error e v => (.fail e, v)

end BackupVault.Session
