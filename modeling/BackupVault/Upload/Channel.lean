import BackupVault.ClientError
import BackupVault.Crypto.KeyPair
import BackupVault.Crypto.SessionKey
import BackupVault.Wire.ClientMessage
import BackupVault.Wire.ServerMessage
import BackupVault.Wire.Sink

/-!
# Channels

The client's end of a connection to the upload server: messages in both directions, and the two
exchanges that come before an upload.

## Overview

- `Channel.send`, `Channel.receive`: one message
- `Channel.arrive`, `Channel.isWhole`: bytes that come in
- `Channel.register`, `Channel.exchangeKeys`: a message and what the answer to it means
-/

set_option autoImplicit false

namespace BackupVault

/-- The client's end of a connection. -/
structure Channel where
  version : UInt8
  incoming : Reader
  outgoing : Sink := {}

/-- Something done over a channel, or why it failed. -/
abbrev Talk (α : Type) := EStateM ClientError Channel α

namespace Channel

def send (sender : ClientId) (body : ClientBody) : Talk Unit := fun c =>
  match ClientMessage.encode { sender, version := c.version, body } with
  | .error e => .error (.wire e) c
  | .ok b =>
    match c.outgoing.write b with
    | (.ok _, outgoing) => .ok () { c with outgoing }
    | (.error e, outgoing) => .error (.io e) { c with outgoing }

def receive : Talk ServerBody := fun c =>
  match ServerMessage.decode c.version c.incoming with
  | .ok m incoming => .ok m.body { c with incoming }
  | .error e incoming => .error (.wire e) { c with incoming }

def arrive (c : Channel) (a : Arrival) : Channel :=
  { c with incoming := { c.incoming with source := c.incoming.source.arrive a } }

/-- With these bytes coming in, the channel holds a whole message, or bytes that can no longer
become one. -/
def isWhole (c : Channel) (b : Bytes) : Bool :=
  match ServerMessage.decode c.version (c.arrive { bytes := b }).incoming with
  | .error (.shortRead _) _ => false
  | _ => true

def unexpected (expected : String) (body : ServerBody) : ClientError :=
  .wire (.unexpectedMessage expected body.code.toWord)

def identityIn (name : Name) : ServerBody → Except ClientError ClientId
  | .registered id => .ok id
  | .refused => .error (.registrationRejected name.display)
  | body => .error (unexpected "RegistrationSuccessful" body)

/-- The session key in the answer to a public key, which has to name the same client. -/
def sessionKeyIn (client : ClientId) (keys : KeyPair) : ServerBody → Except ClientError SessionKey
  | .sessionKey id encrypted =>
    if id ≠ client then .error (.identityMismatch client.text id.text)
    else
      match keys.decrypt encrypted with
      | .error e => .error (.crypto e)
      | .ok b =>
        match SessionKey.ofBytes b with
        | .ok key => .ok key
        | .error e => .error (.crypto e)
  | body => .error (unexpected "SymmetricKey" body)

def lift {α : Type} : Except ClientError α → Talk α
  | .ok value => return value
  | .error e => throw e

def register (name : Name) : Talk ClientId := do
  send ClientId.unregistered (.registration name)
  lift (identityIn name (← receive))

def exchangeKeys (client : ClientId) (name : Name) (keys : KeyPair) : Talk SessionKey := do
  send client (.publicKey name keys.publicDer)
  lift (sessionKeyIn client keys (← receive))

end Channel

end BackupVault
