import BackupVault.Wire.Frame
import BackupVault.Wire.Reader

/-!
# Messages from an uploading client

`client id : 16 | version : 1 | code : 2 | size : 4`, then a payload of exactly that size.  The
payload is read as one block and has to decode to all of it.
-/

set_option autoImplicit false

namespace BackupVault

inductive ClientCode where
  | registration
  | publicKey
  | upload
  | accept
  | retry
  | giveUp
deriving DecidableEq, Repr

namespace ClientCode

def toWord : ClientCode → UInt16
  | registration => 1100
  | publicKey => 1101
  | upload => 1103
  | accept => 1104
  | retry => 1105
  | giveUp => 1106

def ofWord? (w : UInt16) : Option ClientCode :=
  if w = 1100 then some registration
  else if w = 1101 then some publicKey
  else if w = 1103 then some upload
  else if w = 1104 then some accept
  else if w = 1105 then some retry
  else if w = 1106 then some giveUp
  else none

def name : ClientCode → String
  | registration => "Registration"
  | publicKey => "PublicKey"
  | upload => "UploadFile"
  | accept => "ChecksumOk"
  | retry => "ChecksumRetry"
  | giveUp => "ChecksumGiveUp"

end ClientCode

/-- What a client message says, with its fields. -/
inductive ClientBody where
  /-- Ask for an identity under this name. -/
  | registration (name : Name)
  /-- Present a public key; the key fills the rest of the payload. -/
  | publicKey (name : Name) (key : Bytes)
  /-- Send a file, encrypted under the session key. -/
  | upload (filename : Name) (content : Bytes)
  /-- The acknowledged checksum is right: keep the file. -/
  | accept (filename : Name)
  /-- The acknowledged checksum is wrong: the file will be sent again. -/
  | retry (filename : Name)
  /-- The acknowledged checksum is wrong: forget the file. -/
  | giveUp (filename : Name)
deriving DecidableEq

namespace ClientBody

def code : ClientBody → ClientCode
  | registration _ => .registration
  | publicKey .. => .publicKey
  | upload .. => .upload
  | accept _ => .accept
  | retry _ => .retry
  | giveUp _ => .giveUp

def payload : ClientBody → Except WireError Frame
  | registration name => .ok (Frame.empty.putName name)
  | publicKey name key => .ok ((Frame.empty.putName name).putBytes key)
  | upload filename content => do
    let size ← Frame.checkedSize "content" content.size
    return ((Frame.empty.putU32 size).putName filename).putBytes content
  | accept filename => .ok (Frame.empty.putName filename)
  | retry filename => .ok (Frame.empty.putName filename)
  | giveUp filename => .ok (Frame.empty.putName filename)

def read : ClientCode → Read ClientBody
  | .registration => do return registration (← Reader.name)
  | .publicKey => do
    let name ← Reader.name
    return publicKey name (← Reader.rest)
  | .upload => do
    let size ← Reader.u32
    let filename ← Reader.name
    return upload filename (← Reader.bytes size.toNat)
  | .accept => do return accept (← Reader.name)
  | .retry => do return retry (← Reader.name)
  | .giveUp => do return giveUp (← Reader.name)

end ClientBody

structure ClientMessage where
  sender : ClientId
  version : UInt8
  body : ClientBody
deriving DecidableEq

namespace ClientMessage

def encode (m : ClientMessage) : Except WireError Bytes := do
  let payload ← m.body.payload
  let size ← Frame.checkedSize "payload" payload.size
  let header :=
    (((Frame.empty.putClientId m.sender).putU8 m.version).putU16 m.body.code.toWord).putU32 size
  return (header.putFrame payload).bytes

/-- Read one message.  Version, code and size are checked, in this order, before the payload is
read. -/
def decode (expectedVersion : UInt8) : Read ClientMessage := do
  let sender ← Reader.clientId
  let version ← Reader.expectVersion expectedVersion
  let code ← Reader.decodeCode ClientCode.ofWord? .unknownMessageCode (← Reader.u16)
  let declared ← Reader.u32
  let block ← Reader.block declared
  let body ← Reader.lift (Reader.decodeBlock (ClientBody.read code) block declared)
  return { sender, version, body }

end ClientMessage

end BackupVault
