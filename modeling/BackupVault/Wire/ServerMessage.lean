import BackupVault.Wire.Frame
import BackupVault.Wire.Reader

/-!
# Messages to an uploading client

`version : 1 | code : 2 | size : 4`, then a payload of exactly that size.  The payload is read as
one block and has to decode to all of it.
-/

set_option autoImplicit false

namespace BackupVault

inductive ServerCode where
  | registered
  | refused
  | sessionKey
  | uploaded
  | success
deriving DecidableEq, Repr

namespace ServerCode

def toWord : ServerCode → UInt16
  | registered => 2100
  | refused => 2101
  | sessionKey => 2102
  | uploaded => 2103
  | success => 2104

def ofWord? (w : UInt16) : Option ServerCode :=
  if w = 2100 then some registered
  else if w = 2101 then some refused
  else if w = 2102 then some sessionKey
  else if w = 2103 then some uploaded
  else if w = 2104 then some success
  else none

def name : ServerCode → String
  | registered => "RegistrationSuccessful"
  | refused => "RegistrationFailed"
  | sessionKey => "SymmetricKey"
  | uploaded => "UploadSuccessful"
  | success => "Success"

end ServerCode

/-- What a server message says, with its fields. -/
inductive ServerBody where
  /-- The identity assigned to the client. -/
  | registered (id : ClientId)
  /-- The name is empty or taken. -/
  | refused
  /-- The session key, encrypted for the client; it fills the rest of the payload. -/
  | sessionKey (id : ClientId) (encrypted : Bytes)
  /-- What arrived: its size and checksum. -/
  | uploaded (id : ClientId) (size : UInt32) (filename : Name) (checksum : UInt32)
  /-- The file is kept. -/
  | success
deriving DecidableEq

namespace ServerBody

def code : ServerBody → ServerCode
  | registered _ => .registered
  | refused => .refused
  | sessionKey .. => .sessionKey
  | uploaded .. => .uploaded
  | success => .success

def payload : ServerBody → Frame
  | registered id => Frame.empty.putClientId id
  | refused => Frame.empty
  | sessionKey id encrypted => (Frame.empty.putClientId id).putBytes encrypted
  | uploaded id size filename checksum =>
    (((Frame.empty.putClientId id).putU32 size).putName filename).putU32 checksum
  | success => Frame.empty

def read : ServerCode → Read ServerBody
  | .registered => do return registered (← Reader.clientId)
  | .refused => return refused
  | .sessionKey => do
    let id ← Reader.clientId
    return sessionKey id (← Reader.rest)
  | .uploaded => do
    let id ← Reader.clientId
    let size ← Reader.u32
    let filename ← Reader.name
    return uploaded id size filename (← Reader.u32)
  | .success => return success

end ServerBody

structure ServerMessage where
  version : UInt8
  body : ServerBody
deriving DecidableEq

namespace ServerMessage

def encode (m : ServerMessage) : Except WireError Bytes := do
  let payload := m.body.payload
  let size ← Frame.checkedSize "payload" payload.size
  let header := ((Frame.empty.putU8 m.version).putU16 m.body.code.toWord).putU32 size
  return (header.putFrame payload).bytes

/-- Read one message.  Version, code and size are checked, in this order, before the payload is
read. -/
def decode (expectedVersion : UInt8) : Read ServerMessage := do
  let version ← Reader.expectVersion expectedVersion
  let code ← Reader.decodeCode ServerCode.ofWord? .unknownMessageCode (← Reader.u16)
  let declared ← Reader.u32
  let block ← Reader.block declared
  let body ← Reader.lift (Reader.decodeBlock (ServerBody.read code) block declared)
  return { version, body }

end ServerMessage

end BackupVault
