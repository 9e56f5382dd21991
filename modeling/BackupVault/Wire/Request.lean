import BackupVault.Wire.Frame
import BackupVault.Wire.Reader

/-!
# Requests of the backup protocol

`user : 4 | version : 1 | opcode : 1`, then the filename and, for a backup, the payload.
-/

set_option autoImplicit false

namespace BackupVault

inductive Opcode where
  | backup
  | restore
  | delete
  | list
deriving DecidableEq, Repr

namespace Opcode

def toByte : Opcode → UInt8
  | backup => 100
  | restore => 200
  | delete => 201
  | list => 202

def ofByte? (b : UInt8) : Option Opcode :=
  if b = 100 then some backup
  else if b = 200 then some restore
  else if b = 201 then some delete
  else if b = 202 then some list
  else none

def name : Opcode → String
  | backup => "BackupFile"
  | restore => "RestoreFile"
  | delete => "DeleteFile"
  | list => "ListFiles"

end Opcode

/-- What a backup request asks for, with its fields. -/
inductive RequestBody where
  | backup (filename : String) (payload : Bytes)
  | restore (filename : String)
  | delete (filename : String)
  | list
deriving DecidableEq

namespace RequestBody

def opcode : RequestBody → Opcode
  | backup .. => .backup
  | restore _ => .restore
  | delete _ => .delete
  | list => .list

def filename? : RequestBody → Option String
  | backup filename _ => some filename
  | restore filename => some filename
  | delete filename => some filename
  | list => none

def put (f : Frame) : RequestBody → Except WireError Frame
  | backup filename payload => do
    let f ← f.putText "filename" filename
    f.putBlob "payload" payload
  | restore filename => f.putText "filename" filename
  | delete filename => f.putText "filename" filename
  | list => .ok f

def read : Opcode → Read RequestBody
  | .backup => do
    let filename ← Reader.text "filename"
    return backup filename (← Reader.blob)
  | .restore => do return restore (← Reader.text "filename")
  | .delete => do return delete (← Reader.text "filename")
  | .list => return list

end RequestBody

structure Request where
  user : UserId
  version : UInt8
  body : RequestBody
deriving DecidableEq

namespace Request

def encode (r : Request) : Except WireError Bytes := do
  let header := ((Frame.empty.putU32 r.user).putU8 r.version).putU8 r.body.opcode.toByte
  return (← r.body.put header).bytes

/-- Read one request.  The version is checked before the opcode is read, and the opcode before
any field is. -/
def decode (expectedVersion : UInt8) : Read Request := do
  let user ← Reader.u32
  let version ← Reader.expectVersion expectedVersion
  let opcode ← Reader.decodeCode Opcode.ofByte? .unknownOpcode (← Reader.u8)
  return { user, version, body := ← RequestBody.read opcode }

end Request

end BackupVault
