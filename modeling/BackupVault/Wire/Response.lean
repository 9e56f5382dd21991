import BackupVault.Wire.Frame
import BackupVault.Wire.Reader

/-!
# Responses of the backup protocol

`version : 1 | code : 2`, then the filename and the payload where the code has them.
-/

set_option autoImplicit false

namespace BackupVault

inductive ResponseCode where
  | restored
  | listed
  | done
  | fileNotFound
  | noBackupFiles
  | serverError
deriving DecidableEq, Repr

namespace ResponseCode

def toWord : ResponseCode → UInt16
  | restored => 210
  | listed => 211
  | done => 212
  | fileNotFound => 1001
  | noBackupFiles => 1002
  | serverError => 1003

def ofWord? (w : UInt16) : Option ResponseCode :=
  if w = 210 then some restored
  else if w = 211 then some listed
  else if w = 212 then some done
  else if w = 1001 then some fileNotFound
  else if w = 1002 then some noBackupFiles
  else if w = 1003 then some serverError
  else none

def name : ResponseCode → String
  | restored => "SuccessfulRestore"
  | listed => "SuccessfulListFiles"
  | done => "SuccessfulBackupOrDelete"
  | fileNotFound => "FileNotFound"
  | noBackupFiles => "NoBackupFilesForClient"
  | serverError => "ServerError"

end ResponseCode

/-- How a backup request ended, with the fields of the answer. -/
inductive ResponseBody where
  | restored (filename : String) (payload : Bytes)
  /-- The label is random; the payload holds one filename a line. -/
  | listed (label : String) (payload : Bytes)
  /-- A backup or a deletion succeeded. -/
  | done (filename : String)
  | fileNotFound (filename : String)
  | noBackupFiles
  | serverError
deriving DecidableEq

namespace ResponseBody

def code : ResponseBody → ResponseCode
  | restored .. => .restored
  | listed .. => .listed
  | done _ => .done
  | fileNotFound _ => .fileNotFound
  | noBackupFiles => .noBackupFiles
  | serverError => .serverError

def put (f : Frame) : ResponseBody → Except WireError Frame
  | restored filename payload => do
    let f ← f.putText "filename" filename
    f.putBlob "payload" payload
  | listed label payload => do
    let f ← f.putText "filename" label
    f.putBlob "payload" payload
  | done filename => f.putText "filename" filename
  | fileNotFound filename => f.putText "filename" filename
  | noBackupFiles => .ok f
  | serverError => .ok f

def read : ResponseCode → Read ResponseBody
  | .restored => do
    let filename ← Reader.text "filename"
    return restored filename (← Reader.blob)
  | .listed => do
    let label ← Reader.text "filename"
    return listed label (← Reader.blob)
  | .done => do return done (← Reader.text "filename")
  | .fileNotFound => do return fileNotFound (← Reader.text "filename")
  | .noBackupFiles => return noBackupFiles
  | .serverError => return serverError

end ResponseBody

structure Response where
  version : UInt8
  body : ResponseBody
deriving DecidableEq

namespace Response

def encode (r : Response) : Except WireError Bytes := do
  let header := (Frame.empty.putU8 r.version).putU16 r.body.code.toWord
  return (← r.body.put header).bytes

/-- Read one response.  The version is checked before the code is read, and the code before any
field is. -/
def decode (expectedVersion : UInt8) : Read Response := do
  let version ← Reader.expectVersion expectedVersion
  let code ← Reader.decodeCode ResponseCode.ofWord? .unknownResponseCode (← Reader.u16)
  return { version, body := ← ResponseBody.read code }

end Response

end BackupVault
