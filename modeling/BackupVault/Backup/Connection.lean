import BackupVault.Backup.Answer
import BackupVault.Wire.Sink

/-!
# Connections of the backup protocol

One request comes in, one response goes out, and the connection is closed.  Bytes after the
request are not looked at.
-/

set_option autoImplicit false

namespace BackupVault.Backup

/-- The bytes of a response.  One that cannot be sent is replaced by a failure of the server. -/
def responseBytes (r : Response) : Bytes :=
  match r.encode with
  | .ok b => b
  | .error _ =>
    match Response.encode { version := r.version, body := .serverError } with
    | .ok b => b
    | .error _ => ByteArray.empty

/-- The response to whatever comes in.  What is no request changes nothing. -/
def respond (version : UInt8) (label : String) (incoming : Reader) (s : Storage) :
    Response × Storage :=
  match Request.decode version incoming with
  | .ok request _ => answer version label request s
  | .error _ _ => ({ version, body := .serverError }, s)

structure Served where
  storage : Storage
  outgoing : Sink
  /-- The writing side was closed in good order. -/
  closed : Bool

def serve (version : UInt8) (label : String) (incoming : Reader) (outgoing : Sink) (s : Storage) :
    Served :=
  let (response, storage) := respond version label incoming s
  match outgoing.write (responseBytes response) with
  | (.ok _, outgoing) => { storage, outgoing, closed := true }
  | (.error _, outgoing) => { storage, outgoing, closed := false }

end BackupVault.Backup
