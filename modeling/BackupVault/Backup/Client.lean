import BackupVault.ClientError
import BackupVault.Text.Lines
import BackupVault.Text.Lossy
import BackupVault.Wire.Request
import BackupVault.Wire.Response

/-!
# Clients of the backup protocol

A client opens a connection for each request, and turns the response into a result or an error.

## Overview

- `Client.ask`: one request over one connection
- `Client.backup`, `restore`, `delete`, `list`
-/

set_option autoImplicit false

namespace BackupVault.Backup

/-- Who asks, and in which version of the protocol. -/
structure Client where
  user : UserId
  version : UInt8 := 1

/-- The other side: given the bytes of a request, the stream that comes back. -/
abbrev Peer (m : Type → Type) := Bytes → m (Except IoFailure Source)

/-- The error for a response that is no success. -/
def failure : ResponseBody → ClientError
  | .fileNotFound filename => .fileNotFound filename
  | .noBackupFiles => .noBackupFiles
  | .serverError => .serverFailure
  | body => .unexpectedResponse body.code.toWord

def doneOf : ResponseBody → Except ClientError Unit
  | .done _ => .ok ()
  | body => .error (failure body)

def contentOf : ResponseBody → Except ClientError Bytes
  | .restored _ payload => .ok payload
  | body => .error (failure body)

/-- What a list of files comes to: its lines, those without a name left out. -/
def namesOf : ResponseBody → Except ClientError (List String)
  | .listed _ payload => .ok ((Text.lines (Text.lossy payload)).filter (· ≠ ""))
  | body => .error (failure body)

namespace Client

variable {m : Type → Type} [Monad m]

/-- One request and its response.  A request that cannot be encoded opens no connection. -/
def ask (c : Client) (peer : Peer m) (body : RequestBody) : ExceptT ClientError m ResponseBody :=
  match Request.encode { user := c.user, version := c.version, body } with
  | .error e => throw (.wire e)
  | .ok sent => do
    match ← (peer sent : m (Except IoFailure Source)) with
    | .error e => throw (.io e)
    | .ok source =>
      match Response.decode c.version { source } with
      | .ok response _ => return response.body
      | .error e _ => throw (.wire e)

def request {α : Type} (c : Client) (peer : Peer m) (body : RequestBody)
    (meaning : ResponseBody → Except ClientError α) : ExceptT ClientError m α := do
  match meaning (← c.ask peer body) with
  | .ok value => return value
  | .error e => throw e

def backup (c : Client) (peer : Peer m) (filename : String) (content : Bytes) :
    ExceptT ClientError m Unit := c.request peer (.backup filename content) doneOf

def restore (c : Client) (peer : Peer m) (filename : String) : ExceptT ClientError m Bytes :=
  c.request peer (.restore filename) contentOf

def delete (c : Client) (peer : Peer m) (filename : String) : ExceptT ClientError m Unit :=
  c.request peer (.delete filename) doneOf

def list (c : Client) (peer : Peer m) : ExceptT ClientError m (List String) :=
  c.request peer .list namesOf

/-- The bytes hold a whole response, or can no longer become one. -/
def isWhole (c : Client) (b : Bytes) : Bool :=
  match Response.decode c.version (Reader.ofBytes b) with
  | .error (.shortRead _) _ => false
  | _ => true

end Client

end BackupVault.Backup
