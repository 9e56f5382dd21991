import BackupVault.Crypto.Entropy
import BackupVault.Storage.Registry
import BackupVault.Wire.Request
import BackupVault.Wire.Response

/-!
# Answering backup requests

Each request is turned into one operation on storage, and what comes of it into one response.
Missing files and missing users have responses of their own; any other failure is one of the
server.

## Overview

- `Backup.perform`: the operation on storage
- `Backup.refusal`: the response when storage refuses
- `Backup.answer`: both together
-/

set_option autoImplicit false

namespace BackupVault.Backup

/-! ## §1 Lists of files -/

def labelSize : Nat := 32

def labelAlphabet : List Char :=
  "ABCDEFGHIJKLMNOPQRSTUVWXYZabcdefghijklmnopqrstuvwxyz0123456789".toList

def label (e : Entropy) : String × Entropy :=
  let (b, e) := e.draw labelSize
  (String.ofList (b.data.toList.map fun x =>
    labelAlphabet.getD (x.toNat % labelAlphabet.length) 'A'), e)

/-- The payload of a list of files: a line for each name. -/
def listing (names : List String) : Bytes :=
  names.foldl (fun b name => (b ++ Bytes.ofText name).push 0x0a) ByteArray.empty

/-! ## §2 Requests -/

def perform (label : String) (user : UserId) : RequestBody → Registered ResponseBody
  | .backup filename payload => do
    let _ ← Registry.store user filename payload
    return .done filename
  | .restore filename => do return .restored filename (← Registry.read user filename)
  | .delete filename => do
    Registry.delete user filename
    return .done filename
  | .list => do return .listed label (listing (← Registry.list user))

/-- The response to a request that storage refused. -/
def refusal : RequestBody → StorageError → ResponseBody
  | .restore filename, .userNotFound _ => .fileNotFound filename
  | .restore filename, .fileNotFound _ => .fileNotFound filename
  | .delete filename, .userNotFound _ => .fileNotFound filename
  | .delete filename, .fileNotFound _ => .fileNotFound filename
  | .list, .userNotFound _ => .noBackupFiles
  | _, _ => .serverError

/-- Answer one request; the label goes on a list of files. -/
def answer (version : UInt8) (label : String) (request : Request) (s : Storage) :
    Response × Storage :=
  match perform label request.user request.body s with
  | .ok body s => ({ version, body }, s)
  | .error e s => ({ version, body := refusal request.body e }, s)

end BackupVault.Backup
