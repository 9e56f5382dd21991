import BackupVault.Config.SavedIdentity
import BackupVault.Config.TransferInfo
import BackupVault.Program.CommandLine
import BackupVault.Storage.Path
import BackupVault.Upload.Engine

/-!
# Commands of the client

The client uploads a file as a registered client, or backs up, restores, deletes and lists files
of a user.
-/

set_option autoImplicit false

namespace BackupVault

open CommandLine

/-- Which server to ask, and for which user. -/
structure Target where
  server : String := "127.0.0.1:1337"
  /-- The user; if there is none, the one of the identity file. -/
  user : Option UserId := none
  identityFile : Path := Path.ofText SavedIdentity.fileName
  version : UInt8 := 1
deriving DecidableEq

/-- What the client is asked to do. -/
inductive ClientCommand where
  /-- Register if need be, and upload the file that a transfer file names. -/
  | upload (transferFile identityFile : Path) (keyBits maxAttempts : Nat) (version : UInt8)
  | backup (target : Target) (file : Path)
  /-- Write a file of the user, under its own name unless another is given. -/
  | restore (target : Target) (filename : String) (output : Option Path)
  | delete (target : Target) (filename : String)
  | list (target : Target)
deriving DecidableEq

namespace ClientCommand

def defaultKeyBits : Nat := 1024

def defaultUploadVersion : Nat := 3

def versionText : String := "strongbox-client 0.1.0\n"

def usage : String :=
  "Usage: strongbox-client upload [--transfer-info FILE] [--me-info FILE] [--key-bits N] " ++
    "[--max-attempts N] [--version N]\n" ++
  "       strongbox-client backup [TARGET] FILE\n" ++
  "       strongbox-client restore [TARGET] [-o FILE] FILENAME\n" ++
  "       strongbox-client delete [TARGET] FILENAME\n" ++
  "       strongbox-client list [TARGET]\n\n" ++
  "TARGET: [-s HOST:PORT] [-u USER] [--me-info FILE] [--version N]\n"

/-! ## §1 Grammars -/

def grammar : Grammar := { hasVersion := true }

def uploadGrammar : Grammar where
  flags :=
    [{ long := "transfer-info", kind := .path }, { long := "me-info", kind := .path },
      { long := "key-bits", kind := .size }, { long := "max-attempts", kind := .number UInt32.size },
      { long := "version", kind := .number 256 }]

def targetFlags : List Flag :=
  [{ long := "server", short := some 's', kind := .text },
    { long := "user", short := some 'u', kind := .number UInt32.size },
    { long := "me-info", kind := .path }, { long := "version", kind := .number 256 }]

def backupGrammar : Grammar := { flags := targetFlags, operands := [.path] }

def restoreGrammar : Grammar where
  flags := targetFlags ++ [{ long := "output", short := some 'o', kind := .path }]
  operands := [.text]

def deleteGrammar : Grammar := { flags := targetFlags, operands := [.text] }

def listGrammar : Grammar := { flags := targetFlags }

/-! ## §2 Meaning of the words -/

def numberOf (w : Words) (long : String) : Option Nat :=
  (w.value? long).bind fun s => Text.signedDecimal? UInt64.size s.toList

def pathOf (w : Words) (long : String) : Option Path := (w.value? long).map Path.ofText

/-- What an option for the server leaves open, the environment may say. -/
def targetOf (environment : String → Option String) (w : Words) : Target :=
  let unset : Target := {}
  { server := ((w.value? "server").or (environment "STRONGBOX_SERVER")).getD unset.server
    user := (numberOf w "user").map UInt32.ofNat
    identityFile := (pathOf w "me-info").getD unset.identityFile
    version := ((numberOf w "version").map UInt8.ofNat).getD unset.version }

def uploadOf (w : Words) : ClientCommand :=
  .upload ((pathOf w "transfer-info").getD (Path.ofText TransferInfo.fileName))
    ((pathOf w "me-info").getD (Path.ofText SavedIdentity.fileName))
    ((numberOf w "key-bits").getD defaultKeyBits)
    ((numberOf w "max-attempts").getD Engine.defaultAttempts)
    (UInt8.ofNat ((numberOf w "version").getD defaultUploadVersion))

def named (environment : String → Option String) (name : String) (line : List String) :
    Except Refusal ClientCommand :=
  match name with
  | "upload" => do return uploadOf (← uploadGrammar.scan line)
  | "backup" => do
    let w ← backupGrammar.scan line
    return .backup (targetOf environment w) (Path.ofText (w.operand 0))
  | "restore" => do
    let w ← restoreGrammar.scan line
    return .restore (targetOf environment w) (w.operand 0) (pathOf w "output")
  | "delete" => do
    let w ← deleteGrammar.scan line
    return .delete (targetOf environment w) (w.operand 0)
  | "list" => do return .list (targetOf environment (← listGrammar.scan line))
  | "help" => .error .help
  | _ => .error .badUsage

def ofLine (environment : String → Option String) : List String → Except Refusal ClientCommand
  | [] => .error .badUsage
  | first :: others =>
    match grammar.word first with
    | .operand => named environment first others
    | .refused r => .error r
    | _ => .error .badUsage

end ClientCommand

end BackupVault
