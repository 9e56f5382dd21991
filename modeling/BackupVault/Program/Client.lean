import BackupVault.Backup.Client
import BackupVault.Program.ClientCommand
import BackupVault.Program.Host
import BackupVault.Program.Report

/-!
# The client program

Each command ends with something to print or with a report.

## Overview

- `Client.perform`: doing what a command asks for
- `Client.run`: from the command line to the outcome
-/

set_option autoImplicit false

namespace BackupVault.Client

variable {κ ℓ : Type} {m : Type → Type} [Monad m] [Host κ ℓ m]

/-! ## §1 Backups -/

/-- Who asks: the user that was given, or the one of the identity file. -/
def asker (t : Target) : ExceptT Report m Backup.Client := do
  match t.user with
  | some user => return { user, version := t.version }
  | none =>
    let saved ← orReport ConfigError.report
      (SavedIdentity.ofRead? t.identityFile (← Host.loadText t.identityFile))
    match saved with
    | some saved => return { user := saved.id.storageId, version := t.version }
    | none =>
      throw { message := "No --user given and " ++ t.identityFile.display ++ " does not exist" }

/-- The server as the other side of a request. -/
def serverAt (c : Backup.Client) (address : String) : Backup.Peer m := fun sent => do
  match ← Host.connect address with
  | .error e => return .error e
  | .ok line =>
    let (back, _) ← Host.exchange line sent c.isWhole
    return .ok ((Source.ofBytes ByteArray.empty).arrive back)

def asking {α : Type} (t : Target)
    (request : Backup.Client → Backup.Peer m → ExceptT ClientError m α) : ExceptT Report m α := do
  let c ← asker t
  ExceptT.adapt ClientError.report (request c (serverAt c t.server))

def backup (t : Target) (file : Path) : ExceptT Report m String := do
  let some filename := file.fileNameText? | throw (IoFailure.noFileName file.display).report
  let content ← orFailed ("Failed to read " ++ file.display) (← Host.load file)
  asking t fun c peer => c.backup peer filename content
  return "Backed up " ++ filename ++ "\n"

def restore (t : Target) (filename : String) (output : Option Path) : ExceptT Report m String := do
  let content ← asking t fun c peer => c.restore peer filename
  let output := output.getD (Path.ofText filename)
  orFailed ("Failed to write " ++ output.display) (← Host.save output content)
  return s!"Restored {filename} ({content.size} bytes) to {output.display}\n"

def delete (t : Target) (filename : String) : ExceptT Report m String := do
  asking t fun c peer => c.delete peer filename
  return "Deleted " ++ filename ++ "\n"

def list (t : Target) : ExceptT Report m String := do
  let names ← asking t fun c peer => c.list peer
  return String.join (names.map (· ++ "\n"))

/-! ## §2 Uploads -/

/-- The identity that was saved, or a new one that is not registered yet. -/
def identityFor (name : String) (identityFile : Path) (keyBits : Nat) :
    ExceptT Report m Identity := do
  let saved ← orReport ConfigError.report
    (SavedIdentity.ofRead? identityFile (← Host.loadText identityFile))
  match saved with
  | some saved => return Identity.ofSaved saved
  | none =>
    let keys ← orReport CryptoError.report (← Host.draw (KeyPair.generate keyBits))
    return { name, keys }

def saveIdentity (identityFile : Path) (saved : SavedIdentity) : ExceptT Report m Unit := do
  let text ← orReport ConfigError.report
    (saved.text.mapError (ConfigError.invalidLines identityFile))
  orReport ConfigError.report
    ((← Host.save identityFile (Bytes.ofText text)).mapError (ConfigError.io identityFile))

def jobAt (identity : Identity) (file : Path) (maxAttempts : Nat) :
    m (Except ClientError Engine.Job) := do
  match Engine.nameAt file with
  | .error e => return .error e
  | .ok filename =>
    match ← Host.load file with
    | .error e => return .error (.io e)
    | .ok plain => return Engine.jobFor identity filename plain maxAttempts

/-- Upload the file that a transfer file names.  An identity gained on the way is saved even if the
upload fails. -/
def upload (transferFile identityFile : Path) (keyBits maxAttempts : Nat) (version : UInt8) :
    ExceptT Report m String := do
  let transfer ← orReport ConfigError.report
    (TransferInfo.ofRead transferFile (← Host.loadText transferFile))
  let identity ← identityFor transfer.name identityFile keyBits
  let line ← orFailed ("Failed to connect to " ++ transfer.server) (← Host.connect transfer.server)
  let job ← jobAt identity transfer.file maxAttempts
  let result ← Engine.upload Host.exchange version identity job line
  if identity.id.isNone then
    if let some saved := result.identity.toSaved? then saveIdentity identityFile saved
  match ← orReport ClientError.report result.outcome with
  | .verified attempts checksum =>
    return s!"Uploaded {transfer.file.display} (cksum {checksum}, {attempts} attempt(s))\n"
  | .gaveUp attempts =>
    throw { message := s!"Checksum never matched after {attempts} attempts" }

/-! ## §3 The program -/

def perform : ClientCommand → ExceptT Report m String
  | .upload transferFile identityFile keyBits maxAttempts version =>
    upload transferFile identityFile keyBits maxAttempts version
  | .backup target file => backup target file
  | .restore target filename output => restore target filename output
  | .delete target filename => delete target filename
  | .list target => list target

def run (environment : String → Option String) (line : List String) : m Outcome := do
  match ClientCommand.ofLine environment line with
  | .error .badUsage => return { code := 2, stderr := ClientCommand.usage }
  | .error .help => return { stdout := ClientCommand.usage }
  | .error .version => return { stdout := ClientCommand.versionText }
  | .ok command => return Outcome.ofResult (← (perform command).run)

end BackupVault.Client
