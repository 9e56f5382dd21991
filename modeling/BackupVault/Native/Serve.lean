import BackupVault.Native.Network
import BackupVault.Program.Server
import Std.Async.Signal
import Std.Sync.Mutex
import Std.Time.DateTime.Timestamp

/-!
# Serving connections

A service that was started answers the connections to its two listeners, each in a task of its
own, until it is interrupted.  What the tasks share is locked while one of them acts on it.
-/

set_option autoImplicit false

namespace BackupVault.Native

open Std.Async.TCP.Socket

structure Running where
  root : Path
  service : Std.Mutex (Service Server)

def now : IO Timestamp := do
  let nanos := (← Std.Time.Timestamp.now).toNanosecondsSinceUnixEpoch.val
  return { seconds := nanos / 1000000000, nanos := (nanos % 1000000000).toNat }

/-- Act on the service and on the files that are wanted, alone. -/
def acting {α : Type} (r : Running) (wanted : Location → Bool)
    (x : Service Server → FileTree → α × Service Server × FileTree) : IO α := do
  r.service.atomically do
    let s ← get
    let act : EStateM StorageError FileTree (α × Service Server) := fun files =>
      let (a, s, files) := x s files
      .ok (a, s) files
    match ← Disk.below wanted r.root act with
    | .ok (a, s) =>
      set s
      return a
    | .error e => throw (IO.userError e.message)

def isNamed (filename : String) (l : Location) : Bool :=
  l.getLast? = some (Bytes.ofText filename)

/-! ## §1 Requests -/

/-- The file of a request has to be read if it is to be restored. -/
def wantedBy (version : UInt8) (b : Bytes) : Location → Bool :=
  match Request.decode version (Reader.ofBytes b) with
  | .ok { body := .restore filename, .. } _ => isNamed filename
  | _ => fun _ => false

/-- The bytes hold a whole request, or can no longer become one. -/
def isWholeRequest (version : UInt8) (b : Bytes) : Bool :=
  match Request.decode version (Reader.ofBytes b) with
  | .error (.shortRead _) _ => false
  | _ => true

def answerRequest (r : Running) (line : Client) : IO Unit := do
  let version ← r.service.atomically do return (← get).config.backupVersion
  let a ← receiveUntil line (isWholeRequest version) ByteArray.empty
  let label := (Backup.label (← entropy)).1
  let incoming : Reader := { source := (Source.ofBytes ByteArray.empty).arrive a }
  let back ← acting r (wantedBy version a.bytes) fun s files =>
    s.answerRequest label incoming files
  (line.send back).block
  line.shutdown.block

/-! ## §2 Conversations -/

/-- One step of a conversation; the service is locked if the step acts on it. -/
def stepOf (r : Running) (c : Conversation) : IO Conversation := do
  match Session.action? c.phase with
  | none => return c.hear
  | some _ =>
    let e ← entropy
    let t ← now
    acting r isDirectoryOfClients fun s files =>
      let (c, v) := c.step (s.vault files e t)
      (c, { s with registry := v.registry, clients := v.clients }, v.files)

partial def converse (r : Running) (line : Client) (c : Conversation) : IO Unit := do
  if c.outcome?.isSome then line.shutdown.block
  else if c.isReady then
    let next ← stepOf r c
    let sent := c.outgoing.written.size
    let written := next.outgoing.written
    if sent < written.size then (line.send (written.extract sent written.size)).block
    converse r line next
  else
    let a ← receive line
    if a.bytes.isEmpty then line.shutdown.block else converse r line (c.receive a.bytes)

/-! ## §3 Listeners -/

/-- How long to wait after a connection could not be accepted, in milliseconds. -/
def pause : UInt32 := 100

/-- Accept one connection after another, each to be answered in a task of its own. -/
partial def acceptAll (listener : Server) (answer : Client → IO Unit) : IO Unit := do
  match ← listener.accept.block.toBaseIO with
  | .ok line => discard (IO.asTask (answer line) .dedicated)
  | .error _ => IO.sleep pause
  acceptAll listener answer

/-- Answer connections until the program is interrupted. -/
def serve (service : Service Server) (home : Option Path) : IO Unit := do
  let r : Running := { root := service.config.rootDirectory home, service := ← Std.Mutex.new service }
  discard (IO.asTask (acceptAll service.backupListener (answerRequest r)) .dedicated)
  discard (IO.asTask (acceptAll service.secureListener fun line => converse r line service.greet)
    .dedicated)
  let interrupted ← Std.Async.Signal.Waiter.mk .sigint false
  discard (← interrupted.wait).block

end BackupVault.Native
