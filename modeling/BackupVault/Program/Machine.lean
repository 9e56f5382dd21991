import BackupVault.Program.Address
import BackupVault.Program.Client
import BackupVault.Program.Server

/-!
# A machine as a value

One machine with its files and with everybody who listens on it.  Programs that run on such a
machine run to their end one after another, while the servers among them stay and answer whoever
connects.  Addresses are told apart by their ports alone.

## Overview

- `Machine`: the machine
- `Machine.start`, `Machine.stop`: servers
- `Machine.runClient`: the client program
-/

set_option autoImplicit false

namespace BackupVault

/-- A machine and everybody who listens on it. -/
structure Machine where
  files : FileTree
  entropy : Entropy
  now : Timestamp
  /-- The servers that run, the latest first. -/
  services : List (Service Nat) := []
  /-- Peers that take one connection each, with what they send. -/
  scripted : List (Nat × Bytes) := []
  bound : List Nat := []

abbrev OnMachine := StateM Machine

namespace Machine

/-! ## §1 The network -/

inductive Line where
  /-- What is sent is known beforehand. -/
  | scripted (bytes : Bytes)
  | backup (port : Nat)
  | upload (port : Nat) (conversation : Conversation)

def isTaken (m : Machine) (port : Nat) : Bool :=
  m.bound.contains port || m.scripted.any (·.1 == port)

def withService (m : Machine) (s : Service Nat) : Machine :=
  { m with services := m.services.map fun t =>
      if t.backupListener = s.backupListener then s else t }

def connectTo (port : Nat) : OnMachine (Except IoFailure Line) := fun m =>
  match m.scripted.lookup port with
  | some bytes =>
    (.ok (.scripted bytes), { m with scripted := m.scripted.filter (·.1 != port) })
  | none =>
    match m.services.find? (·.backupListener == port) with
    | some _ => (.ok (.backup port), m)
    | none =>
      match m.services.find? (·.secureListener == port) with
      | some s => (.ok (.upload port s.greet), m)
      | none => (.error .connectionRefused, m)

def reply (line : Line) (sent : Bytes) : OnMachine (Arrival × Line) := fun m =>
  match line with
  | .scripted bytes => (({ bytes }, .scripted ByteArray.empty), m)
  | .backup port =>
    match m.services.find? (·.backupListener == port) with
    | none => (({ bytes := ByteArray.empty }, line), m)
    | some s =>
      let (label, entropy) := Backup.label m.entropy
      let (bytes, s, files) := s.answerRequest label (Reader.ofBytes sent) m.files
      (({ bytes }, line), { m.withService s with files, entropy })
  | .upload port conversation =>
    match m.services.find? (·.secureListener == port) with
    | none => (({ bytes := ByteArray.empty }, line), m)
    | some s =>
      let (bytes, conversation, s, files, entropy) :=
        s.answerClient conversation sent m.files m.entropy m.now
      (({ bytes }, .upload port conversation), { m.withService s with files, entropy })

def bindTo (port : Nat) : OnMachine (Except IoFailure Nat) := fun m =>
  if m.isTaken port then (.error .addressInUse, m)
  else (.ok port, { m with bound := port :: m.bound })

/-! ## §2 The host -/

def onFiles {ε α : Type} (x : EStateM ε FileTree α) : OnMachine (Except ε α) := fun m =>
  match x m.files with
  | .ok a files => (.ok a, { m with files })
  | .error e files => (.error e, { m with files })

instance : Host Line Nat OnMachine where
  load p := onFiles (FileTree.load p)
  save p b := onFiles (FileTree.save p b)
  below _ x := onFiles x
  connect address :=
    match Address.ofText address with
    | .ok a => connectTo a.port
    | .error e => pure (.error e)
  exchange line sent _ := reply line sent
  bind address :=
    match Address.ofText address with
    | .ok a => bindTo a.port
    | .error e => pure (.error e)
  draw x := modifyGet fun m => ((x m.entropy).1, { m with entropy := (x m.entropy).2 })

/-! ## §3 Programs -/

def runClient (environment : String → Option String) (line : List String) : OnMachine Outcome :=
  Client.run environment line

/-- Start a server.  One that does not start leaves nobody listening. -/
def start (environment : String → Option String) (line : List String) :
    OnMachine (Option Outcome) := fun m =>
  match (Server.launch environment line : OnMachine (Except Outcome (Service Nat))) m with
  | (.ok service, m) => (none, { m with services := service :: m.services })
  | (.error outcome, after) => (some outcome, { after with bound := m.bound })

def stop : OnMachine Unit := modify fun m =>
  match m.services with
  | [] => m
  | s :: services =>
    { m with
      services
      bound := m.bound.filter fun p => p != s.backupListener && p != s.secureListener }

/-- Let a peer take one connection at a port. -/
def script (port : Nat) (bytes : Bytes) : OnMachine Unit :=
  modify fun m => { m with scripted := m.scripted ++ [(port, bytes)] }

end Machine

end BackupVault
