import BackupVault.Crypto.Entropy
import BackupVault.Storage.FileTree
import BackupVault.Upload.ClientRecord

/-!
# The directory of clients

The server gives each client an identity, under which it is known from then on.  A directory that
was opened on a root writes every change to a document there, so that clients are known after a
restart as well.

## Overview

- `ClientDirectory.openAt`: load the document
- `ClientDirectory.Disk`, `ClientDirectory.save`: write the document to a disk that may fail
- `ClientDirectory.register`: give an identity to a name
- `ClientDirectory.setKeys`: remember the keys of a client
-/

set_option autoImplicit false

namespace BackupVault

/-- The clients that a server knows. -/
structure ClientDirectory where
  /-- At most one record for each identity. -/
  records : List ClientRecord := []
  /-- Where changes are written to; nowhere, if the directory is kept in memory only. -/
  root : Option Path := none

structure ClientStore where
  directory : ClientDirectory
  files : FileTree

abbrev Enrolled (α : Type) := EStateM StorageError ClientStore α

namespace ClientDirectory

/-! ## §1 Records -/

def find? (d : ClientDirectory) (id : ClientId) : Option ClientRecord :=
  d.records.find? (·.id == id)

def hasName (d : ClientDirectory) (name : String) : Bool := d.records.any (·.name == name)

def erase (d : ClientDirectory) (id : ClientId) : ClientDirectory :=
  { d with records := d.records.filter (·.id != id) }

/-- A record, in place of one with the same identity. -/
def insert (d : ClientDirectory) (r : ClientRecord) : ClientDirectory :=
  { d with records := (d.erase r.id).records ++ [r] }

def size (d : ClientDirectory) : Nat := d.records.length

/-! ## §2 The document -/

def documentName : String := "clients.toml"

/-- The name of the file that a document is written to before it takes the place of the old one. -/
def draftName : String := "clients.tmp"

/-- The records as the document lists them: by name. -/
def sorted (d : ClientDirectory) : List ClientRecord :=
  d.records.mergeSort fun a b => !(b.name < a.name)

def document (d : ClientDirectory) : String :=
  ClientEntry.document (d.sorted.map ClientEntry.ofRecord)

/-- Write the document: to a file of its own first, which then takes the place of the old one. -/
def write (d : ClientDirectory) (root : Path) : EStateM StorageError FileTree Unit := do
  let draft := root.join (Path.ofText draftName)
  let target := root.join (Path.ofText documentName)
  (FileTree.save draft (Bytes.ofText d.document)).orFail (.io draft)
  (FileTree.move draft target).orFail (.io target)

/-- Take in the records of a document, one after another.  A name must not be taken; an identity
that is there already gets the later record. -/
def load (d : ClientDirectory) : List ClientEntry → Except DirectoryFault ClientDirectory
  | [] => .ok d
  | e :: rest => do
    let r ← e.toRecord
    if d.hasName r.name then throw (.duplicateName r.name)
    load (d.insert r) rest

def ofText (root : Path) (s : String) : Except DirectoryFault ClientDirectory :=
  match ClientEntry.all? s with
  | some es => load { root := some root } es
  | none => .error .malformed

/-- Open the directory on a root, empty if there is no document. -/
def openAt (root : Path) : EStateM StorageError FileTree ClientDirectory := fun t =>
  let path := root.join (Path.ofText documentName)
  match FileTree.loadText path t with
  | .ok s t =>
    match ofText root s with
    | .ok d => .ok d t
    | .error fault => .error (.invalidClientDirectory path fault) t
  | .error .notFound t => .ok { root := some root } t
  | .error e t => .error (.io path e) t

/-- What a directory is after a restart: that of its document, or empty if it has none. -/
def reopened (d : ClientDirectory) : EStateM StorageError FileTree ClientDirectory :=
  match d.root with
  | some root => openAt root
  | none => return {}

/-! ## §3 Disks that fail

The system can refuse any step of saving for reasons of its own, and the process can come to its end
between any two steps. -/

/-- A disk that a document is saved on: one that does what the tree of files allows, or one on which
saving comes to its end before anything is written, or after so many bytes of the draft.  In the
last case the whole draft may have been written, and it is the move that failed. -/
inductive Disk where
  | sound
  | failing (written : Option Nat) (e : StorageError)

/-- Write the document as far as the disk lets it. -/
def Disk.write (disk : Disk) (d : ClientDirectory) (root : Path) :
    EStateM StorageError FileTree Unit :=
  match disk with
  | sound => d.write root
  | failing none e => throw e
  | failing (some n) e => do
    let draft := root.join (Path.ofText draftName)
    (FileTree.save draft ((Bytes.ofText d.document).extract 0 n)).orFail (.io draft)
    throw e

/-- Write the document, if the directory has one. -/
def save (disk : Disk) : Enrolled Unit := fun s =>
  match s.directory.root with
  | none => .ok () s
  | some root =>
    match disk.write s.directory root s.files with
    | .ok _ files => .ok () { s with files }
    | .error e files => .error e { s with files }

/-! ## §4 Registration -/

/-- The identity can be given to a client: its files would be kept under a number that is not zero
and that no other client has. -/
def isFree (d : ClientDirectory) (id : ClientId) : Bool :=
  id.storageId != 0 && d.records.all (·.id.storageId != id.storageId)

/-- Give a name the first free one of the identities that are drawn for it.  A name that is empty or
taken gets none; whoever draws sees to it that there is a free one as long as any number is left
(`Vault.candidates`).  If the document cannot be written, the client stays unknown. -/
def register (disk : Disk) (name : String) (candidates : List ClientId) (now : Timestamp) :
    Enrolled (Option ClientId) := fun s =>
  if name = "" || s.directory.hasName name then .ok none s
  else
    match candidates.find? s.directory.isFree with
    | none => .ok none s
    | some id =>
      let r : ClientRecord := { id, name, publicKey := none, sessionKey := none, lastSeen := now }
      match save disk { s with directory := s.directory.insert r } with
      | .ok _ s => .ok (some id) s
      | .error e s => .error e { s with directory := s.directory.erase id }

/-! ## §5 Keys -/

def withKeys (r : ClientRecord) (publicKey : PublicKey) (sessionKey : SessionKey)
    (now : Timestamp) : ClientRecord :=
  { r with publicKey := some publicKey, sessionKey := some sessionKey, lastSeen := now }

/-- Remember the keys of a client; `false` if there is no such client. -/
def setKeys (disk : Disk) (id : ClientId) (publicKey : PublicKey) (sessionKey : SessionKey)
    (now : Timestamp) : Enrolled Bool := fun s =>
  match s.directory.find? id with
  | none => .ok false s
  | some r =>
    let directory := s.directory.insert (withKeys r publicKey sessionKey now)
    match save disk { s with directory } with
    | .ok _ s => .ok true s
    | .error e s => .error e s

end ClientDirectory

end BackupVault
