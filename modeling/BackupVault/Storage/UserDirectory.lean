import BackupVault.Storage.Error
import BackupVault.Storage.FileTree

/-!
# Backup directories

The files of one user lie in one directory, each under its own name.  A file is written once and
never overwritten.

## Overview

- `isPlainFilename`: a name that is a single step of a path
- `UserDirectory.store`, `read`, `list`, `delete`
-/

set_option autoImplicit false

namespace BackupVault

/-- An operation on stored files, or what was wrong. -/
abbrev Stored (α : Type) := EStateM StorageError FileTree α

/-- The name is a single step that leads down: not empty, not `.` or `..`, without separators of
either kind and without NUL. -/
def isPlainFilename (filename : String) : Bool :=
  filename ≠ "" && filename ≠ "." && filename ≠ ".." &&
    filename.toList.all (fun c => c ≠ '/' && c ≠ '\\' && c ≠ Char.ofNat 0)

def checkFilename (filename : String) : Except StorageError Unit :=
  if isPlainFilename filename then .ok () else .error (.invalidFilename filename)

structure UserDirectory where
  user : UserId
  path : Path
deriving DecidableEq

namespace UserDirectory

/-! ## §1 Writing behind the caller's back -/

/-- Largest piece that is handed over for writing at once. -/
def pieceSize : Nat := 2 * 1024 * 1024

def pieces (b : Bytes) : List Bytes :=
  (List.range ((b.size + pieceSize - 1) / pieceSize)).map fun i =>
    b.extract (i * pieceSize) ((i + 1) * pieceSize)

/-- Hand over pieces for writing.  Each is written while the caller goes on; its failure comes to
light when the next piece is handed over, so that of the last piece never does. -/
def handOver (l : Location) : (pending : Option IoFailure) → List Bytes → Files Unit
  | _, [] => pure ()
  | some failure, _ :: _ => throw failure
  | none, piece :: rest => fun t =>
    match FileTree.append l piece t with
    | .ok _ t => handOver l none rest t
    | .error e t => handOver l (some e) rest t

/-! ## §2 Operations -/

def filePath (d : UserDirectory) (filename : String) : Except StorageError Path := do
  checkFilename filename
  return d.path.join (Path.ofText filename)

def lift {α : Type} : Except StorageError α → Stored α
  | .ok a => pure a
  | .error e => throw e

/-- Write the content of a file just made; a failure takes the file away again. -/
def fill (target : Path) (content : Bytes) : Stored Unit := fun t =>
  match (do handOver (← FileTree.place false target).location none (pieces content)) t with
  | .ok _ t => .ok () t
  | .error e t =>
    match FileTree.remove target t with
    | .ok _ t => .error (.io target e) t
    | .error _ t => .error (.io target e) t

/-- Write a new file and say where it lies. -/
def store (d : UserDirectory) (filename : String) (content : Bytes) : Stored Path := do
  let target ← lift (d.filePath filename)
  (FileTree.makeDirectories d.path).orFail (.io d.path)
  (FileTree.createNew target).orFail fun
    | .alreadyExists => .alreadyExists target
    | e => .io target e
  fill target content
  return target

def read (d : UserDirectory) (filename : String) : Stored Bytes := do
  let target ← lift (d.filePath filename)
  (FileTree.load target).orFail fun
    | .notFound => .fileNotFound target
    | e => .io target e

/-- The entry is a file, with a name that is text. -/
def listed? : Bytes × Entry → Option String
  | (name, .file _) => String.fromUTF8? name
  | _ => none

/-- The names of the files, in ascending order.  What is no file, or has a name that is no text,
is left out. -/
def list (d : UserDirectory) : Stored (List String) := do
  let entries ← (FileTree.list d.path).orFail (.io d.path)
  return (entries.filterMap listed?).mergeSort (fun a b => !(b < a))

def content? : Bytes × Entry → Option (Bytes × Bytes)
  | (name, .file content) => some (name, content)
  | _ => none

def contents (d : UserDirectory) : Stored (List (Bytes × Bytes)) := do
  return ((← (FileTree.list d.path).orFail (.io d.path)).filterMap content?)

def delete (d : UserDirectory) (filename : String) : Stored Unit := do
  let target ← lift (d.filePath filename)
  (FileTree.remove target).orFail fun
    | .notFound => .fileNotFound target
    | e => .deleteFailed target e

end UserDirectory

end BackupVault
