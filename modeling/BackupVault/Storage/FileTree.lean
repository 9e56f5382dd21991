import BackupVault.IoFailure
import BackupVault.Storage.Path

/-!
# File trees

A tree of files, directories and symbolic links, as a finite map from locations to entries.  A
location is the list of names on the way down from the top.  Operations take paths, which are
walked from the working directory, and either succeed, or fail and say why.

## Overview

- `FileTree.lookup`, `FileTree.insert`, `FileTree.erase`: the map
- `FileTree.resolve`: from a path to a location
- `FileTree.load`, `FileTree.save`, `FileTree.createNew`, …: the operations
-/

set_option autoImplicit false

namespace BackupVault

/-- The names on the way down from the top. -/
abbrev Location := List Bytes

inductive Entry where
  | file (content : Bytes)
  | directory
  | link (target : Path)
deriving DecidableEq

/-- Files, directories and links by location. -/
structure FileTree where
  /-- Everything but the top directory, which is always there. -/
  entries : List (Location × Entry) := []
  /-- Where relative paths start. -/
  workingDirectory : Location := []
  /-- No file may grow beyond this size. -/
  sizeLimit : Option Nat := none

/-- An operation on a tree, or why it failed.  What a failed operation did stays done. -/
abbrev Files (α : Type) := EStateM IoFailure FileTree α

namespace FileTree

/-! ## §1 The map -/

/-- What stands at a location. -/
def lookup (t : FileTree) (l : Location) : Option Entry :=
  if l.isEmpty then some .directory else (t.entries.find? (·.1 == l)).map (·.2)

def erase (t : FileTree) (l : Location) : FileTree :=
  { t with entries := t.entries.filter (·.1 != l) }

def insert (t : FileTree) (l : Location) (e : Entry) : FileTree :=
  { t.erase l with entries := (t.erase l).entries ++ [(l, e)] }

/-- Nothing stands at the location or below it any more. -/
def eraseBelow (t : FileTree) (l : Location) : FileTree :=
  { t with entries := t.entries.filter (fun x => !l.isPrefixOf x.1) }

/-- The names in a directory, with what they stand for. -/
def children (t : FileTree) (l : Location) : List (Bytes × Entry) :=
  t.entries.filterMap fun (location, e) =>
    match location.getLast? with
    | some name => if location.dropLast = l then some (name, e) else none
    | none => none

/-! ## §2 Walking a path -/

/-- Longest step of a path, in bytes. -/
def maxSegment : Nat := 255

/-- Longest path, in bytes. -/
def maxPath : Nat := 4095

/-- How many links are followed on one walk. -/
def maxLinks : Nat := 40

structure Place where
  location : Location
  /-- What stands there, if the walk found it. -/
  entry : Option Entry
deriving DecidableEq

/-- Walk the remaining steps from a directory.  A link in the middle is always followed, one at
the end if `follow` is set; `links` says how many more may be. -/
def walk (t : FileTree) (follow : Bool) (links : Nat) (base : Location) (segments : List Bytes) :
    Except IoFailure Place :=
  match segments with
  | [] => .ok { location := base, entry := t.lookup base }
  | s :: rest =>
    match t.lookup base with
    | none => .error .notFound
    | some (.file _) | some (.link _) => .error .notADirectory
    | some .directory =>
      if Path.isIdle s then walk t follow links base rest
      else if s = Path.above then walk t follow links base.dropLast rest
      else if s.size > maxSegment then .error .nameTooLong
      else
        let next := base ++ [s]
        match t.lookup next with
        | none =>
          if rest.all (·.isEmpty) then .ok { location := next, entry := none }
          else .error .notFound
        | some (.link target) =>
          if rest.isEmpty && !follow then .ok { location := next, entry := some (.link target) }
          else
            match links with
            | 0 => .error .linkLoop
            | links + 1 =>
              walk t follow links (if target.isAbsolute then [] else base)
                (target.segments ++ rest)
        | some .directory => walk t follow links next rest
        | some (.file content) =>
          if rest.isEmpty then .ok { location := next, entry := some (.file content) }
          else .error .notADirectory
termination_by (links, segments.length)

/-- Where a path leads, starting from the working directory. -/
def resolve (t : FileTree) (follow : Bool) (p : Path) : Except IoFailure Place :=
  if p.bytes.isEmpty then .error .notFound
  else if !Bytes.allFrom p.bytes 0 (· != 0) then .error .nulInPath
  else if p.bytes.size > maxPath then .error .nameTooLong
  else t.walk follow maxLinks (if p.isAbsolute then [] else t.workingDirectory) p.segments

def place (follow : Bool) (p : Path) : Files Place := fun t =>
  match t.resolve follow p with
  | .ok place => .ok place t
  | .error e => .error e t

/-! ## §3 Looking -/

/-- What stands at a path, links followed. -/
def stat (p : Path) : Files Entry := do
  match (← place true p).entry with
  | some e => return e
  | none => throw .notFound

def isDirectory (t : FileTree) (p : Path) : Bool :=
  match stat p t with
  | .ok .directory _ => true
  | _ => false

def holds (t : FileTree) (p : Path) : Bool :=
  match stat p t with
  | .ok _ _ => true
  | .error _ _ => false

def load (p : Path) : Files Bytes := do
  match ← stat p with
  | .file content => return content
  | _ => throw .isADirectory

/-- The content of a file, which has to be text. -/
def loadText (p : Path) : Files String := do
  match String.fromUTF8? (← load p) with
  | some s => return s
  | none => throw .notText

/-- The names in a directory, with what they stand for, links not followed. -/
def list (p : Path) : Files (List (Bytes × Entry)) := do
  let place ← place true p
  match place.entry with
  | some .directory => return (← get).children place.location
  | some _ => throw .notADirectory
  | none => throw .notFound

/-! ## §4 Changing -/

def put (l : Location) (e : Entry) : Files Unit := modify (·.insert l e)

def makeDirectory (p : Path) : Files Unit := do
  let place ← place false p
  match place.entry with
  | some _ => throw .alreadyExists
  | none => put place.location .directory

/-- Make the directory at a path of the given steps, listed last to first, and those above it that
are missing. -/
def makeSteps (p : Path) : List Bytes → Files Unit
  | [] => pure ()
  | _ :: up => fun t =>
    match makeDirectory p t with
    | .ok _ t => .ok () t
    | .error .notFound t =>
      match makeSteps (Path.ofSteps p.isAbsolute up.reverse) up t with
      | .error e t => .error e t
      | .ok _ t =>
        match makeDirectory p t with
        | .ok _ t => .ok () t
        | .error e t => if t.isDirectory p then .ok () t else .error e t
    | .error e t => if t.isDirectory p then .ok () t else .error e t

/-- Make a directory and those above it that are missing.  One that is there already will do. -/
def makeDirectories (p : Path) : Files Unit := makeSteps p p.steps.reverse

/-- Where a file is to be written.  A path that ends with a separator is that of a directory. -/
def placeToWrite (follow : Bool) (p : Path) : Files Place := do
  if p.endsWithSeparator then
    if !p.steps.isEmpty then discard (place false p.withoutEnd)
    throw .isADirectory
  place follow p

/-- Make an empty file; anything that stands at the path already is left alone. -/
def createNew (p : Path) : Files Unit := do
  let place ← placeToWrite false p
  match place.entry with
  | some _ => throw .alreadyExists
  | none => put place.location (.file ByteArray.empty)

/-- Write at the end of the file at a location.  At the limit on file sizes the part that fits is
written. -/
def append (l : Location) (b : Bytes) : Files Unit := do
  let t ← get
  match t.lookup l with
  | some (.file old) =>
    match t.sizeLimit with
    | none => put l (.file (old ++ b))
    | some limit =>
      if old.size + b.size ≤ limit then put l (.file (old ++ b))
      else
        put l (.file (old ++ b.extract 0 (limit - old.size)))
        throw .fileTooLarge
  | some _ => throw .isADirectory
  | none => throw .notFound

/-- A file may be written at the place, and is found there by the path afterwards.  A directory is
in the way; and a path that leads there through a link with a separator at its end finds nothing
but a directory. -/
def admitsFile (t : FileTree) (p : Path) (place : Place) : Bool :=
  place.entry != some .directory &&
    match (t.insert place.location (.file ByteArray.empty)).resolve true p with
    | .ok found => found.location == place.location
    | .error _ => false

/-- Write a file, new or in place of its old content. -/
def save (p : Path) (b : Bytes) : Files Unit := do
  let place ← placeToWrite true p
  if !(← get).admitsFile p place then throw .isADirectory
  put place.location (.file ByteArray.empty)
  if b.size > 0 then append place.location b

def remove (p : Path) : Files Unit := do
  let place ← place false p
  match place.entry with
  | some .directory => throw .isADirectory
  | some _ => modify (·.erase place.location)
  | none => throw .notFound

/-- Remove whatever stands at a path, with everything below it. -/
def removeAll (p : Path) : Files Unit := do
  let place ← place false p
  match place.entry with
  | some _ => modify (·.eraseBelow place.location)
  | none => throw .notFound

/-- Make a symbolic link, which has to lead somewhere. -/
def makeLink (p target : Path) : Files Unit := do
  if target.bytes.isEmpty then throw .notFound
  let place ← place false p
  match place.entry with
  | some _ => throw .alreadyExists
  | none => put place.location (.link target)

/-- Move a file to a path, in place of a file that stands there. -/
def move (source target : Path) : Files Unit := do
  let old ← place false source
  let new ← place false target
  match old.entry, new.entry with
  | none, _ => throw .notFound
  | some .directory, _ => throw .isADirectory
  | some _, some .directory => throw .isADirectory
  | some e, _ =>
    if old.location ≠ new.location then
      modify fun t => (t.erase old.location).insert new.location e

end FileTree

/-- Run an operation on files, giving its failure as an error of another kind. -/
def Files.orFail {ε α : Type} (x : Files α) (wrap : IoFailure → ε) : EStateM ε FileTree α :=
  fun t =>
    match x t with
    | .ok a t => .ok a t
    | .error e t => .error (wrap e) t

end BackupVault
