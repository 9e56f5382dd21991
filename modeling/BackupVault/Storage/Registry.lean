import BackupVault.Storage.UserDirectory

/-!
# The registry of backup directories

One root holds a directory for each user, named by the user's number.  The registry remembers the
directories it has met; one that is on disk already is adopted when it is first asked for.

## Overview

- `Registry.get`, `Registry.getOrCreate`: the directory of a user
- `Registry.store`, `read`, `list`, `delete`: a user's files
-/

set_option autoImplicit false

namespace BackupVault

/-- The root and the users whose directories were met. -/
structure Registry where
  root : Path
  /-- One user for each object that was made to stand for a directory, the last one first. -/
  known : List UserId := []

/-- A registry together with the files it is about. -/
structure Storage where
  registry : Registry
  files : FileTree

abbrev Registered (α : Type) := EStateM StorageError Storage α

namespace Registry

/-- A registry on a root, which is made if it is missing. -/
def create (root : Path) : Stored Registry := do
  (FileTree.makeDirectories root).orFail (.io root)
  return { root }

def userDirectory (r : Registry) (user : UserId) : UserDirectory :=
  { user, path := r.root.join (Path.ofText (toString user.toNat)) }

/-- An operation on files alone. -/
def onFiles {α : Type} (x : Stored α) : Registered α := fun s =>
  match x s.files with
  | .ok a files => .ok a { s with files }
  | .error e files => .error e { s with files }

def adopt (user : UserId) : Registered Unit :=
  modify fun s => { s with registry := { s.registry with known := user :: s.registry.known } }

/-- The directory of a user, if there is one. -/
def get (user : UserId) : Registered UserDirectory := do
  let r := (← MonadState.get).registry
  let d := r.userDirectory user
  if r.known.contains user then return d
  let entry ← onFiles <| (FileTree.stat d.path).orFail fun
    | .notFound => .userNotFound user
    | e => .io d.path e
  match entry with
  | .directory =>
    adopt user
    return d
  | _ => throw (.userNotFound user)

/-- The directory of a user, made if there is none. -/
def getOrCreate (user : UserId) : Registered UserDirectory := do
  let r := (← MonadState.get).registry
  let d := r.userDirectory user
  if r.known.contains user then return d
  onFiles ((FileTree.makeDirectories d.path).orFail (.io d.path))
  adopt user
  return d

/-- Start over with a new registry on the same root. -/
def reopen : Registered Unit := do
  let r ← onFiles (create (← MonadState.get).registry.root)
  modify fun s => { s with registry := r }

/-- Write a new file of a user.  A name that can never succeed makes no directory. -/
def store (user : UserId) (filename : String) (content : Bytes) : Registered Path := do
  onFiles (UserDirectory.lift (checkFilename filename))
  let d ← getOrCreate user
  onFiles (d.store filename content)

def read (user : UserId) (filename : String) : Registered Bytes := do
  let d ← get user
  onFiles (d.read filename)

/-- The names of a user's files, in ascending order. -/
def list (user : UserId) : Registered (List String) := do
  let d ← get user
  onFiles d.list

def delete (user : UserId) (filename : String) : Registered Unit := do
  let d ← get user
  onFiles (d.delete filename)

end Registry

end BackupVault
