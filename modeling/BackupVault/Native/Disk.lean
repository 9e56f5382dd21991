import BackupVault.Storage.Error
import BackupVault.Storage.FileTree

/-!
# Files on disk

An operation on a file tree is carried out on a picture of the part of the disk that it is about.
What it changed in the picture is then changed on disk.

## Overview

- `Disk.below`: an operation on the files below a directory
- `Disk.failureOf`: failures of the system
-/

set_option autoImplicit false

namespace BackupVault.Disk

/-! ## §1 Failures -/

/-- The number of a failure, which may come as a negative word. -/
def number (code : UInt32) : Nat :=
  if code < 0x80000000 then code.toNat else (0 - code).toNat

def code? : IO.Error → Option Nat
  | .alreadyExists _ code _ | .otherError code _ | .resourceBusy code _
  | .resourceVanished code _ | .unsupportedOperation code _ | .hardwareFault code _
  | .unsatisfiedConstraints code _ | .illegalOperation code _ | .protocolError code _
  | .timeExpired code _ | .interrupted _ code _ | .noFileOrDirectory _ code _
  | .invalidArgument _ code _ | .permissionDenied _ code _ | .resourceExhausted _ code _
  | .inappropriateType _ code _ | .noSuchThing _ code _ => some (number code)
  | _ => none

def failureOf (e : IO.Error) : IoFailure :=
  match code? e with
  | some 2 => .notFound
  | some 17 => .alreadyExists
  | some 20 => .notADirectory
  | some 21 => .isADirectory
  | some 27 => .fileTooLarge
  | some 32 => .brokenPipe
  | some 36 => .nameTooLong
  | some 39 => .directoryNotEmpty
  | some 40 => .linkLoop
  | some 98 => .addressInUse
  | some 104 => .connectionReset
  | some 110 => .timedOut
  | some 111 => .connectionRefused
  | _ => .other (toString e)

/-- Do something, or say why it failed. -/
def attempt {α : Type} (x : IO α) : IO (Except IoFailure α) := do
  match ← x.toBaseIO with
  | .ok a => return .ok a
  | .error e => return .error (failureOf e)

/-! ## §2 Pictures -/

/-- Where a path leads from a directory, links left aside. -/
def locate (start : Location) (p : Path) : Location :=
  p.steps.foldl (fun l s => if s = Path.above then l.dropLast else l ++ [s])
    (if p.isAbsolute then [] else start)

def pathOf (l : Location) : String := (Path.ofSteps true l).display

/-- What stands at a path.  The content of a file is only read if it is wanted. -/
def look (wanted : Location → Bool) (l : Location) : IO (Option Entry) := do
  let place := (← IO.currentDir) / pathOf l
  if !(← place.pathExists) then return none
  match (← place.metadata).type with
  | .dir => return some .directory
  | _ =>
    if wanted l then return some (.file (← IO.FS.readBinFile place))
    else return some (.file ByteArray.empty)

def lookBelow (wanted : Location → Bool) : (depth : Nat) → Location → IO (List (Location × Entry))
  | 0, _ => return []
  | depth + 1, l => do
    let place := (← IO.currentDir) / pathOf l
    let mut found := []
    for child in ← place.readDir do
      let at' := l ++ [Bytes.ofText child.fileName]
      if let some e ← look wanted at' then
        found := found ++ [(at', e)]
        if e = .directory then found := found ++ (← lookBelow wanted depth at')
    return found

/-- The directories on the way to a location, with what stands there. -/
def lookAlong (wanted : Location → Bool) (l : Location) : IO (List (Location × Entry)) := do
  let mut found := []
  for n in List.range l.length do
    let at' := l.take (n + 1)
    if let some e ← look wanted at' then found := found ++ [(at', e)]
  return found

/-- A picture of everything at a path and two steps below it. -/
def picture (wanted : Location → Bool) (p : Path) : IO FileTree := do
  let here := Path.ofText (toString (← IO.currentDir))
  let workingDirectory := locate [] here
  let l := locate workingDirectory p
  let along ← lookAlong wanted l
  let below ← match along.lookup l with
    | some .directory => lookBelow wanted 2 l
    | _ => pure []
  let home ← lookAlong wanted workingDirectory
  return { entries := home.filter (fun e => !along.any (·.1 == e.1)) ++ along ++ below
           workingDirectory }

/-! ## §3 Changes -/

/-- Write a file aside and move it to its place. -/
def replaceFile (l : Location) (content : Bytes) : IO Unit := do
  let aside := pathOf l ++ ".part"
  IO.FS.writeBinFile aside content
  IO.FS.rename aside (pathOf l)

/-- Change on disk what differs between two pictures. -/
def commit (before after : FileTree) : IO Unit := do
  for (l, e) in after.entries do
    if before.lookup l ≠ some e then
      match e with
      | .directory => IO.FS.createDirAll (pathOf l)
      | .file content => replaceFile l content
      | .link _ => pure ()
  for (l, e) in before.entries do
    if (after.lookup l).isNone then
      if e = .directory then IO.FS.removeDir (pathOf l) else IO.FS.removeFile (pathOf l)

/-- An operation on the files at a path and below it.  What it did stays done if it fails. -/
def below {ε α : Type} (wanted : Location → Bool) (p : Path) (x : EStateM ε FileTree α) :
    IO (Except ε α) := do
  let before ← picture wanted p
  match x before with
  | .ok a after =>
    commit before after
    return .ok a
  | .error e after =>
    commit before after
    return .error e

end BackupVault.Disk
