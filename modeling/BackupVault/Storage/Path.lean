import BackupVault.Bytes
import BackupVault.Text.Lossy

/-!
# Paths

A path is the bytes that name a file, with `/` between the steps.  Empty steps and `.` lead
nowhere; `..` leads one directory up.

## Overview

- `Path.join`: a path below another one
- `Path.fileName?`: the last step, if it is a name
- `Path.segments`: all the steps
-/

set_option autoImplicit false

namespace BackupVault

/-- The bytes that name a file. -/
structure Path where
  bytes : Bytes
deriving DecidableEq

namespace Path

def separator : UInt8 := 0x2f

def ofText (s : String) : Path := ⟨Bytes.ofText s⟩

/-- The path as messages show it. -/
def display (p : Path) : String := Text.lossy p.bytes

/-- The path begins at the top. -/
def isAbsolute (p : Path) : Bool := !p.bytes.isEmpty && Bytes.at0 p.bytes 0 == separator

def endsWithSeparator (p : Path) : Bool :=
  !p.bytes.isEmpty && Bytes.at0 p.bytes (p.bytes.size - 1) == separator

/-- The path without the separators at its end. -/
def withoutEnd (p : Path) : Path :=
  ⟨Bytes.ofList (p.bytes.data.toList.reverse.dropWhile (· == separator)).reverse⟩

/-- `tail` taken from where `p` leads.  An absolute path leads to the same place from anywhere. -/
def join (p tail : Path) : Path :=
  if tail.isAbsolute || p.bytes.isEmpty then tail
  else if p.endsWithSeparator then ⟨p.bytes ++ tail.bytes⟩
  else ⟨p.bytes.push separator ++ tail.bytes⟩

def splitBytes : List UInt8 → List (List UInt8)
  | [] => [[]]
  | b :: rest =>
    if b = separator then [] :: splitBytes rest
    else
      match splitBytes rest with
      | [] => [[b]]
      | first :: others => (b :: first) :: others

/-- The steps of the path as they are written, empty ones too. -/
def segments (p : Path) : List Bytes := (splitBytes p.bytes.data.toList).map Bytes.ofList

/-- The step that stays where it is. -/
def here : Bytes := Bytes.ofText "."

/-- The step that leads to the directory above. -/
def above : Bytes := Bytes.ofText ".."

/-- The step leads nowhere. -/
def isIdle (segment : Bytes) : Bool := segment.isEmpty || segment == here

/-- The steps of the path that lead somewhere. -/
def steps (p : Path) : List Bytes := p.segments.filter (!isIdle ·)

/-- The last step, unless it leads up or there is none. -/
def fileName? (p : Path) : Option Bytes :=
  match p.steps.getLast? with
  | some s => if s = above then none else some s
  | none => none

def fileNameText? (p : Path) : Option String := p.fileName?.bind String.fromUTF8?

def ofSteps (absolute : Bool) (steps : List Bytes) : Path :=
  let start : Path := if absolute then ⟨Bytes.ofList [separator]⟩ else ⟨ByteArray.empty⟩
  steps.foldl (fun p s => p.join ⟨s⟩) start

end Path

end BackupVault
