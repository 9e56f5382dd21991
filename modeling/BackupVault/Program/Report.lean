import BackupVault.ClientError
import BackupVault.Config.Error
import BackupVault.Storage.Error

/-!
# Reports

A program that fails says what went wrong, and below that what caused it.

## Overview

- `Report.text`: how a report is printed
- `Outcome`: what a program leaves behind
-/

set_option autoImplicit false

namespace BackupVault

/-- Why a program failed. -/
structure Report where
  message : String
  /-- What caused it, the nearest cause first. -/
  causes : List String := []
deriving DecidableEq, Repr

namespace Report

def within (context : String) (r : Report) : Report :=
  { message := context, causes := r.message :: r.causes }

/-- What stands before the lines of a cause.  Causes are numbered if there are several. -/
def margin (several : Bool) (index : Nat) (first : Bool) : String :=
  if several then
    if first then
      let number := toString index
      String.ofList (List.replicate (5 - number.length) ' ') ++ number ++ ": "
    else "       "
  else "    "

def causeText (several : Bool) (index : Nat) (cause : String) : String :=
  match cause.splitOn "\n" with
  | [] => "\n"
  | first :: others =>
    "\n" ++ margin several index true ++ first ++
      String.join (others.map fun line => "\n" ++ margin several index false ++ line)

def text (r : Report) : String :=
  let below :=
    if r.causes.isEmpty then ""
    else
      "\n\nCaused by:" ++
        String.join (r.causes.mapIdx (causeText (1 < r.causes.length)))
  "Error: " ++ r.message ++ below ++ "\n"

end Report

/-! ## §1 Errors as reports -/

def IoFailure.report (e : IoFailure) : Report := { message := e.message }

def CryptoError.report (e : CryptoError) : Report :=
  { message := e.message, causes := e.cause?.toList }

def StorageError.report (e : StorageError) : Report :=
  { message := e.message, causes := e.cause?.toList }

def ConfigError.report (e : ConfigError) : Report :=
  { message := e.message, causes := e.cause?.toList }

def ClientError.report (e : ClientError) : Report :=
  { message := e.message, causes := e.cause?.toList }

def orReport {ε α : Type} {m : Type → Type} [Monad m] (report : ε → Report) :
    Except ε α → ExceptT Report m α
  | .ok a => pure a
  | .error e => throw (report e)

/-- A value, or the report of a failure in its context. -/
def orFailed {α : Type} {m : Type → Type} [Monad m] (context : String) :
    Except IoFailure α → ExceptT Report m α :=
  orReport fun e => e.report.within context

/-! ## §2 Outcomes -/

structure Outcome where
  /-- Zero if it did what it was asked for, two if it was not asked properly. -/
  code : UInt8 := 0
  stdout : String := ""
  stderr : String := ""
deriving DecidableEq, Repr

def Outcome.ofResult : Except Report String → Outcome
  | .ok stdout => { stdout }
  | .error r => { code := 1, stderr := r.text }

end BackupVault
