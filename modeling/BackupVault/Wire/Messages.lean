import BackupVault.Wire.Reader

/-!
# Many messages on one source

## Overview

- `Reader.each`: a number of messages, one after another
- `Reader.all`: all messages in a byte string
-/

set_option autoImplicit false

namespace BackupVault.Reader

variable {α : Type}

/-- Decode one message after another, up to a number of them.  Each comes with the reader that it
leaves behind, and an error is the last. -/
def each (decode : Read α) : (count : Nat) → Reader → List (Except WireError α × Reader)
  | 0, _ => []
  | count + 1, r =>
    match decode r with
    | .ok m r => (.ok m, r) :: each decode count r
    | .error e r => [(.error e, r)]

/-- The messages that a reader holds, and the error at which they end with the number of bytes that
are left then. -/
def allFor (decode : Read α) : (fuel : Nat) → Reader → List α × Option (WireError × Nat)
  | 0, _ => ([], none)
  | fuel + 1, r =>
    if r.remaining = 0 then ([], none)
    else
      match decode r with
      | .error e _ => ([], some (e, r.remaining))
      | .ok m r =>
        let (ms, rest) := allFor decode fuel r
        (m :: ms, rest)

/-- All messages in a byte string, and what is left over if anything is. -/
def all (decode : Read α) (b : Bytes) : List α × Option (WireError × Nat) :=
  allFor decode (b.size + 1) (ofBytes b)

end BackupVault.Reader
