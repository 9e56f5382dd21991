import BackupVault.Bytes
import BackupVault.IoFailure

/-!
# Byte sources

A source is a finite string of bytes that arrives in pieces and then ends, in peace or with a
failure.  How the bytes are cut into pieces is part of the source, so that "it does not matter
how they are cut" is something that can be said.

## Overview

- `Source.skip`: take bytes off a source, read by read
- `Source.left`: the bytes not taken yet
- `Source.arrive`: more bytes come in
-/

set_option autoImplicit false

namespace BackupVault

/-- How a source ends once its bytes are used up. -/
inductive Ending where
  | closed
  | failing (cause : IoFailure)
deriving DecidableEq, Repr

/-- What comes in over a connection: some bytes, and what happens after them. -/
structure Arrival where
  bytes : Bytes
  ending : Ending := .closed

/-- A stream of bytes, some of them taken already. -/
structure Source where
  bytes : Bytes
  taken : Nat := 0
  ending : Ending := .closed
  /-- Read number `k` gives at most `cuts k + 1` bytes. -/
  cuts : Nat → Nat := fun _ => UInt64.size
  reads : Nat := 0

namespace Source

def ofBytes (b : Bytes) : Source := { bytes := b }

def left (s : Source) : Nat := s.bytes.size - s.taken

/-- Take `need` bytes, read by read, and say how many of them the stream did not have. -/
def skip (s : Source) (need : Nat) : Source × Nat :=
  if need = 0 then (s, 0)
  else if s.taken < s.bytes.size then
    let step := min need (min (s.cuts s.reads + 1) (s.bytes.size - s.taken))
    skip { s with taken := s.taken + step, reads := s.reads + 1 } (need - step)
  else (s, need)
termination_by need

/-- The next `n` bytes of the stream, as far as it has them. -/
def peek (s : Source) (n : Nat) : Bytes := s.bytes.extract s.taken (s.taken + n)

def append (s : Source) (b : Bytes) : Source := { s with bytes := s.bytes ++ b }

def arrive (s : Source) (a : Arrival) : Source := { s.append a.bytes with ending := a.ending }

end Source

end BackupVault
