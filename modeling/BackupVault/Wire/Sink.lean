import BackupVault.Bytes
import BackupVault.IoFailure

/-!
# Byte sinks

The writing side of a connection: what was written so far, and how much the peer will still take.
-/

set_option autoImplicit false

namespace BackupVault

structure Sink where
  written : Bytes := ByteArray.empty
  /-- How many bytes the peer takes in all; without a limit it takes everything. -/
  limit : Option Nat := none

namespace Sink

/-- Write a byte string.  A peer that stops reading still gets the part that fits. -/
def write (s : Sink) (b : Bytes) : Except IoFailure Unit × Sink :=
  match s.limit with
  | none => (.ok (), { s with written := s.written ++ b })
  | some limit =>
    let room := limit - s.written.size
    if b.size ≤ room then (.ok (), { s with written := s.written ++ b })
    else (.error .brokenPipe, { s with written := s.written ++ b.extract 0 room })

end Sink

end BackupVault
