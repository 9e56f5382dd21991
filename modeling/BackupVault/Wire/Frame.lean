import BackupVault.Wire.Error
import BackupVault.Wire.Name
import BackupVault.Wire.ClientId

/-!
# Frames

A frame is a byte string under construction.  Numbers are little-endian; a text carries its
length in two bytes, a blob in four.  A field that cannot be put leaves the frame as it was.
-/

set_option autoImplicit false

namespace BackupVault

/-- The bytes of a message under construction. -/
structure Frame where
  bytes : Bytes := ByteArray.empty

namespace Frame

def empty : Frame := {}

def size (f : Frame) : Nat := f.bytes.size

def isEmpty (f : Frame) : Bool := f.bytes.isEmpty

/-- The length of an outgoing field, which may not be over `maxPayload`. -/
def checkedSize (field : String) (size : Nat) : Except WireError UInt32 :=
  if size ≤ maxPayload then .ok (UInt32.ofNat size)
  else .error (.fieldTooLong field size maxPayload)

/-- Raw bytes, without a length. -/
def putBytes (f : Frame) (b : Bytes) : Frame := ⟨f.bytes ++ b⟩

def putU8 (f : Frame) (v : UInt8) : Frame := ⟨f.bytes.push v⟩

def putU16 (f : Frame) (v : UInt16) : Frame := f.putBytes (Bytes.ofNatLE 2 v.toNat)

def putU32 (f : Frame) (v : UInt32) : Frame := f.putBytes (Bytes.ofNatLE 4 v.toNat)

def putFrame (f other : Frame) : Frame := f.putBytes other.bytes

def putName (f : Frame) (n : Name) : Frame := f.putBytes n.bytes

def putClientId (f : Frame) (id : ClientId) : Frame := f.putBytes id.bytes

/-- A text after its length in two bytes. -/
def putText (f : Frame) (field text : String) : Except WireError Frame :=
  let b := Bytes.ofText text
  if b.size ≤ maxText then .ok ((f.putU16 (UInt16.ofNat b.size)).putBytes b)
  else .error (.fieldTooLong field b.size maxText)

/-- Bytes after their length in four bytes. -/
def putBlob (f : Frame) (field : String) (b : Bytes) : Except WireError Frame := do
  let size ← checkedSize field b.size
  return (f.putU32 size).putBytes b

end Frame

end BackupVault
