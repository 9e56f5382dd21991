import BackupVault.Bytes
import BackupVault.Text.Lossy
import BackupVault.Text.Quoted
import BackupVault.Wire.Error

/-!
# Name fields

Client names and file names of the upload protocol lie in fields of exactly 255 bytes.  The
content ends at the first NUL or fills the field; whatever follows a NUL is kept as it came.
-/

set_option autoImplicit false

namespace BackupVault

/-- A field of exactly `nameCapacity` bytes. -/
structure Name where
  bytes : Bytes
  size_eq : bytes.size = nameCapacity := by decide
deriving DecidableEq

namespace Name

def ofWire? (b : Bytes) : Option Name :=
  if h : b.size = nameCapacity then some ⟨b, h⟩ else none

/-- The field that begins with the given bytes and is zero after them. -/
def padded (b : Bytes) : Name := ⟨Bytes.fit nameCapacity b, Bytes.size_fit nameCapacity b⟩

/-- The field with the given content.  Content that does not fit is refused, never cut; a NUL
would end it early, so it is refused as well. -/
def ofContent (b : Bytes) : Except WireError Name :=
  if b.size > nameCapacity then .error (.nameTooLong b.size)
  else if b.data.contains 0 then .error (.invalidText "name")
  else .ok (padded b)

def ofText (s : String) : Except WireError Name := ofContent (Bytes.ofText s)

/-- The bytes before the first NUL. -/
def content (n : Name) : Bytes := Bytes.ofList (n.bytes.data.toList.takeWhile (· ≠ 0))

def toText (n : Name) : Except WireError String :=
  match String.fromUTF8? n.content with
  | some s => .ok s
  | none => .error (.invalidText "name")

/-- There is no content if the first byte ends it. -/
def isEmpty (n : Name) : Bool := Bytes.at0 n.bytes 0 == 0

/-- The content as text, with replacement characters where it is not text. -/
def display (n : Name) : String := Text.lossy n.content

def debug (n : Name) : String := "NameField(" ++ Text.quoted n.display ++ ")"

end Name

end BackupVault
