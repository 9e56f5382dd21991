import BackupVault.Bytes
import BackupVault.Text.Blank

/-!
# Client identities

A client is known by sixteen bytes that the server assigns when the client registers.  The
all-zero identity stands for a client that has not registered.
-/

set_option autoImplicit false

namespace BackupVault

/-- The number that files are kept under. -/
abbrev UserId := UInt32

/-- A client identity: sixteen bytes. -/
structure ClientId where
  bytes : Bytes
  size_eq : bytes.size = 16 := by decide
deriving DecidableEq

namespace ClientId

def ofBytes? (b : Bytes) : Option ClientId :=
  if h : b.size = 16 then some ⟨b, h⟩ else none

/-- The identity that begins with the given bytes and is zero after them. -/
def padded (b : Bytes) : ClientId := ⟨Bytes.fit 16 b, Bytes.size_fit 16 b⟩

/-- What a client sends before it has registered. -/
def unregistered : ClientId := padded ByteArray.empty

instance : Inhabited ClientId := ⟨unregistered⟩

/-- A random identity: of sixteen bytes that are drawn, six bits give way to version 4 and its
variant. -/
def random (drawn : Bytes) : ClientId :=
  let version := drawn.data.toList.modify 6 fun x => x &&& 0x0f ||| 0x40
  padded (Bytes.ofList (version.modify 8 fun x => x &&& 0x3f ||| 0x80))

def isRegistered (id : ClientId) : Bool := id != unregistered

/-- The user under whose number the client's files are kept: the first four bytes, least
significant first. -/
def storageId (id : ClientId) : UserId :=
  UInt32.ofNat (Bytes.natOfListLE (id.bytes.data.toList.take 4))

/-- The identity that differs from this one in its number only, which comes `k` later. -/
def shifted (id : ClientId) (k : Nat) : ClientId :=
  padded (Bytes.ofNatLE 4 (id.storageId.toNat + k) ++ id.bytes.extract 4 16)

/-- The identity as 32 lower-case hexadecimal digits. -/
def text (id : ClientId) : String := Bytes.hex id.bytes

def ofDigits? (cs : List Char) : Option ClientId := do
  ofBytes? (Bytes.ofList (← Bytes.ofHexDigits? cs))

/-- Identity from digits in groups of 8, 4, 4, 4 and 12 with hyphens between them. -/
def ofGroups? (cs : List Char) : Option ClientId :=
  if cs.length = 36 ∧ [8, 13, 18, 23].all (fun i => cs[i]? = some '-') then
    ofDigits? (cs.take 8 ++ (cs.drop 9).take 4 ++ (cs.drop 14).take 4 ++ (cs.drop 19).take 4 ++
      cs.drop 24)
  else none

/-- The scheme that may stand before the grouped form, in any case. -/
def urnScheme : List Char := "urn:uuid:".toList

/-- The identity written as 32 digits, in groups, in groups between braces, or in groups after
the URN scheme; white space around it does not count. -/
def ofText? (s : String) : Option ClientId :=
  let cs := Text.trimChars s.toList
  if cs.length = 32 then ofDigits? cs
  else if cs.length = 36 then ofGroups? cs
  else if cs.length = 38 ∧ cs.head? = some '\x7b' ∧ cs.getLast? = some '\x7d' then
    ofGroups? (cs.tail.dropLast)
  else if cs.length = 45 ∧ (cs.take 9).map Char.toLower = urnScheme then ofGroups? (cs.drop 9)
  else none

end ClientId

end BackupVault
