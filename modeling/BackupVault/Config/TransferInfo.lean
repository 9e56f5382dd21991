import BackupVault.Config.Lines
import BackupVault.Text.Decimal

/-!
# Transfer files

A transfer file says in three lines which file goes where under which name.
-/

set_option autoImplicit false

namespace BackupVault

/-- What to upload, where to, and under which client name. -/
structure TransferInfo where
  /-- Host and port of the server. -/
  server : String
  name : String
  file : Path
deriving DecidableEq

/-- The text before the last colon, and the text after it. -/
def splitAtLastColon (cs : List Char) : Option (List Char × List Char) :=
  let after := (cs.reverse.takeWhile (· ≠ ':')).reverse
  if after.length < cs.length then some (cs.take (cs.length - after.length - 1), after) else none

def port? (cs : List Char) : Option Nat := Text.decimal? 65536 cs

namespace TransferInfo

def fileName : String := "transfer.info"

/-- The address is a host that is not empty, a colon, and a port. -/
def isAddress (s : String) : Bool :=
  match splitAtLastColon s.toList with
  | some (host, port) => !host.isEmpty && (port? port).isSome
  | none => false

def ofText (s : String) : Except LineFault TransferInfo := do
  let (server, name, file) ← threeLines "server address" "client name" "file path" s
  if !isAddress server then throw (.badAddress server)
  if name.utf8ByteSize > nameCapacity then throw (.nameTooLong name.utf8ByteSize)
  return { server, name, file := Path.ofText file }

def text (t : TransferInfo) : String :=
  t.server ++ "\n" ++ t.name ++ "\n" ++ t.file.display ++ "\n"

def ofRead (path : Path) : Except IoFailure String → Except ConfigError TransferInfo
  | .ok s => (ofText s).mapError (.invalidLines path)
  | .error e => .error (.io path e)

def load (path : Path) : Configured TransferInfo := FileTree.loadAs path ofRead

end TransferInfo

end BackupVault
