import BackupVault.Native.Disk
import BackupVault.Program.Address
import BackupVault.Program.Host
import BackupVault.Upload.ClientDirectory
import Std.Async.DNS
import Std.Async.TCP

/-!
# The host of the system

Files, sockets and randomness of the system that the programs run on.
-/

set_option autoImplicit false

namespace BackupVault.Native

open Std.Async.TCP.Socket
open Std.Net

def ipOf (host : String) : IO IPAddr := do
  let bare := String.ofList (host.toList.filter fun c => c ≠ '[' && c ≠ ']')
  if let some v4 := IPv4Addr.ofString host then return .v4 v4
  if let some v6 := IPv6Addr.ofString bare then return .v6 v6
  match (← (Std.Async.DNS.getAddrInfo host "").block)[0]? with
  | some ip => return ip
  | none => throw (IO.userError "failed to lookup address information")

def socketAddress (a : Address) : IO SocketAddress := do
  let port := UInt16.ofNat a.port
  match ← ipOf a.host with
  | .v4 addr => return .v4 { addr, port }
  | .v6 addr => return .v6 { addr, port }

def connect (address : String) : IO (Except IoFailure Client) := do
  match Address.ofText address with
  | .error e => return .error e
  | .ok a =>
    Disk.attempt do
      let line ← Client.mk
      (line.connect (← socketAddress a)).block
      return line

def bind (address : String) : IO (Except IoFailure Server) := do
  match Address.ofText address with
  | .error e => return .error e
  | .ok a =>
    Disk.attempt do
      let listener ← Server.mk
      listener.bind (← socketAddress a)
      listener.listen 128
      return listener

/-- The next bytes of a connection; none if it has ended. -/
def receive (line : Client) : IO Arrival := do
  match ← Disk.attempt (line.recv? 65536).block with
  | .ok (some bytes) => return { bytes }
  | .ok none => return { bytes := ByteArray.empty }
  | .error e => return { bytes := ByteArray.empty, ending := .failing e }

/-- Take in bytes until they are enough or no more come. -/
partial def receiveUntil (line : Client) (isEnough : Bytes → Bool) (sofar : Bytes) : IO Arrival := do
  if isEnough sofar then return { bytes := sofar }
  let next ← receive line
  if next.bytes.isEmpty then return { next with bytes := sofar }
  receiveUntil line isEnough (sofar ++ next.bytes)

/-- Send some bytes, and take in bytes until they are enough or no more come. -/
def exchange (line : Client) (sent : Bytes) (isEnough : Bytes → Bool) : IO (Arrival × Client) := do
  if !sent.isEmpty then
    if let .error e ← Disk.attempt (line.send sent).block then
      return ({ bytes := ByteArray.empty, ending := .failing e }, line)
  return (← receiveUntil line isEnough ByteArray.empty, line)

def entropy : IO Entropy := do
  return Entropy.ofSeed (← IO.getRandomBytes 64)

def isDirectoryOfClients (l : Location) : Bool :=
  l.getLast? = some (Bytes.ofText ClientDirectory.documentName)

instance : Host Client Server IO where
  load p := Disk.attempt (IO.FS.readBinFile p.display)
  save p b := Disk.attempt (IO.FS.writeBinFile p.display b)
  below p x := do
    match ← Disk.attempt (Disk.below isDirectoryOfClients p x) with
    | .ok r => return r
    | .error e => return .error (.io p e)
  connect := connect
  exchange := exchange
  bind := bind
  draw x := do return (x (← entropy)).1

end BackupVault.Native
