import BackupVault.Native.Serve
import BackupVault.Program.Client

/-!
# The programs

The first word of the command line says which program to run: `client` or `server`.
-/

set_option autoImplicit false

namespace BackupVault.Native

/-- The variables of the environment that the programs look at. -/
def settingNames : List String :=
  ["HOME", "STRONGBOX_SERVER", "STRONGBOX_CONFIG", "STRONGBOX_ROOT"]

def environment : IO (String → Option String) := do
  let mut found := []
  for name in settingNames do
    if let some value ← IO.getEnv name then found := (name, value) :: found
  return fun name => found.lookup name

def report (o : Outcome) : IO UInt32 := do
  IO.print o.stdout
  IO.eprint o.stderr
  return o.code.toUInt32

def runClient (line : List String) : IO UInt32 := do
  report (← Client.run (← environment) line)

def runServer (line : List String) : IO UInt32 := do
  let environment ← environment
  match ← Server.launch environment line with
  | .error o => report o
  | .ok service =>
    serve service (Server.homeOf environment)
    return 0

end BackupVault.Native

/-- Run the program that the first word names. -/
def main : List String → IO UInt32
  | "client" :: line => BackupVault.Native.runClient line
  | "server" :: line => BackupVault.Native.runServer line
  | _ => do
    IO.eprint (BackupVault.ClientCommand.usage ++ "\n" ++ BackupVault.ServerOptions.usage)
    return 2
