import BackupVault.Config.ServerConfig
import BackupVault.Program.CommandLine

/-!
# Options of the server

What the command line says counts for more than the environment, and that for more than the
configuration file.
-/

set_option autoImplicit false

namespace BackupVault

open CommandLine

structure ServerOptions where
  config : Option Path := none
  root : Option Path := none
  backupAddress : Option String := none
  secureAddress : Option String := none
deriving DecidableEq

namespace ServerOptions

def versionText : String := "strongbox-server 0.1.0\n"

def usage : String :=
  "Usage: strongbox-server [-c FILE] [--root DIR] [--backup-addr HOST:PORT] " ++
    "[--secure-addr HOST:PORT]\n"

def grammar : Grammar where
  flags :=
    [{ long := "config", short := some 'c', kind := .path }, { long := "root", kind := .path },
      { long := "backup-addr", kind := .text }, { long := "secure-addr", kind := .text }]
  hasVersion := true

/-- A path from the command line or else from the environment, where it must not be empty. -/
def pathOf (environment : String → Option String) (w : Words) (long setting : String) :
    Except Refusal (Option Path) :=
  match (w.value? long).or (environment setting) with
  | none => .ok none
  | some "" => .error .badUsage
  | some written => .ok (some (Path.ofText written))

def ofLine (environment : String → Option String) (line : List String) :
    Except Refusal ServerOptions := do
  let w ← grammar.scan line
  return {
    config := ← pathOf environment w "config" "STRONGBOX_CONFIG"
    root := ← pathOf environment w "root" "STRONGBOX_ROOT"
    backupAddress := w.value? "backup-addr"
    secureAddress := w.value? "secure-addr" }

/-- A configuration with the options in place of what it says. -/
def override (o : ServerOptions) (c : ServerConfig) : ServerConfig :=
  { c with
    root := o.root.getD c.root
    backupAddress := o.backupAddress.getD c.backupAddress
    secureAddress := o.secureAddress.getD c.secureAddress }

end ServerOptions

end BackupVault
