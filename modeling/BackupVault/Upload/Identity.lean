import BackupVault.Config.SavedIdentity

/-!
# Who a client is

A client has a name and a key pair from the start, and an identity once a server gave it one.
-/

set_option autoImplicit false

namespace BackupVault

/-- Who a client is to the server. -/
structure Identity where
  name : String
  id : Option ClientId := none
  keys : KeyPair
deriving DecidableEq

namespace Identity

def ofSaved (s : SavedIdentity) : Identity := { name := s.name, id := some s.id, keys := s.keys }

/-- What an identity file is to hold, once there is an identity. -/
def toSaved? (i : Identity) : Option SavedIdentity :=
  i.id.map fun id => { name := i.name, id, keys := i.keys }

end Identity

end BackupVault
