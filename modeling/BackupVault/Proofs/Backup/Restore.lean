import BackupVault.Proofs.Backup.Client
import BackupVault.Proofs.Upload.Vault

/-!
# Restoring what is kept

A client of the backup protocol gets back the content of a file that a vault keeps, whatever the
version that client and server agree on.

## Overview

- `Backup.serverOf`: a vault as the peer of a client
- `Backup.restore_stored`: what is kept is restored
-/

set_option autoImplicit false

namespace BackupVault.Backup

/-- A vault that answers each request over a connection of its own. -/
def serverOf (v : Vault) (version : UInt8) (label : String) : Peer Id := fun sent =>
  let served := serve version label (Reader.ofBytes sent) {} v.storage
  .ok (Source.ofBytes served.outgoing.written)

/-- **Restoring**: what a vault keeps for a user is what the user gets back. -/
theorem restore_stored {v : Vault} {user : UserId} {filename : String} {content : Bytes}
    (h : v.Stored user filename content) (hname : (Bytes.ofText filename).size ≤ maxText)
    (hsize : content.size ≤ maxPayload) (version : UInt8) (label : String) :
    (Client.restore { user, version } (serverOf v version label) filename).run = .ok content := by
  obtain ⟨s, hread⟩ := h
  let request : Request := { user, version, body := .restore filename }
  -- The request is encoded, and the server answers it with the content.
  obtain ⟨sent, hsent⟩ :=
    request.encode_unless.done (oversize_eq_none.mpr ⟨hname, Nat.zero_le _⟩)
  have hanswer : answer version label request v.storage =
      ({ version, body := .restored filename content }, s) := by
    have hperform : perform label user (.restore filename) v.storage =
        .ok (.restored filename content) s := bind_run_ok hread
    simp only [answer, request, hperform]
  have hserve := serve_request hsent label v.storage (by rw [hanswer]; exact hname)
    (by rw [hanswer]; exact hsize) (Reader.ofBytes sent) (Reader.unread_ofBytes sent)
  rw [hanswer] at hserve
  -- The client takes all of the response off the connection.
  have hheard := hserve.2 _ (Reader.unread_ofBytes _)
  have hask := run_ask hsent (c := { user, version }) (serverOf v version label)
  have hask' : (Client.ask { user, version } (serverOf v version label) (.restore filename)).run =
      .ok (.restored filename content) := hask.trans hheard
  unfold Client.restore
  rw [run_request, hask']
  rfl

end BackupVault.Backup
