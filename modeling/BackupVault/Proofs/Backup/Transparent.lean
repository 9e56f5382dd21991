import BackupVault.Proofs.Backup.Client
import BackupVault.Proofs.Backup.Growth

/-!
# Clients see the registry

Backing up, restoring and deleting through a client and a server comes to what the same operation
on the registry comes to, and leaves the same behind, as long as the connection carries bytes
faithfully.  What is too long for the wire is not sent at all.

## Overview

- `Backup.Carrier`, `Backup.server`: connections that carry bytes faithfully
- `Backup.ComesTo`: what an operation of a client comes to
- `Backup.request_comesTo`: any request, if its response fits
- `Vault.clients_see_registry`: backing up, restoring and deleting
-/

set_option autoImplicit false

namespace BackupVault

open Registry

namespace Backup

/-! ## §1 Requests -/

/-- One direction of a connection: the bytes that were written come out as they are, cut into reads
in any way. -/
structure Carrier where
  carry : Bytes → Source
  faithful : ∀ b, (carry b).unread = b

/-- All bytes come out at once. -/
def Carrier.whole : Carrier := ⟨Source.ofBytes, Reader.unread_ofBytes⟩

/-- A server, with a connection for each request, on a storage that it goes on with. -/
def server (there back : Carrier) (version : UInt8) (label : String) : Peer (StateM Storage) :=
  fun sent => do
    let served := serve version label { source := there.carry sent } {} (← get)
    set served.storage
    return .ok (back.carry served.outgoing.written)

/-- What an operation of a client comes to: if there is a reason not to send it, it fails with this
reason and asks no peer; otherwise, with this server, it comes to `told` and leaves `s'` behind. -/
structure ComesTo {α : Type}
    (operation : (m : Type → Type) → [Monad m] → Peer m → ExceptT ClientError m α)
    (reason : Option WireError) (server : Peer (StateM Storage)) (s : Storage)
    (told : Except ClientError α) (s' : Storage) : Prop where
  unsent : ∀ e, reason = some e → ∀ (m : Type → Type) [Monad m] [LawfulMonad m] (peer : Peer m),
    operation m peer = throw (.wire e)
  sent : reason = none → (operation (StateM Storage) server).run.run s = (told, s')

/-- Any request comes to what the response to its call means, if the response fits. -/
theorem request_comesTo {α : Type} (c : Client) (there back : Carrier) {label : String}
    (hlabel : (Bytes.ofText label).size ≤ maxText) (body : RequestBody) (s : Storage)
    (hfits : (bodyFor label body (outcome ((callOf c.user body).perform s))).payload.size
      ≤ maxPayload) (meaning : ResponseBody → Except ClientError α) :
    ComesTo (fun _ _ peer => c.request peer body meaning) (oversize? body.text body.payload)
      (server there back c.version label) s
      (meaning (bodyFor label body (outcome ((callOf c.user body).perform s))))
      (after ((callOf c.user body).perform s)) where
  unsent e h m _ _ peer := request_unsent h c peer meaning
  sent h := by
    let request : Request := { user := c.user, version := c.version, body }
    obtain ⟨b, hb⟩ := request.encode_unless.done h
    have htext : (Bytes.ofText (answer c.version label request s).1.body.text).size ≤ maxText :=
      text_answer_le hlabel (oversize_eq_none.mp h).1 s
    have hanswer := answer_eq c.version label request s
    -- The server does the request and is heard to answer it.
    obtain ⟨hstorage, hheard⟩ := serve_request hb label s htext (by rwa [hanswer])
      { source := there.carry b } (there.faithful b)
    rw [hanswer] at hstorage hheard
    have hserver : (server there back c.version label b).run s =
        (.ok (back.carry (serve c.version label { source := there.carry b } {} s).outgoing.written),
          (serve c.version label { source := there.carry b } {} s).storage) := rfl
    rw [run_request, run_ask hb]
    simp only [StateT.run_bind, hserver, StateT.run_pure]
    have hback := hheard _ (back.faithful _)
    exact Prod.ext (congrArg (Except.bind · meaning) hback) hstorage

/-- Where the call for a request does `x` and answers `f`, the operation comes to what the response
to that means. -/
theorem call_comesTo {α β : Type} (c : Client) (there back : Carrier) {label : String}
    (hlabel : (Bytes.ofText label).size ≤ maxText) (body : RequestBody) (x : Registered β)
    (f : β → Answer) (s : Storage) {meaning : ResponseBody → Except ClientError α}
    (told : Except StorageError β → Except ClientError α)
    (hcall : (callOf c.user body).perform = x >>= fun a => pure (f a))
    (hmeaning : ∀ r, meaning (bodyFor label body (r.map f)) = told r)
    (hfits : (bodyFor label body ((outcome (x s)).map f)).payload.size ≤ maxPayload) :
    ComesTo (fun _ _ peer => c.request peer body meaning) (oversize? body.text body.payload)
      (server there back c.version label) s (told (outcome (x s))) (after (x s)) := by
  have hrun : outcome ((callOf c.user body).perform s) = (outcome (x s)).map f := by
    rw [hcall, outcome_map]
  have hafter : after ((callOf c.user body).perform s) = after (x s) := by
    rw [hcall, after_map]
  have hcomes := request_comesTo c there back hlabel body s (hrun.symm ▸ hfits) meaning
  rwa [hrun, hafter, hmeaning] at hcomes

/-! ## §2 Operations -/

/-- What a client is told in place of an error of the registry about a file. -/
def lookedUp (filename : String) : StorageError → ClientError
  | .userNotFound _ => .fileNotFound filename
  | .fileNotFound _ => .fileNotFound filename
  | _ => .serverFailure

section Operations

variable {label : String} (hlabel : (Bytes.ofText label).size ≤ maxText) (c : Client)
  (there back : Carrier) (filename : String) (s : Storage)

include hlabel

theorem backup_comesTo (content : Bytes) :
    ComesTo (fun _ _ peer => c.backup peer filename content) (oversize? filename content)
      (server there back c.version label) s
      (match outcome (Registry.store c.user filename content s) with
        | .ok _ => .ok ()
        | .error _ => .error .serverFailure)
      (after (Registry.store c.user filename content s)) := by
  refine call_comesTo c there back hlabel (.backup filename content)
    (Registry.store c.user filename content) .stored s
    (fun | .ok _ => .ok () | .error _ => .error .serverFailure) rfl (fun r => ?_) ?_
  · cases r <;> rfl
  -- Neither response has a payload.
  · cases outcome (Registry.store c.user filename content s) <;> exact Nat.zero_le _

theorem delete_comesTo :
    ComesTo (fun _ _ peer => c.delete peer filename) (oversize? filename ByteArray.empty)
      (server there back c.version label) s
      ((outcome (Registry.delete c.user filename s)).mapError (lookedUp filename))
      (after (Registry.delete c.user filename s)) := by
  refine call_comesTo c there back hlabel (.delete filename) (Registry.delete c.user filename)
    (fun _ => .deleted) s (·.mapError (lookedUp filename)) rfl (fun r => ?_) ?_
  · cases r with
    | ok u => rfl
    | error e => cases e <;> rfl
  · cases outcome (Registry.delete c.user filename s) with
    | ok u => exact Nat.zero_le _
    | error e => cases e <;> exact Nat.zero_le _

/-- What is read has to fit into a response. -/
theorem restore_comesTo
    (hfits : ∀ content, outcome (Registry.read c.user filename s) = .ok content →
      content.size ≤ maxPayload) :
    ComesTo (fun _ _ peer => c.restore peer filename) (oversize? filename ByteArray.empty)
      (server there back c.version label) s
      ((outcome (Registry.read c.user filename s)).mapError (lookedUp filename))
      (after (Registry.read c.user filename s)) := by
  refine call_comesTo c there back hlabel (.restore filename) (Registry.read c.user filename)
    .content s (·.mapError (lookedUp filename)) rfl (fun r => ?_) ?_
  · cases r with
    | ok content => rfl
    | error e => cases e <;> rfl
  · cases h : outcome (Registry.read c.user filename s) with
    | ok content => exact hfits content h
    | error e => cases e <;> exact Nat.zero_le _

end Operations

end Backup

namespace Vault

open Backup

/-- What is read from a vault fits into a payload. -/
theorem Stocked.size_of_read {R : Location} {v : Vault} (h : Stocked R v) {user : UserId}
    {filename : String} {content : Bytes}
    (hread : outcome (Registry.read user filename v.storage) = .ok content) :
    content.size ≤ maxPayload := by
  have hcall : outcome ((Call.read user filename).perform v.storage) = .ok (.content content) := by
    rw [show outcome ((Call.read user filename).perform v.storage) =
      (outcome (Registry.read user filename v.storage)).map .content from outcome_map _ _ _, hread]
    rfl
  obtain ⟨-, content', heq, hlookup⟩ := h.tidy.sound.held_of_read hcall
  cases heq
  exact h.fits user filename content hlookup

/-- **Transparency**: on any vault that the two protocols lead to, backing up, restoring and
deleting through a client and a server of its version comes to what the registry comes to.  Backing up
succeeds exactly if the registry stores the file; what is restored is what the registry reads; and
the registry is left as it leaves itself.  A name or a content that is too long is not sent. -/
theorem clients_see_registry {v : Vault} (h : v.Grown) (c : Client) (there back : Carrier)
    (e : Entropy) (filename : String) (content : Bytes) :
    ComesTo (fun _ _ peer => c.backup peer filename content) (oversize? filename content)
        (server there back c.version (label e).1) v.storage
        (match outcome (Registry.store c.user filename content v.storage) with
          | .ok _ => .ok ()
          | .error _ => .error .serverFailure)
        (after (Registry.store c.user filename content v.storage)) ∧
      ComesTo (fun _ _ peer => c.restore peer filename) (oversize? filename ByteArray.empty)
        (server there back c.version (label e).1) v.storage
        ((outcome (Registry.read c.user filename v.storage)).mapError (lookedUp filename))
        (after (Registry.read c.user filename v.storage)) ∧
      ComesTo (fun _ _ peer => c.delete peer filename) (oversize? filename ByteArray.empty)
        (server there back c.version (label e).1) v.storage
        ((outcome (Registry.delete c.user filename v.storage)).mapError (lookedUp filename))
        (after (Registry.delete c.user filename v.storage)) := by
  obtain ⟨R, hstocked⟩ := h.stocked
  exact ⟨backup_comesTo (label_le e) c there back filename v.storage content,
    restore_comesTo (label_le e) c there back filename v.storage fun _ => hstocked.size_of_read,
    delete_comesTo (label_le e) c there back filename v.storage⟩

/-- On a vault with nothing in it, a client backs up a file. -/
theorem client_backs_up_blank : ∃ s,
    (Backup.Client.backup { user := 7 } (server .whole .whole 1 (label ⟨fun _ => 0, 0⟩).1) "a"
      (Bytes.ofList [1])).run.run blank.storage = (.ok (), s) := by
  have hnew : blank.storage.files.lookup (fileAt [] 7 (Bytes.ofText "a")) = none := rfl
  obtain ⟨target, s, hstore, -⟩ := store_new blank_sound.layout (by decide) (by decide) hnew
    (Bytes.ofList [1])
  have hsent := (clients_see_registry (.opened blank_opened) { user := 7 } .whole .whole
    ⟨fun _ => 0, 0⟩ "a" (Bytes.ofList [1])).1.sent (by decide)
  rw [hstore] at hsent
  exact ⟨s, hsent⟩

end Vault

end BackupVault
