import BackupVault.Proofs.Backup.Connection
import BackupVault.Proofs.Backup.Isolation
import BackupVault.Proofs.Storage.Results
import BackupVault.Proofs.Upload.Loading
import BackupVault.Proofs.Upload.SessionStages

/-!
# What vaults hold

A vault that starts with nothing kept for any user, and is filled through the two protocols, holds
no file that would not fit into a message: what is stored was taken off a connection, and what is
taken off a connection is never longer than a payload may be.

## Overview

- `Conversation.UnderWay`: conversations with uploading clients, from their beginning
- `Vault.Grown`: vaults that the two protocols lead to
- `Vault.Stocked`: the invariant; `Vault.Grown.stocked`
-/

set_option autoImplicit false

namespace BackupVault

open FileTree Registry

/-! ## §1 Conversations -/

/-- A conversation that came about from its beginning: bytes come in, and steps are taken, with
whatever the vault is at the time. -/
inductive Conversation.UnderWay : Conversation → Prop where
  | opened (version : UInt8) (incoming : Reader) (outgoing : Sink) :
      UnderWay { version, incoming, outgoing }
  | heard {c : Conversation} (incoming : Reader) (h : UnderWay c) : UnderWay { c with incoming }
  | stepped {c : Conversation} (v : Vault) (h : UnderWay c) : UnderWay (c.step v).1

namespace Session

/-- The content that a session has in hand fits into a payload. -/
def Phase.Fits : Phase → Prop
  | .judging _ _ _ content => content.size ≤ maxPayload
  | .storing _ _ content => content.size ≤ maxPayload
  | _ => True

variable {phase : Phase} {m : ClientMessage}

theorem hearUpload_fits (client : ClientId) (key : SessionKey)
    (hm : ∀ filename content, m.body = .upload filename content → content.size ≤ maxPayload) :
    (hearUpload client key m).phase.Fits := by
  unfold hearUpload
  split
  · rename_i filename content hbody
    exact Nat.le_trans (size_plainContent key content) (hm filename content hbody)
  · trivial

theorem hearVerdict_fits (client : ClientId) (key : SessionKey) (filename : Name) {content : Bytes}
    (h : content.size ≤ maxPayload) : (hearVerdict client key filename content m).phase.Fits := by
  unfold hearVerdict
  split
  · split
    · exact h
    · trivial
  · trivial
  · trivial
  · trivial

theorem fromClient_fits {turn : Turn} (h : turn.phase.Fits) (client : ClientId) :
    (fromClient client m turn).phase.Fits := by
  unfold fromClient
  split
  · exact h
  · trivial

/-- What a session takes from a message fits if the message does. -/
theorem hear_fits (h : phase.Fits)
    (hm : ∀ filename content, m.body = .upload filename content → content.size ≤ maxPayload) :
    (hear phase m).phase.Fits := by
  cases phase with
  | greeting =>
    change (hearGreeting m).phase.Fits
    unfold hearGreeting
    split
    · split <;> trivial
    · trivial
    · trivial
  | registered =>
    change (hearKey m).phase.Fits
    unfold hearKey
    split <;> trivial
  | receiving client key => exact fromClient_fits (hearUpload_fits client key hm) client
  | judging client key filename content =>
    exact fromClient_fits (hearVerdict_fits client key filename h) client
  | registering name => trivial
  | identifying client name key => trivial
  | issuing client key => trivial
  | storing client filename content => exact h
  | ended o => trivial

/-- After it has done something a session has no content in hand. -/
theorem act_fits {x : Vaulted Turn} (hx : action? phase = some x) (v : Vault) :
    (act x v).1.phase.Fits := by
  cases phase with
  | registering name =>
    cases hx
    rcases act_register name v with ⟨id, h⟩ | h | ⟨e, h⟩ <;> rw [h] <;> trivial
  | identifying client name key =>
    cases hx
    rw [act_identify]
    unfold identified
    split
    · trivial
    · split
      · trivial
      · split
        · trivial
        · split <;> trivial
  | issuing client key =>
    cases hx
    rcases act_issue client key v with ⟨_, _, -, h⟩ | ⟨e, h⟩ <;> rw [h] <;> trivial
  | storing client filename content =>
    cases hx
    rw [act_store]
    dsimp only
    split <;> trivial
  | greeting | registered | receiving _ _ | judging _ _ _ _ | ended _ => cases hx

end Session

namespace Conversation

variable {c : Conversation}

theorem take_fits {turn : Session.Turn} (h : turn.phase.Fits) (c : Conversation) :
    (c.take turn).phase.Fits := by
  unfold take
  split
  · exact h
  · split
    · trivial
    · split
      · exact h
      · trivial

theorem step_fits (h : c.phase.Fits) (v : Vault) : (c.step v).1.phase.Fits := by
  rcases phase_cases c.phase with ⟨x, hx⟩ | hwaits | ⟨o, ho⟩
  · rw [(step_of_action hx).1]
    exact take_fits (Session.act_fits hx v) c
  · rw [(step_of_waits hwaits).1]
    unfold hear
    split
    · rename_i m incoming hdecode
      refine take_fits (Session.hear_fits h fun filename content hm => ?_) { c with incoming }
      exact ClientMessage.size_le_of_decode hdecode hm
    · trivial
  · rw [(step_of_ended ho).1]
    exact h

/-- By induction on how the conversation came about. -/
theorem UnderWay.fits (h : c.UnderWay) : c.phase.Fits := by
  induction h with
  | opened version incoming outgoing => trivial
  | heard incoming h ih => exact ih
  | stepped v h ih => exact step_fits ih v

end Conversation

/-! ## §2 Vaults -/

namespace Vault

open ClientDirectory

/-- The vault was just opened, and nothing is kept for any user. -/
structure Opened (R : Location) (v : Vault) : Prop where
  leads : v.files.Leads v.registry.root R
  vacant : ∀ user l, userAt R user <+: l → v.files.lookup l = none
  unlinked : Unlinked R v.files
  unlimited : v.files.sizeLimit = none
  unmet : v.registry.known = []
  clients : ∀ root, v.clients.root = some root → root = v.registry.root

/-- A vault that the two protocols lead to: from one that was just opened, by steps of sessions, by
connections of the backup protocol and by restarts, in any order.  The clients that are known, the
randomness and the time may be any. -/
inductive Grown : Vault → Prop where
  | opened {v : Vault} {R : Location} (h : Opened R v) : Grown v
  | session {v : Vault} {c : Conversation} (hc : c.UnderWay) (h : Grown v) : Grown (c.step v).2
  | backup {v : Vault} (version : UInt8) (label : String) (incoming : Reader) (outgoing : Sink)
      (h : Grown v) :
      Grown (v.withStorage (Backup.serve version label incoming outgoing v.storage).storage)
  | restarted {v : Vault} (h : Grown v) : Grown (after (restart v))
  | around {v : Vault} (records : List ClientRecord) (entropy : Entropy) (now : Timestamp)
      (h : Grown v) : Grown { v with clients := { v.clients with records }, entropy, now }

/-- No link is in the way, and what is kept for users fits into a payload. -/
structure Stocked (R : Location) (v : Vault) : Prop where
  tidy : Tidy R v
  fits : ∀ user filename content,
    v.files.lookup (fileAt R user (Bytes.ofText filename)) = some (.file content) →
      content.size ≤ maxPayload

section Stocked

variable {R : Location} {v v' : Vault}

theorem Opened.stocked (h : Opened R v) : Stocked R v where
  tidy :=
    { sound :=
        { plain :=
            { leads := h.leads
              users := fun user target hl => by
                cases (h.vacant user _ (List.prefix_refl _)).symm.trans hl
              files := fun user name target hl => by
                cases (h.vacant user _ (userAt_prefix_fileAt R user name)).symm.trans hl
              unlimited := h.unlimited }
          met := fun user hu => by
            rw [show v.storage.registry.known = [] from h.unmet] at hu
            cases hu
          once := by
            rw [show v.storage.registry.known = [] from h.unmet]
            exact .nil }
      unlinked := h.unlinked
      clients := h.clients }
  fits user filename content hl := by
    cases (h.vacant user _ (userAt_prefix_fileAt R user _)).symm.trans hl

theorem blank_opened : Opened [] blank where
  leads := leads_top _
  vacant user l hl := lookup_vacant fun heq => by
    rw [heq, List.prefix_nil] at hl
    exact userAt_ne_nil [] user hl
  unlinked l hl target hlink := by
    cases (lookup_vacant (isDocument_ne_nil hl)).symm.trans hlink
  unlimited := rfl
  unmet := rfl
  clients root hroot := by
    cases hroot
    rfl

/-- What the call stores, if it stores anything, fits into a payload. -/
def CallFits : Registry.Call → Prop
  | .store _ _ content => content.size ≤ maxPayload
  | _ => True

/-- A call that stores nothing too large leaves nothing too large behind. -/
theorem Stocked.call (h : Stocked R v) {c : Registry.Call} (hc : CallFits c)
    (hstorage : v'.storage = after (c.perform v.storage)) (hclients : v'.clients = v.clients) :
    Stocked R v' where
  tidy := h.tidy.call hstorage hclients
  fits user filename content hl := by
    have hfile :=
      congrArg (fun s => s.files.lookup (fileAt R user (Bytes.ofText filename))) hstorage
    have hold := h.fits user filename content
    by_cases hother : ∀ a, outcome (c.perform v.storage) = .ok a → ¬ c.changes user filename
    · rw [h.tidy.sound.lookup_file c user filename hother] at hfile
      exact hold (hfile.symm.trans hl)
    · push Not at hother
      obtain ⟨a, hok, hchanges⟩ := hother
      cases c with
      | store user' filename' content' =>
        obtain ⟨rfl, rfl⟩ := hchanges
        obtain ⟨hplain, -, -, hheld⟩ := h.tidy.sound.stored hok
        have hsound := (h.tidy.sound.perform_goes (.store user' filename' content')).sound
        have hthere := hfile.trans (hsound.lookup_held hplain hheld)
        cases hthere.symm.trans hl
        exact hc
      | delete user' filename' =>
        obtain ⟨rfl, rfl⟩ := hchanges
        have hgone := hfile.trans (h.tidy.sound.deleted hok)
        cases hgone.symm.trans hl
      | read user' filename' => exact absurd hchanges id
      | list user' => exact absurd hchanges id

/-- Paperwork does not touch what is kept for users. -/
theorem Stocked.filed (h : Stocked R v) (hfiled : Filed R v v') : Stocked R v' where
  tidy := hfiled.tidy
  fits user filename content hl := by
    rw [hfiled.files.changes.lookup
      fun hl => isDocument_outside hl ⟨user, .inr ⟨Bytes.ofText filename, rfl⟩⟩] at hl
    exact h.fits user filename content hl

theorem Stocked.step (h : Stocked R v) {c : Conversation} (hc : c.phase.Fits) :
    Stocked R (c.step v).2 := by
  rcases Conversation.phase_cases c.phase with ⟨x, hx⟩ | hwaits | ⟨o, ho⟩
  · rw [(Conversation.step_of_action hx).1]
    have hperform : ((Deed.session c.phase).perform v).2 = (Session.act x v).2 := by
      simp only [Deed.perform, hx]
    rw [← hperform]
    cases hcall : (Deed.session c.phase).call? with
    | none => exact h.filed (Deed.perform_filed h.tidy hcall)
    | some call =>
      obtain ⟨-, heffect⟩ := Deed.perform_call hcall
      refine h.call ?_ (heffect v).1 (heffect v).2
      cases hphase : c.phase with
      | storing client filename content =>
        rw [hphase] at hcall hc
        cases hcall
        exact hc
      | _ =>
        rw [hphase] at hcall
        cases hcall
  · rw [(Conversation.step_of_waits hwaits).1]
    exact h
  · rw [(Conversation.step_of_ended ho).1]
    exact h

theorem Stocked.serve (h : Stocked R v) (version : UInt8) (label : String) (incoming : Reader)
    (outgoing : Sink) :
    Stocked R (v.withStorage (Backup.serve version label incoming outgoing v.storage).storage) := by
  rw [Backup.storage_serve]
  cases hdecode : Request.decode version incoming with
  | ok request r =>
    rw [Backup.respond_of_decode hdecode, Backup.answer_eq]
    refine h.call (c := Backup.callOf request.user request.body) ?_ rfl rfl
    have hfits := (Backup.fits_of_decode hdecode).2
    cases hbody : request.body with
    | backup filename payload =>
      rw [hbody] at hfits
      exact hfits
    | restore filename => trivial
    | delete filename => trivial
    | list => trivial
  | error e r =>
    rw [Backup.respond_of_refused hdecode]
    exact h

/-- A restart that succeeds forgets what was met and reads the clients from their document; it
changes no file in any case. -/
theorem after_restart (h : v.files.Leads v.registry.root R) :
    after (restart v) = v ∨ ∃ d : ClientDirectory, d.root = v.clients.root ∧
      after (restart v) = { v with registry := { root := v.registry.root }, clients := d } := by
  have hcreate : Registry.create v.registry.root v.files =
      .ok { root := v.registry.root } v.files := bind_run_ok (orFail_ok (makeDirectories_leads h))
  have hreopen (x : EStateM StorageError FileTree ClientDirectory) :
      (do return (← Registry.create v.registry.root, ← x)) v.files =
        (x >>= fun d => pure (({ root := v.registry.root } : Registry), d)) v.files :=
    bind_run_ok hcreate
  unfold restart
  dsimp only
  rw [hreopen]
  unfold reopened
  cases hroot : v.clients.root with
  | none => exact .inr ⟨{}, rfl, rfl⟩
  | some root =>
    have hsame := openAt_inv root v.files
    cases hopen : openAt root v.files with
    | ok d t =>
      rw [hopen] at hsame
      obtain ⟨rfl, hd, -⟩ := hsame
      rw [bind_run_ok hopen]
      exact .inr ⟨d, hd, rfl⟩
    | error e t =>
      rw [hopen] at hsame
      obtain ⟨rfl, -⟩ := hsame
      rw [bind_run_error hopen]
      exact .inl rfl

theorem Stocked.restart (h : Stocked R v) : Stocked R (after (restart v)) := by
  rcases after_restart h.tidy.sound.plain.leads with hsame | ⟨d, hroot, hafter⟩
  · rwa [hsame]
  · rw [hafter]
    exact ⟨⟨⟨h.tidy.sound.plain, nofun, .nil⟩, h.tidy.unlinked, hroot ▸ h.tidy.clients⟩, h.fits⟩

end Stocked

/-- Whatever the two protocols lead to is stocked with what fits, by induction on the way there. -/
theorem Grown.stocked {v : Vault} (h : Grown v) : ∃ R, Stocked R v := by
  induction h with
  | opened h => exact ⟨_, h.stocked⟩
  | session hc h ih =>
    obtain ⟨R, hR⟩ := ih
    exact ⟨R, hR.step hc.fits⟩
  | backup version label incoming outgoing h ih =>
    obtain ⟨R, hR⟩ := ih
    exact ⟨R, hR.serve version label incoming outgoing⟩
  | restarted h ih =>
    obtain ⟨R, hR⟩ := ih
    exact ⟨R, hR.restart⟩
  | around records entropy now h ih =>
    obtain ⟨R, hR⟩ := ih
    exact ⟨R, ⟨hR.tidy.sound, hR.tidy.unlinked, hR.tidy.clients⟩, hR.fits⟩

end Vault

end BackupVault
