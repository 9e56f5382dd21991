import BackupVault.Backup.Connection
import BackupVault.Proofs.Storage.Registry
import BackupVault.Proofs.Upload.ClientDirectory
import BackupVault.Proofs.Upload.SessionLog

/-!
# Vaults that stay sound

A vault is sound if its registry has its layout and the document of its client directory can be
written.  Whatever uploading clients and the clients of the backup protocol make a server do, in
any order, a sound vault stays sound; in a sound vault nothing that is to be saved or stored fails
for want of a place.

## Overview

- `Vault.Sound`: the invariant
- `Vault.Sound.save`, `register`, `setKeys`, `store`: the operations succeed
- `Vault.Reachable`: what the two protocols make of a vault; `Vault.Reachable.sound`
-/

set_option autoImplicit false

namespace BackupVault.Vault

open Registry ClientDirectory

/-! ## §1 Soundness -/

/-- The registry has its layout, below where its root leads; the document of the client directory
has its place, which is not in the directory of a user. -/
structure Sound (R : Location) (v : Vault) : Prop where
  layout : Layout v.registry.root R v.files
  desk : ∀ root, v.clients.root = some root →
    ∃ D, Desk root D v.files ∧ ∀ user, D ≠ userAt R user

/-- The files of all users are the same in both trees. -/
def SameFiles (R : Location) (t t' : FileTree) : Prop :=
  ∀ user name, t'.lookup (fileAt R user name) = t.lookup (fileAt R user name)

variable {R : Location} {v : Vault}

/-- The place of a document is neither that of a user's directory nor that of a file. -/
theorem document_outside {D : Location} (hD : ∀ user, D ≠ userAt R user) {name : String}
    (hname : name = draftName ∨ name = documentName) : ¬ InUsers R (D ++ [Bytes.ofText name]) := by
  rintro ⟨user, heq | ⟨file, heq⟩⟩
  · have hlast := List.append_inj_right' heq rfl
    injection hlast with hbytes
    -- The names of documents have letters, and those of users' directories have none.
    have hletter : ∃ c ∈ name.toList, c.isDigit = false := by
      rcases hname with rfl | rfl <;> exact ⟨'c', by decide, by decide⟩
    obtain ⟨c, hc, hdigit⟩ := hletter
    exact number_ne hc hdigit user hbytes.symm
  · exact hD user (List.append_inj_left' heq rfl)

/-- A desk outside the directories of users is not touched by what changes in them. -/
theorem desk_stays {root : Path} {D : Location} {t t' : FileTree} (h : Desk root D t)
    (hD : ∀ user, D ≠ userAt R user) (hstays : Stays R t t') (hlimit : t'.sizeLimit = none) :
    Desk root D t' where
  leads := h.leads.keeps hstays.keeps
  room := h.room
  unlimited := hlimit
  documents name hname e he := by
    rw [hstays.others _ (document_outside hD hname)] at he
    exact h.documents name hname e he

/-- What an operation of the registry makes of a sound vault. -/
theorem Sound.withStorage {s : Storage} (h : v.Sound R) (hs : Kept R v.storage s) :
    (v.withStorage s).Sound R where
  layout := hs.layout
  desk root hroot := by
    obtain ⟨D, hdesk, hD⟩ := h.desk root hroot
    exact ⟨D, desk_stays hdesk hD hs.stays hs.layout.unlimited, hD⟩

/-! ## §2 Saving -/

/-- The layout is not touched by a change to documents outside of it. -/
theorem layout_of_outside {root : Path} {t t' : FileTree} (h : Layout root R t)
    (hkeeps : t.Keeps t') (hlimit : t'.sizeLimit = none)
    (hsame : ∀ l, InUsers R l → t'.lookup l = t.lookup l) : Layout root R t' where
  leads := h.leads.keeps hkeeps
  room := h.room
  unlimited := hlimit
  users user e he := by
    rw [hsame _ ⟨user, .inl rfl⟩] at he
    exact h.users user e he
  files user name e he := by
    rw [hsame _ ⟨user, .inr ⟨name, rfl⟩⟩] at he
    rw [hsame _ ⟨user, .inl rfl⟩]
    exact h.files user name e he

/-- A changed directory of clients is saved, if it is to be. -/
theorem Sound.save (h : v.Sound R) {d : ClientDirectory} (hroot : d.root = v.clients.root) :
    ∃ t', ClientDirectory.save .sound { directory := d, files := v.files } =
        .ok () { directory := d, files := t' } ∧
      Sound R { v with clients := d, files := t' } ∧ SameFiles R v.files t' := by
  -- A directory without a root is kept in memory only.
  cases hd : d.root with
  | none =>
    refine ⟨v.files, ?_, ⟨h.layout, fun root hr => ?_⟩, fun _ _ => rfl⟩
    · simp only [ClientDirectory.save, hd]
    · rw [hd] at hr
      cases hr
  | some root =>
    obtain ⟨D, hdesk, hD⟩ := h.desk root (hroot ▸ hd)
    obtain ⟨t', hwrite, hdesk', hkeeps, hothers⟩ := hdesk.write d
    -- What was written lies outside of the directories of users.
    have hsame : ∀ l, InUsers R l → t'.lookup l = v.files.lookup l := by
      intro l hl
      refine hothers l fun name hname heq => ?_
      exact document_outside hD hname (heq ▸ hl)
    refine ⟨t', ?_, ⟨?_, fun root' hr => ?_⟩, fun user name => hsame _ ⟨user, .inr ⟨name, rfl⟩⟩⟩
    · simp only [ClientDirectory.save, hd, Disk.write, hwrite]
    · exact layout_of_outside h.layout hkeeps hdesk'.unlimited hsame
    · rw [hd] at hr
      cases hr
      exact ⟨D, hdesk', hD⟩

/-! ## §3 Clients -/

/-- An operation on the directory of clients that succeeds. -/
theorem enrolled_ok {α : Type} {x : Enrolled α} {w : Vault} {a : α} {s : ClientStore}
    (h : x w.clientStore = .ok a s) : enrolled x w = .ok a (w.withClientStore s) := by
  simp only [enrolled, h]

/-- Drawing identities uses up randomness, and with room for a client one of them is free. -/
theorem candidates_eq (draws : Nat) (v : Vault) :
    ∃ drawn e, candidates draws v = .ok drawn { v with entropy := e } ∧
      (v.clients.HasRoom → ∃ id ∈ drawn, v.clients.isFree id = true) := by
  induction draws generalizing v with
  | zero =>
    obtain ⟨id, e, hdraw⟩ :
        ∃ id e, drawId v = .ok id { v with entropy := e } := ⟨_, _, rfl⟩
    refine ⟨_, e, ?_, fun hroom => exists_isFree hroom id⟩
    unfold candidates
    rw [bind_run_ok hdraw]
    rfl
  | succ draws ih =>
    obtain ⟨id, e, hdraw⟩ :
        ∃ id e, drawId v = .ok id { v with entropy := e } := ⟨_, _, rfl⟩
    have hget : (get : Vaulted Vault) { v with entropy := e } =
        .ok { v with entropy := e } { v with entropy := e } := rfl
    unfold candidates
    rw [bind_run_ok hdraw, bind_run_ok hget]
    by_cases hfree : v.clients.isFree id = true
    · refine ⟨[id], e, by simp only [hfree, ↓reduceIte]; rfl, fun _ => ⟨id, ?_, hfree⟩⟩
      exact List.mem_singleton_self id
    · -- The draws go on, from the same clients.
      obtain ⟨drawn, e', hdrawn, hsome⟩ := ih { v with entropy := e }
      refine ⟨id :: drawn, e', ?_, fun hroom => ?_⟩
      · simp only [hfree, Bool.false_eq_true, ↓reduceIte]
        exact bind_run_ok hdrawn
      · obtain ⟨id', hid', hfree'⟩ := hsome hroom
        exact ⟨id', List.mem_cons_of_mem _ hid', hfree'⟩

/-- Registration: a sound vault stays sound, the files of users stay as they are, and there is an
identity for a new name as long as there is room. -/
theorem Sound.register (h : v.Sound R) (name : String) :
    ∃ id? v', Vault.register name v = .ok id? v' ∧ v'.Sound R ∧ SameFiles R v.files v'.files ∧
      v'.registry = v.registry ∧
      (∀ id, id? = some id → ∃ r, v'.clients.find? id = some r ∧ r.name = name) ∧
      (name ≠ "" → v.clients.hasName name = false → v.clients.HasRoom → ∃ id, id? = some id) := by
  obtain ⟨drawn, e, hdraw, hsome⟩ := candidates_eq maxDraws v
  have hget : (get : Vaulted Vault) { v with entropy := e } =
      .ok { v with entropy := e } { v with entropy := e } := rfl
  -- Drawing identities leaves the files and the clients alone.
  have hv : Sound R { v with entropy := e } := ⟨h.layout, h.desk⟩
  have hregister : Vault.register name v =
      enrolled (ClientDirectory.register .sound name drawn v.now) { v with entropy := e } := by
    unfold Vault.register
    rw [bind_run_ok hdraw, bind_run_ok hget]
  rw [hregister]
  rcases register_cases .sound name drawn v.now v.clientStore with
    ⟨hrun, hnone⟩ | ⟨id, r, files, -, -, hr, hsaved⟩
  · refine ⟨none, _, enrolled_ok hrun, hv, fun _ _ => rfl, rfl, nofun, fun hne hnew hroom => ?_⟩
    -- With room there is none only for a name that is empty or taken.
    obtain ⟨id, hid, hfree⟩ := hsome hroom
    exact absurd hfree (List.find?_eq_none.mp (hnone hne hnew) id hid)
  · -- The new record is saved, and found from then on.
    obtain ⟨t', hsave, hsound, hsame⟩ := hv.save (d := v.clients.insert r) rfl
    rcases hsaved with ⟨hsaved, hrun⟩ | ⟨e', hfailed, -⟩
    · cases hsave.symm.trans hsaved
      refine ⟨some id, _, enrolled_ok hrun, hsound, hsame, rfl, ?_, fun _ _ _ => ⟨id, rfl⟩⟩
      rintro id' ⟨⟩
      rw [hr]
      exact ⟨_, find_insert v.clients _, rfl⟩
    · cases hsave.symm.trans hfailed

theorem Sound.setKeys (h : v.Sound R) {id : ClientId} {r : ClientRecord}
    (hr : v.clients.find? id = some r) (publicKey : PublicKey) (key : SessionKey) :
    ∃ v', Vault.setKeys id publicKey key v = .ok () v' ∧ v'.Sound R ∧
      SameFiles R v.files v'.files ∧ v'.registry = v.registry := by
  obtain ⟨t', hsave, hsound, hsame⟩ :=
    h.save (d := v.clients.insert (withKeys r publicKey key v.now)) rfl
  have hget : (get : Vaulted Vault) v = .ok v v := rfl
  have hset : ClientDirectory.setKeys .sound id publicKey key v.now v.clientStore =
      .ok true { directory := v.clients.insert (withKeys r publicKey key v.now), files := t' } := by
    simp only [ClientDirectory.setKeys, clientStore, hr, hsave]
  refine ⟨_, ?_, hsound, hsame, rfl⟩
  unfold Vault.setKeys
  rw [bind_run_ok hget, bind_run_ok (enrolled_ok hset)]
  rfl

/-! ## §4 Files -/

/-- The file is kept for the user, with this content. -/
def Stored (v : Vault) (user : UserId) (filename : String) (content : Bytes) : Prop :=
  ∃ s, Registry.read user filename v.storage = .ok content s

/-- In a sound vault a file that is kept is in its place. -/
theorem Sound.file_of_stored (h : v.Sound R) {user : UserId} {filename : String} {content : Bytes}
    (hstored : v.Stored user filename content) :
    v.files.lookup (fileAt R user (Bytes.ofText filename)) = some (.file content) := by
  obtain ⟨s, hread⟩ := hstored
  exact file_of_read (s := v.storage) h.layout hread

/-- In a sound vault a file is kept if it is in its place. -/
theorem Sound.stored (h : v.Sound R) {user : UserId} {filename : String}
    (hplain : isPlainFilename filename = true)
    (hsize : (Bytes.ofText filename).size ≤ FileTree.maxSegment) {content : Bytes}
    (hfile : v.files.lookup (fileAt R user (Bytes.ofText filename)) = some (.file content)) :
    v.Stored user filename content :=
  read_file (s := v.storage) h.layout hplain hsize hfile

/-- Where no file is kept, its place is empty. -/
theorem Sound.lookup_of_not_stored (h : v.Sound R) {user : UserId} {filename : String}
    (hplain : isPlainFilename filename = true)
    (hsize : (Bytes.ofText filename).size ≤ FileTree.maxSegment)
    (hnew : ∀ content, ¬ v.Stored user filename content) :
    v.files.lookup (fileAt R user (Bytes.ofText filename)) = none := by
  cases hl : v.files.lookup (fileAt R user (Bytes.ofText filename)) with
  | none => rfl
  | some e =>
    obtain ⟨-, content, rfl⟩ := h.layout.files user _ e hl
    exact absurd (h.stored hplain hsize hl) (hnew content)

/-- A new file is stored, and kept from then on. -/
theorem Sound.store (h : v.Sound R) {id : ClientId} {filename : String}
    (hplain : isPlainFilename filename = true)
    (hsize : (Bytes.ofText filename).size ≤ FileTree.maxSegment)
    (hnew : v.files.lookup (fileAt R id.storageId (Bytes.ofText filename)) = none)
    (content : Bytes) :
    ∃ target v', Vault.store id filename content v = .ok target v' ∧
      v'.Stored id.storageId filename content := by
  obtain ⟨target, s, hstore, hlayout, hfile⟩ :=
    store_new (s := v.storage) h.layout hplain hsize hnew content
  refine ⟨target, v.withStorage s, ?_, ?_⟩
  · simp only [Vault.store, registered, hstore]
  · exact read_file (s := (v.withStorage s).storage) hlayout hplain hsize hfile

/-! ## §5 What the protocols make of a vault -/

theorem preserves_draw {α : Type} (x : Entropy → α × Entropy) :
    Preserves (Sound R) (draw x) := fun _ h => ⟨h.layout, h.desk⟩

theorem preserves_register (name : String) : Preserves (Sound R) (Vault.register name) := by
  intro v h
  obtain ⟨id?, v', hrun, hsound, -⟩ := h.register name
  rw [hrun]
  exact hsound

theorem preserves_setKeys (id : ClientId) (publicKey : PublicKey) (key : SessionKey) :
    Preserves (Sound R) (Vault.setKeys id publicKey key) := by
  intro v h
  -- Without a record nothing is saved.
  cases hr : v.clients.find? id with
  | none =>
    have hset : ClientDirectory.setKeys .sound id publicKey key v.now v.clientStore =
        .ok false v.clientStore := by
      simp only [ClientDirectory.setKeys, clientStore, hr]
    have hget : (get : Vaulted Vault) v = .ok v v := rfl
    unfold Vault.setKeys
    rw [bind_run_ok hget, bind_run_ok (enrolled_ok hset)]
    exact h
  | some r =>
    obtain ⟨v', hrun, hsound, -⟩ := h.setKeys hr publicKey key
    rw [hrun]
    exact hsound

theorem preserves_store (id : ClientId) (filename : String) (content : Bytes) :
    Preserves (Sound R) (Vault.store id filename content) := by
  intro v h
  have hkept := kept_store id.storageId filename content v.storage (Kept.refl h.layout)
  unfold Vault.store registered
  cases hrun : Registry.store id.storageId filename content v.storage with
  | ok path s =>
    rw [hrun] at hkept
    exact h.withStorage hkept
  | error e s =>
    rw [hrun] at hkept
    exact h.withStorage hkept

theorem act_snd (x : Vaulted Session.Turn) (v : Vault) : (Session.act x v).2 = after (x v) := by
  unfold Session.act
  cases x v <;> rfl

/-- Whatever a session does with a sound vault, it stays sound. -/
theorem preserves_action {phase : Session.Phase} {x : Vaulted Session.Turn}
    (h : Session.action? phase = some x) : Preserves (Sound R) x := by
  -- Each phase with something to do is a chain of operations that keep the vault sound.
  cases phase with
  | registering name =>
    cases h
    refine (preserves_register name).bind fun id? => ?_
    split <;> exact Preserves.pure _
  | identifying client name key =>
    cases h
    intro v hv
    rw [← act_snd, Session.act_identify]
    exact hv
  | issuing client key =>
    cases h
    refine (preserves_draw _).bind fun key => (preserves_draw _).bind fun encrypted => ?_
    split
    · exact Preserves.throw _
    · exact (preserves_setKeys _ _ _).bind fun _ => Preserves.pure _
  | storing client filename content =>
    cases h
    exact (preserves_store _ _ _).bind fun _ => Preserves.pure _
  | greeting | registered | receiving _ _ | judging _ _ _ _ | ended _ => cases h

theorem Sound.step (h : v.Sound R) (c : Conversation) : (c.step v).2.Sound R := by
  -- Only a phase with something to do touches the vault.
  rcases Conversation.phase_cases c.phase with ⟨x, hx⟩ | hwaits | ⟨o, ho⟩
  · rw [(Conversation.step_of_action hx).1, act_snd]
    exact preserves_action hx v h
  · rw [(Conversation.step_of_waits hwaits).1]
    exact h
  · rw [(Conversation.step_of_ended ho).1]
    exact h

/-- Whatever a client of the backup protocol sends, a sound vault stays sound. -/
theorem Sound.serve (h : v.Sound R) (version : UInt8) (label : String) (incoming : Reader)
    (outgoing : Sink) :
    (v.withStorage (Backup.serve version label incoming outgoing v.storage).storage).Sound R := by
  apply h.withStorage
  -- Every operation of the registry keeps its layout and touches only users' directories.
  have hperform (user : UserId) (body : RequestBody) :
      Preserves (Kept R v.storage) (Backup.perform label user body) := by
    cases body with
    | backup filename payload =>
      exact (kept_store user filename payload).bind fun _ => Preserves.pure _
    | restore filename => exact (kept_read user filename).bind fun _ => Preserves.pure _
    | delete filename => exact (kept_delete user filename).bind fun _ => Preserves.pure _
    | list => exact (kept_list user).bind fun _ => Preserves.pure _
  have hanswer (request : Request) :
      Kept R v.storage (Backup.answer version label request v.storage).2 := by
    have hafter := hperform request.user request.body v.storage (Kept.refl h.layout)
    unfold Backup.answer
    cases hrun : Backup.perform label request.user request.body v.storage with
    | ok body s =>
      rw [hrun] at hafter
      exact hafter
    | error e s =>
      rw [hrun] at hafter
      exact hafter
  -- What is no request does nothing.
  have hrespond : Kept R v.storage (Backup.respond version label incoming v.storage).2 := by
    unfold Backup.respond
    split
    · exact hanswer _
    · exact Kept.refl h.layout
  rcases hr : Backup.respond version label incoming v.storage with ⟨response, storage⟩
  rw [hr] at hrespond
  simp only [Backup.serve, hr]
  split <;> exact hrespond

/-- A vault that the two protocols lead to: from one whose registry was just opened, by steps of
any sessions and by connections of the backup protocol, in any order.  The clients that are known,
the randomness and the time may be any. -/
inductive Reachable : Vault → Prop where
  | opened {v : Vault} {R : Location} (hsound : v.Sound R) (hknown : v.registry.known = []) :
      Reachable v
  | session {v : Vault} (c : Conversation) (h : Reachable v) : Reachable (c.step v).2
  | backup {v : Vault} (version : UInt8) (label : String) (incoming : Reader) (outgoing : Sink)
      (h : Reachable v) :
      Reachable (v.withStorage (Backup.serve version label incoming outgoing v.storage).storage)
  | around {v : Vault} (records : List ClientRecord) (entropy : Entropy) (now : Timestamp)
      (h : Reachable v) : Reachable { v with clients := { v.clients with records }, entropy, now }

/-- What the two protocols lead to is sound, by induction on the way there. -/
theorem Reachable.sound (h : Reachable v) : ∃ R, v.Sound R := by
  induction h with
  | opened hsound hknown => exact ⟨_, hsound⟩
  | session c h ih =>
    obtain ⟨R, hR⟩ := ih
    exact ⟨R, hR.step c⟩
  | backup version label incoming outgoing h ih =>
    obtain ⟨R, hR⟩ := ih
    exact ⟨R, hR.serve version label incoming outgoing⟩
  | around records entropy now h ih =>
    obtain ⟨R, hR⟩ := ih
    exact ⟨R, hR.layout, hR.desk⟩

end BackupVault.Vault
