import BackupVault.Proofs.Storage.Calls
import BackupVault.Proofs.Upload.Vault
import BackupVault.Upload.Session

/-!
# Paperwork

The directory of clients writes to its document and to the draft of it, and to nothing else,
whatever stands in the way and whether it succeeds or not.  Whatever a session does with the vault,
except to store a file, is such paperwork, if it changes any file at all.

## Overview

- `ClientDirectory.Paperwork`: changes to the document and its draft
- `ClientDirectory.preserves_write`: writing the document
- `Vault.Tidy`: a vault without links below its root; `Vault.Filed`: what paperwork leaves
- `Vault.Tidy.act`: what a session does with a vault
-/

set_option autoImplicit false

namespace BackupVault

open FileTree Registry

namespace ClientDirectory

/-! ## §1 Trees -/

/-- The place of the document or of its draft. -/
def IsDocument (R l : Location) : Prop := l = draftAt R ∨ l = documentAt R

/-- No link stands in the place of the document or of its draft. -/
def Unlinked (R : Location) (t : FileTree) : Prop :=
  ∀ l, IsDocument R l → ∀ target, t.lookup l ≠ some (.link target)

/-- From the first tree to the second, only the document and its draft changed; there is still no
link in their places, and no directory went away. -/
structure Paperwork (R : Location) (t t' : FileTree) : Prop where
  keeps : t.Keeps t'
  changes : Changes (IsDocument R) t t'
  unlinked : Unlinked R t'

section Trees

variable {root : Path} {R l : Location} {t t' t₁ : FileTree} {name : String}

theorem Paperwork.refl (h : Unlinked R t) : Paperwork R t t := ⟨.refl t, .refl _ t, h⟩

theorem Paperwork.trans (h : Paperwork R t t₁) (h' : Paperwork R t₁ t') : Paperwork R t t' :=
  ⟨h.keeps.trans h'.keeps, h.changes.trans h'.changes, h'.unlinked⟩

theorem isDocument_ne_nil (h : IsDocument R l) : l ≠ [] := by
  rcases h with rfl | rfl
  · exact location_ne_nil R draftName
  · exact location_ne_nil R documentName

/-- The documents are not among the files of users, nor are they their directories. -/
theorem isDocument_outside (h : IsDocument R l) : ¬ InUsers R l := by
  have hR : ∀ user, R ≠ userAt R user := by
    intro user heq
    simpa [userAt] using congrArg List.length heq
  rcases h with rfl | rfl
  · exact Vault.document_outside hR (.inl rfl)
  · exact Vault.document_outside hR (.inr rfl)

/-- Where no directory stands in the place of a document, a file is put there or taken away. -/
theorem Paperwork.of_sets (h : Unlinked R t) (hl : IsDocument R l)
    (hold : t.lookup l ≠ some .directory) {e? : Option Entry}
    (he? : ∀ target, e? ≠ some (.link target)) (hsets : t.Sets l e? t')
    (hchanges : Changes (IsDocument R) t t') : Paperwork R t t' := by
  refine ⟨hsets.keeps fun old hl' => ?_, hchanges, ?_⟩
  · cases old with
    | file content => exact ⟨content, rfl⟩
    | directory => exact absurd hl' hold
    | link target => exact absurd hl' (h l hl target)
  · intro l' hl' target hlink
    by_cases heq : l' = l
    · rw [heq, hsets.self] at hlink
      exact he? target hlink
    · rw [hsets.others l' heq] at hlink
      exact h l' hl' target hlink

theorem Paperwork.insert (h : Unlinked R t) (hl : IsDocument R l)
    (hold : t.lookup l ≠ some .directory) {e : Entry} (he : ∀ target, e ≠ .link target) :
    Paperwork R t (t.insert l e) :=
  .of_sets h hl hold (fun target heq => he target (Option.some.inj heq))
    (sets_insert t (isDocument_ne_nil hl) e) (changes_insert t hl e)

theorem Paperwork.erase (h : Unlinked R t) (hl : IsDocument R l)
    (hold : t.lookup l ≠ some .directory) : Paperwork R t (t.erase l) :=
  .of_sets h hl hold (fun target heq => by cases heq) (sets_erase t (isDocument_ne_nil hl))
    (changes_erase t hl)

/-- The path of a document leads to its place, if it leads anywhere. -/
theorem place_of_resolve (h : t.Leads root R) (hunlinked : Unlinked R t)
    (hname : name = draftName ∨ name = documentName) {follow : Bool} {e? : Option Entry}
    (hresolve : t.resolve follow (root.join (Path.ofText name)) = .ok ⟨l, e?⟩) :
    l = R ++ [Bytes.ofText name] ∧ IsDocument R l ∧ t.lookup l = e? := by
  have hdocument : IsDocument R (R ++ [Bytes.ofText name]) := by
    rcases hname with rfl | rfl
    · exact .inl rfl
    · exact .inr rfl
  rw [h.resolve_child (extends_name h hname) (isStep_name hname) (hunlinked _ hdocument)]
    at hresolve
  split at hresolve
  · cases hresolve
    exact ⟨rfl, hdocument, rfl⟩
  · cases hresolve

theorem preserves_save (h : t.Leads root R) (b : Bytes) :
    Preserves (Paperwork R t) (FileTree.save (root.join (Path.ofText draftName)) b) := by
  intro t₁ h₁
  have hleads := h.keeps h₁.keeps
  have hend := (extends_name hleads (.inl rfl)).endsWithSeparator
  rcases after_save hend b t₁ with hsame | ⟨l, e?, content, hresolve, he?, hfile⟩
  · rwa [hsame]
  · obtain ⟨-, hdocument, hentry⟩ := place_of_resolve hleads h₁.unlinked (.inl rfl) hresolve
    rw [hfile]
    exact h₁.trans (.insert h₁.unlinked hdocument (hentry.symm ▸ he?) (by simp))

theorem preserves_move (h : t.Leads root R) :
    Preserves (Paperwork R t)
      (move (root.join (Path.ofText draftName)) (root.join (Path.ofText documentName))) := by
  intro t₁ h₁
  have hleads := h.keeps h₁.keeps
  rcases after_move (root.join (Path.ofText draftName)) (root.join (Path.ofText documentName)) t₁
    with hsame | ⟨l, e, l', e?, hresolve, he, hresolve', he?, hfile⟩
  · rwa [hsame]
  · obtain ⟨hl, hdraft, hentry⟩ := place_of_resolve hleads h₁.unlinked (.inl rfl) hresolve
    obtain ⟨hl', hdocument, hentry'⟩ := place_of_resolve hleads h₁.unlinked (.inr rfl) hresolve'
    have herased : Paperwork R t₁ (t₁.erase l) := by
      refine .erase h₁.unlinked hdraft ?_
      rw [hentry]
      exact fun heq => he (Option.some.inj heq)
    -- The draft went away; what stood in the place of the document still does.
    have hne : l' ≠ l := by
      rw [hl, hl']
      exact (draftAt_ne_documentAt R).symm
    have hold : (t₁.erase l).lookup l' ≠ some .directory := by
      rwa [lookup_erase_of_ne t₁ hne, hentry']
    have hlink : ∀ target, e ≠ .link target := by
      rintro target rfl
      exact h₁.unlinked _ hdraft target hentry
    rw [hfile]
    exact h₁.trans (herased.trans (.insert herased.unlinked hdocument hold hlink))

/-- Writing the document changes only the document and its draft, whether it succeeds or not. -/
theorem preserves_write (h : t.Leads root R) (d : ClientDirectory) :
    Preserves (Paperwork R t) (d.write root) :=
  (preserves_orFail (preserves_save h _)).bind fun _ => preserves_orFail (preserves_move h)

end Trees

end ClientDirectory

/-! ## §2 Vaults -/

namespace Vault

open ClientDirectory

/-- No link is in the way below the root, and the directory of clients, if it is on disk at all, is
on the same root. -/
structure Tidy (R : Location) (v : Vault) : Prop where
  sound : Registry.Sound R v.storage
  unlinked : Unlinked R v.files
  clients : ∀ root, v.clients.root = some root → root = v.registry.root

/-- From the first vault to the second only paperwork was done. -/
structure Filed (R : Location) (v v' : Vault) : Prop where
  tidy : Tidy R v'
  registry : v'.registry = v.registry
  files : Paperwork R v.files v'.files

section Filed

variable {R : Location} {v v' v₁ : Vault}

theorem Filed.refl (h : Tidy R v) : Filed R v v := ⟨h, rfl, .refl h.unlinked⟩

theorem Filed.trans (h : Filed R v v₁) (h' : Filed R v₁ v') : Filed R v v' :=
  ⟨h'.tidy, h'.registry.trans h.registry, h.files.trans h'.files⟩

/-- Paperwork is done outside of the directories of users. -/
theorem plain_of_paperwork {root : Path} {t t' : FileTree} (h : Plain root R t)
    (hfiles : Paperwork R t t') : Plain root R t' where
  leads := h.leads.keeps hfiles.keeps
  users user target := by
    rw [hfiles.changes.lookup fun hl => isDocument_outside hl ⟨user, .inl rfl⟩]
    exact h.users user target
  files user name target := by
    rw [hfiles.changes.lookup fun hl => isDocument_outside hl ⟨user, .inr ⟨name, rfl⟩⟩]
    exact h.files user name target
  unlimited := hfiles.changes.sizeLimit.trans h.unlimited

theorem Tidy.file (h : Tidy R v) {d : ClientDirectory} (hroot : d.root = v.clients.root)
    {t : FileTree} (hfiles : Paperwork R v.files t) :
    Filed R v { v with clients := d, files := t } where
  tidy :=
    { sound := (h.sound.goes_files (plain_of_paperwork h.sound.plain hfiles) hfiles.keeps).sound
      unlinked := hfiles.unlinked
      clients := hroot ▸ h.clients }
  registry := rfl
  files := hfiles

theorem after_enrolled {α : Type} (x : Enrolled α) (v : Vault) :
    after (enrolled x v) = v.withClientStore (after (x v.clientStore)) := by
  unfold enrolled
  cases x v.clientStore <;> rfl

/-- Whether a directory of clients is saved or not, it is paperwork. -/
theorem Tidy.save (h : Tidy R v) {d : ClientDirectory} (hroot : d.root = v.clients.root)
    {t : FileTree}
    (ht : (after (ClientDirectory.save .sound { directory := d, files := v.files })).files = t) :
    Paperwork R v.files t := by
  rw [← ht]
  cases hd : d.root with
  | none =>
    simp only [ClientDirectory.save, hd]
    exact .refl h.unlinked
  | some root =>
    have hleads : v.files.Leads root R := by
      rw [h.clients root (hroot ▸ hd)]
      exact h.sound.plain.leads
    have hfiles := preserves_write hleads d v.files (.refl h.unlinked)
    simp only [ClientDirectory.save, hd, Disk.write]
    cases hwrite : d.write root v.files with
    | ok _ t =>
      rw [hwrite] at hfiles
      exact hfiles
    | error e t =>
      rw [hwrite] at hfiles
      exact hfiles

theorem filed_draw {α : Type} (x : Entropy → α × Entropy) :
    Preserves (Filed R v) (draw x) := by
  intro w hw
  exact hw.trans ⟨⟨hw.tidy.sound, hw.tidy.unlinked, hw.tidy.clients⟩, rfl, .refl hw.tidy.unlinked⟩

/-- Looking something up is no paperwork. -/
theorem filed_get : Preserves (Filed R v) (get : Vaulted Vault) := fun _ hw => hw

theorem filed_registerClient (name : String) (drawn : List ClientId) (now : Timestamp) :
    Preserves (Filed R v) (enrolled (ClientDirectory.register .sound name drawn now)) := by
  intro w hw
  refine hw.trans ?_
  rw [after_enrolled]
  rcases register_cases .sound name drawn now w.clientStore with
    ⟨hrun, -⟩ | ⟨id, r, files, -, -, -, hsaved⟩
  · rw [hrun]
    exact (.refl hw.tidy : Filed R w w)
  · -- The new record is saved, or taken back.
    have hfiles {t : FileTree} := hw.tidy.save (d := w.clients.insert r) (t := t) rfl
    rcases hsaved with ⟨hsave, hrun⟩ | ⟨e, hsave, hrun⟩
    · rw [hrun]
      exact hw.tidy.file (d := w.clients.insert r) rfl (hfiles (congrArg (after · |>.files) hsave))
    · rw [hrun]
      exact hw.tidy.file (d := (w.clients.insert r).erase id) rfl
        (hfiles (congrArg (after · |>.files) hsave))

theorem filed_setClientKeys (id : ClientId) (publicKey : PublicKey) (key : SessionKey)
    (now : Timestamp) :
    Preserves (Filed R v) (enrolled (ClientDirectory.setKeys .sound id publicKey key now)) := by
  intro w hw
  refine hw.trans ?_
  rw [after_enrolled]
  rcases setKeys_cases .sound id publicKey key now w.clientStore with
    ⟨-, hrun⟩ | ⟨r, files, -, hsaved⟩
  · rw [hrun]
    exact (.refl hw.tidy : Filed R w w)
  · have hfiles {t : FileTree} :=
      hw.tidy.save (d := w.clients.insert (withKeys r publicKey key now)) (t := t) rfl
    rcases hsaved with ⟨hsave, hrun⟩ | ⟨e, hsave, hrun⟩
    · rw [hrun]
      exact hw.tidy.file (d := w.clients.insert _) rfl (hfiles (congrArg (after · |>.files) hsave))
    · rw [hrun]
      exact hw.tidy.file (d := w.clients.insert _) rfl (hfiles (congrArg (after · |>.files) hsave))

theorem filed_candidates (draws : Nat) : Preserves (Filed R v) (candidates draws) := by
  intro w hw
  obtain ⟨drawn, e, hdraw, -⟩ := candidates_eq draws w
  rw [hdraw]
  exact hw.trans ⟨⟨hw.tidy.sound, hw.tidy.unlinked, hw.tidy.clients⟩, rfl, .refl hw.tidy.unlinked⟩

theorem filed_register (name : String) : Preserves (Filed R v) (Vault.register name) :=
  (filed_candidates _).bind fun _ => filed_get.bind fun _ => filed_registerClient name _ _

theorem filed_setKeys (id : ClientId) (publicKey : PublicKey) (key : SessionKey) :
    Preserves (Filed R v) (Vault.setKeys id publicKey key) := by
  refine filed_get.bind fun w => (filed_setClientKeys id publicKey key w.now).bind fun found => ?_
  cases found with
  | true => exact Preserves.pure _
  | false => exact Preserves.throw _

/-- Whatever a session does with a vault, except to store a file, is paperwork. -/
theorem Tidy.act (h : Tidy R v) {phase : Session.Phase} {x : Vaulted Session.Turn}
    (hx : Session.action? phase = some x)
    (hstoring : ∀ client filename content, phase ≠ .storing client filename content) :
    Filed R v (Session.act x v).2 := by
  rw [act_snd]
  suffices hfiled : Preserves (Filed R v) x from hfiled v (.refl h)
  cases phase with
  | registering name =>
    cases hx
    refine (filed_register name).bind fun id? => ?_
    split <;> exact Preserves.pure _
  | identifying client name key =>
    cases hx
    intro w hw
    rw [← act_snd, Session.act_identify]
    exact hw
  | issuing client key =>
    cases hx
    refine (filed_draw _).bind fun key => (filed_draw _).bind fun encrypted => ?_
    split
    · exact Preserves.throw _
    · exact (filed_setKeys _ _ _).bind fun _ => Preserves.pure _
  | storing client filename content => exact absurd rfl (hstoring client filename content)
  | greeting | registered | receiving _ _ | judging _ _ _ _ | ended _ => cases hx

end Filed

end Vault

end BackupVault
