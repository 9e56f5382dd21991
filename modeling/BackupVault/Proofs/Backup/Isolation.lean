import BackupVault.Proofs.Backup.Answer
import BackupVault.Proofs.Storage.Isolation
import BackupVault.Proofs.Upload.Paperwork
import BackupVault.Proofs.Upload.Uploaded

/-!
# Users are isolated

Requests of the backup protocol and steps of sessions with uploading clients come in any order, on
one vault.  A request is done for the user that it names, and an upload for the number of its
client.  What a user is answered, and what is kept for the user, is as if nobody else had done
anything; and what is done for a user stays in the directory of this user.

## Overview

- `Vault.Deed`: what is done with a vault, and for whom
- `Vault.Deed.perform_call`: what is done for a user is a call on the registry
- `Vault.run_alike`: what others do makes no difference
- `Vault.users_isolated`: the whole of it
-/

set_option autoImplicit false

namespace BackupVault

open FileTree Registry
open ClientDirectory (IsDocument isDocument_outside draftAt documentAt)

namespace Vault

/-! ## §1 Deeds -/

/-- What is done with a vault at a time. -/
inductive Deed where
  /-- A request of the backup protocol is answered. -/
  | request (version : UInt8) (r : Request)
  /-- A session in this phase does what there is to do. -/
  | session (phase : Session.Phase)

/-- What comes of it for whoever asked. -/
inductive Reply where
  | response (r : Response)
  | turn (t : Session.Turn)

namespace Reply

def unlabelled : Reply → Reply
  | response r => response { r with body := r.body.unlabelled }
  | turn t => turn t

end Reply

namespace Deed

def perform (v : Vault) : Deed → Reply × Vault
  | request version r =>
    let (label, entropy) := Backup.label v.entropy
    let (response, storage) := Backup.answer version label r v.storage
    (.response response, { v.withStorage storage with entropy })
  | session phase =>
    match Session.action? phase with
    | some x =>
      let (turn, v) := Session.act x v
      (.turn turn, v)
    | none => (.turn { phase }, v)

/-- The call that it leads to, if it is done for a user. -/
def call? : Deed → Option Call
  | request _ r => some (Backup.callOf r.user r.body)
  | session (.storing client filename content) => some (.store client.storageId filename content)
  | session _ => none

/-- It is done for this user. -/
def isFor (user : UserId) (d : Deed) : Bool := d.call?.map Call.user == some user

/-- The places that it may touch: for a user, those of the directory of the user and of the file
that it names, right in this directory; otherwise, the document of the clients and its draft. -/
def Touches (R : Location) (d : Deed) (l : Location) : Prop :=
  match d.call? with
  | some c => ∃ filename, c.filename? = some filename ∧ Touched R c.user filename l
  | none => IsDocument R l

end Deed

/-- What is left of a vault after one deed after another. -/
def run (v : Vault) (deeds : List Deed) : Vault := deeds.foldl (fun v d => (d.perform v).2) v

/-- What the user is told in the course of the deeds, labels aside. -/
def toldTo (user : UserId) (v : Vault) : List Deed → List Reply
  | [] => []
  | d :: deeds =>
    if d.isFor user then (d.perform v).1.unlabelled :: toldTo user (d.perform v).2 deeds
    else toldTo user (d.perform v).2 deeds

/-- What the client is told when this came of storing its upload. -/
def uploadTurn : Told → Session.Turn
  | .ok _ => { phase := .ended (.ok ()), reply := some .success }
  | .error e => .fail (.storage e)

section Deeds

variable {R : Location} {v v' : Vault} {d : Deed} {user : UserId}

/-- What is done for a user is a call on the registry; the reply, its label aside, is told by what
came of the call, and nothing changes but what the call changes. -/
theorem Deed.perform_call {c : Call} (h : d.call? = some c) :
    (∃ reply : Told → Reply,
      ∀ v, (d.perform v).1.unlabelled = reply (outcome (c.perform v.storage))) ∧
      ∀ v, (d.perform v).2.storage = after (c.perform v.storage) ∧
        (d.perform v).2.clients = v.clients := by
  cases d with
  | request version r =>
    cases h
    refine ⟨⟨fun told => .response { version, body := (Backup.bodyFor "" r.body told).unlabelled },
      fun v => ?_⟩, fun v => ?_⟩
    · simp only [perform, Backup.answer_eq, Reply.unlabelled]
      rw [ResponseBody.unlabelled_bodyFor _ ""]
    · simp only [perform, Backup.answer_eq]
      exact ⟨rfl, rfl⟩
  | session phase =>
    cases phase with
    | storing client filename content =>
      cases h
      refine ⟨⟨fun told => .turn (uploadTurn told), fun v => ?_⟩, fun v => ?_⟩
      · simp only [perform, Session.action?, Session.act_store, Session.storing, Call.perform]
        cases hstore : Registry.store client.storageId filename content v.storage with
        | ok path s => rw [bind_run_ok hstore]; rfl
        | error e s => rw [bind_run_error hstore]; rfl
      · simp only [perform, Session.action?, Session.act_store, Session.storing, Call.perform]
        cases hstore : Registry.store client.storageId filename content v.storage with
        | ok path s => rw [bind_run_ok hstore]; exact ⟨rfl, rfl⟩
        | error e s => rw [bind_run_error hstore]; exact ⟨rfl, rfl⟩
    | _ => cases h

/-- What is not done for a user is paperwork, if anything. -/
theorem Deed.perform_filed (h : Tidy R v) (hnone : d.call? = none) :
    Filed R v (d.perform v).2 := by
  cases d with
  | request version r => cases hnone
  | session phase =>
    cases hx : Session.action? phase with
    | none =>
      simp only [perform, hx]
      exact .refl h
    | some x =>
      simp only [perform, hx]
      refine h.act hx ?_
      rintro client filename content rfl
      cases hnone

theorem Deed.isFor_iff : d.isFor user = true ↔ ∃ c, d.call? = some c ∧ c.user = user := by
  rw [isFor, beq_iff_eq, Option.map_eq_some_iff]

/-! ## §2 One deed -/

/-- A document lies beside the directories of users, not below them. -/
theorem not_prefix_of_isDocument {l : Location} (hl : IsDocument R l) : ¬ userAt R user <+: l := by
  intro hprefix
  have hlength : (userAt R user).length = l.length := by
    rcases hl with rfl | rfl <;> simp [userAt, draftAt, documentAt]
  have hat : userAt R user = l := hprefix.eq_of_length hlength
  exact isDocument_outside hl ⟨user, .inl hat.symm⟩

/-- A call touches what it may touch. -/
theorem touches_of_call {c : Call} (h : d.call? = some c) {l : Location}
    (hl : Touched R c.user (c.filename?.getD "") l) : d.Touches R l := by
  unfold Deed.Touches
  rw [h]
  cases hfilename : c.filename? with
  | none =>
    -- The empty name is not plain.
    rw [hfilename] at hl
    exact absurd hl.1 (by decide)
  | some filename =>
    rw [hfilename] at hl
    exact ⟨filename, hfilename, hl⟩

/-- What is done for a user does not touch the documents. -/
theorem not_touches_document {c : Call} (h : d.call? = some c) {l : Location}
    (hl : IsDocument R l) : ¬ d.Touches R l := by
  unfold Deed.Touches
  rw [h]
  rintro ⟨filename, -, -, hat | hat⟩
  · exact isDocument_outside hl ⟨_, .inl hat⟩
  · exact isDocument_outside hl ⟨_, .inr ⟨_, hat⟩⟩

/-- A call leaves no link behind. -/
theorem Tidy.call (h : Tidy R v) {c : Call} (hstorage : v'.storage = after (c.perform v.storage))
    (hclients : v'.clients = v.clients) : Tidy R v' := by
  have hgoes := h.sound.perform_goes c
  have hwithin := h.sound.perform_within c
  rw [← hstorage] at hgoes hwithin
  refine ⟨hgoes.sound, fun l hl => ?_, ?_⟩
  · have houtside : ¬ Touched R c.user (c.filename?.getD "") l := by
      rintro ⟨-, hat | hat⟩
      · exact isDocument_outside hl ⟨_, .inl hat⟩
      · exact isDocument_outside hl ⟨_, .inr ⟨_, hat⟩⟩
    change ∀ target, v'.storage.files.lookup l ≠ some (.link target)
    rw [hwithin.changes.lookup houtside]
    exact h.unlinked l hl
  · rw [hclients]
    intro root hroot
    exact (h.clients root hroot).trans hgoes.root.symm

/-- A deed leaves no link behind, and touches only what it may touch. -/
theorem Tidy.perform (h : Tidy R v) (d : Deed) :
    Tidy R (d.perform v).2 ∧ (d.perform v).2.registry.root = v.registry.root ∧
      Changes (d.Touches R) v.files (d.perform v).2.files := by
  cases hcall : d.call? with
  | none =>
    have hfiled := Deed.perform_filed h hcall
    refine ⟨hfiled.tidy, congrArg Registry.root hfiled.registry, ?_⟩
    refine hfiled.files.changes.mono fun l hl => ?_
    unfold Deed.Touches
    rw [hcall]
    exact hl
  | some c =>
    obtain ⟨-, hperform⟩ := Deed.perform_call hcall
    obtain ⟨hstorage, hclients⟩ := hperform v
    have hgoes := h.sound.perform_goes c
    have hwithin := h.sound.perform_within c
    rw [← hstorage] at hgoes hwithin
    exact ⟨h.call hstorage hclients, hgoes.root,
      hwithin.changes.mono fun l hl => touches_of_call hcall hl⟩

/-- What is done for the user comes to the same. -/
theorem Deed.perform_alike (h : Alike R user v.storage v'.storage) (hfor : d.isFor user = true) :
    (d.perform v).1.unlabelled = (d.perform v').1.unlabelled ∧
      Alike R user (d.perform v).2.storage (d.perform v').2.storage := by
  obtain ⟨c, hcall, rfl⟩ := isFor_iff.mp hfor
  obtain ⟨⟨reply, hreply⟩, hperform⟩ := perform_call hcall
  obtain ⟨htold, hafter⟩ := c.perform_alike _ _ h
  rw [hreply, hreply, (hperform v).1, (hperform v').1, htold]
  exact ⟨rfl, hafter⟩

/-- What is done for others, or for nobody, makes no difference to the user. -/
theorem Deed.alike_other (hv : Tidy R v) (h : Alike R user v.storage v'.storage)
    (hfor : d.isFor user = false) : Alike R user (d.perform v).2.storage v'.storage := by
  cases hcall : d.call? with
  | none =>
    have hfiled := perform_filed hv hcall
    have hgoes : Goes R v.storage (d.perform v).2.storage :=
      ⟨hfiled.tidy.sound, congrArg Registry.root hfiled.registry, hfiled.files.keeps,
        by
          change v.registry.known <:+ (d.perform v).2.registry.known
          rw [hfiled.registry]⟩
    refine h.goes hgoes (.refl h.right) (Eq.trans ?_ h.below)
    exact hfiled.files.changes.below fun l hl => not_prefix_of_isDocument hl
  | some c =>
    have hne : user ≠ c.user := by
      rintro rfl
      rw [isFor_iff.mpr ⟨c, hcall, rfl⟩] at hfor
      cases hfor
    rw [((perform_call hcall).2 v).1]
    exact h.other hne

/-! ## §3 One deed after another -/

theorem run_append (v : Vault) (deeds deeds' : List Deed) :
    run v (deeds ++ deeds') = run (run v deeds) deeds' := List.foldl_append

theorem Tidy.run (h : Tidy R v) (deeds : List Deed) :
    Tidy R (run v deeds) ∧ (Vault.run v deeds).registry.root = v.registry.root := by
  induction deeds generalizing v with
  | nil => exact ⟨h, rfl⟩
  | cons d deeds ih =>
    obtain ⟨hnext, hroot, -⟩ := h.perform d
    obtain ⟨hlast, hroot'⟩ := ih hnext
    exact ⟨hlast, hroot'.trans hroot⟩

/-- What is told to the user, and what is kept for the user, is the same if only what is done for
the user is done: by induction, with the vaults of the two runs alike for the user all the time. -/
theorem run_alike (hv : Tidy R v) (h : Alike R user v.storage v'.storage) (deeds : List Deed) :
    toldTo user v deeds = toldTo user v' (deeds.filter (Deed.isFor user)) ∧
      Alike R user (run v deeds).storage
        (run v' (deeds.filter (Deed.isFor user))).storage := by
  induction deeds generalizing v v' with
  | nil => exact ⟨rfl, h⟩
  | cons d deeds ih =>
    have hnext := (hv.perform d).1
    cases hfor : d.isFor user with
    | true =>
      obtain ⟨hreply, hafter⟩ := Deed.perform_alike h hfor
      obtain ⟨htold, hlast⟩ := ih hnext hafter
      rw [List.filter_cons_of_pos hfor]
      refine ⟨?_, hlast⟩
      simp only [toldTo, hfor, ↓reduceIte]
      rw [hreply, htold]
    | false =>
      obtain ⟨htold, hlast⟩ := ih hnext (Deed.alike_other hv h hfor)
      rw [List.filter_cons_of_neg (by rw [hfor]; decide)]
      refine ⟨?_, hlast⟩
      simp only [toldTo, hfor, Bool.false_eq_true, ↓reduceIte]
      exact htold

/-! ## §4 Isolation -/

/-- Users are isolated in the course of some deeds. -/
structure Isolated (R : Location) (v : Vault) (deeds : List Deed) : Prop where
  /-- A user is told, labels aside, what the user would be told without the others. -/
  told : ∀ user, toldTo user v deeds = toldTo user v (deeds.filter (Deed.isFor user))
  /-- In the end, the same is kept for a user as without the others. -/
  kept : ∀ user, (run v deeds).files.below (userAt R user) =
    (run v (deeds.filter (Deed.isFor user))).files.below (userAt R user)
  /-- What is done for a user touches only the directory of this user and, right in it, the file
  that is named; what is done for nobody touches only the document of the clients and its draft. -/
  touched : ∀ before d later, deeds = before ++ d :: later →
    Changes (d.Touches R) (run v before).files (run v (before ++ [d])).files
  /-- What is done for a user leaves the document and its draft alone. -/
  documents : ∀ before d later c, deeds = before ++ d :: later → d.call? = some c →
    ∀ l, IsDocument R l →
      (run v (before ++ [d])).files.lookup l = (run v before).files.lookup l
  /-- Different names, or names for different users, do not lead to the same place. -/
  distinct : ∀ user filename user' filename' path path',
    ((run v deeds).registry.userDirectory user).filePath filename = .ok path →
    ((run v deeds).registry.userDirectory user').filePath filename' = .ok path' →
    ∀ follow follow' place place', (run v deeds).files.resolve follow path = .ok place →
      (run v deeds).files.resolve follow' path' = .ok place' →
      place.location = place'.location → user = user' ∧ filename = filename'

/-- Where the path of a file of a user leads. -/
theorem Tidy.location_of_filePath (h : Tidy R v) {filename : String} {path : Path}
    (hpath : (v.registry.userDirectory user).filePath filename = .ok path) {follow : Bool}
    {place : Place} (hresolve : v.files.resolve follow path = .ok place) :
    place.location = fileAt R user (Bytes.ofText filename) := by
  by_cases hplain : isPlainFilename filename = true
  · rw [filePath_plain hplain] at hpath
    cases hpath
    change v.files.resolve follow (filePath v.registry.root user filename) = .ok place at hresolve
    exact (h.sound.plain.location_of_resolve hplain hresolve).1
  · rw [filePath_of_not_plain hplain] at hpath
    cases hpath

/-- **Isolation**: on any tree without links below the root, whatever requests are answered and
whatever sessions do, in any order, users are isolated. -/
theorem users_isolated {deeds : List Deed} (hroot : v.files.Leads v.registry.root R)
    (hlinks : ∀ l target, R <+: l → v.files.lookup l ≠ some (.link target))
    (hlimit : v.files.sizeLimit = none) (hknown : v.registry.known = [])
    (hclients : ∀ root, v.clients.root = some root → root = v.registry.root) :
    Isolated R v deeds := by
  have hplain : Plain v.registry.root R v.files :=
    { leads := hroot
      users := fun user target => hlinks _ target (List.prefix_append _ _)
      files := fun user name target =>
        hlinks _ target ((List.prefix_append _ _).trans (userAt_prefix_fileAt R user name))
      unlimited := hlimit }
  have hsound : Registry.Sound R v.storage :=
    { plain := hplain
      met := by
        intro user hu
        change user ∈ v.registry.known at hu
        rw [hknown] at hu
        cases hu
      once := by
        change v.registry.known.Nodup
        rw [hknown]
        exact .nil }
  have htidy : Tidy R v :=
    { sound := hsound
      unlinked := by
        rintro l (rfl | rfl) target
        · exact hlinks _ target (List.prefix_append _ _)
        · exact hlinks _ target (List.prefix_append _ _)
      clients := hclients }
  have htouched : ∀ before d later, deeds = before ++ d :: later →
      Changes (d.Touches R) (run v before).files (run v (before ++ [d])).files := by
    intro before d later _
    rw [run_append]
    exact ((htidy.run before).1.perform d).2.2
  refine ⟨fun user => (run_alike htidy (.refl hsound user) deeds).1,
    fun user => (run_alike htidy (.refl hsound user) deeds).2.below, htouched, ?_, ?_⟩
  · intro before d later c hdeeds hcall l hl
    exact (htouched before d later hdeeds).lookup (not_touches_document hcall hl)
  · intro user filename user' filename' path path' hpath hpath' follow follow' place place'
      hresolve hresolve' hsame
    have hlast := (htidy.run deeds).1
    rw [hlast.location_of_filePath hpath hresolve, hlast.location_of_filePath hpath' hresolve']
      at hsame
    obtain ⟨huser, hname⟩ := fileAt_injective hsame
    exact ⟨huser, Bytes.ofText_injective hname⟩

end Deeds

/-- Two users store files of the same name while a client registers. -/
theorem users_isolated_blank :
    Isolated [] blank
      [.request 1 { user := 7, version := 1, body := .backup "a" (Bytes.ofList [1]) },
        .session (.registering "alice"),
        .session (.storing (ClientId.padded (Bytes.ofList [8])) "a" (Bytes.ofList [2])),
        .request 1 { user := 8, version := 1, body := .delete "../7/a" },
        .request 1 { user := 7, version := 1, body := .restore "a" }] := by
  refine users_isolated (leads_top _) (fun l target _ hl => ?_) rfl rfl ?_
  · -- Nothing stands below the top directory.
    cases l with
    | nil => cases hl
    | cons x l =>
      have hnone : lookup {} (x :: l) = none := lookup_vacant (List.cons_ne_nil x l)
      rw [show blank.files = {} from rfl, hnone] at hl
      cases hl
  · rintro root ⟨⟩
    rfl

end Vault

end BackupVault
