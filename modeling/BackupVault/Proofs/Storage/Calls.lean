import BackupVault.Proofs.Storage.Plain

/-!
# Calls on a registry

Storing, reading, listing and deleting go the same way: a call gets the directory of its user, and
then does its task there.  In a storage whose remembered directories are all on disk, what comes of
a call is told by the root and the files alone; what is remembered makes no difference.

## Overview

- `Registry.Call`, `Registry.Answer`: calls, and what is answered
- `Registry.Call.perform_eq`: the two parts of a call
- `Registry.get_eq`, `Registry.getOrCreate_eq`: getting a directory
- `Registry.Sound`: what is remembered is on disk; `Registry.Goes`: what calls leave
- `Registry.Call.task_within`: where a call changes files
- `Registry.Twins`: storages that answer alike
-/

set_option autoImplicit false

namespace BackupVault.Registry

open FileTree

/-! ## §1 Calls -/

inductive Call where
  | store (user : UserId) (filename : String) (content : Bytes)
  | read (user : UserId) (filename : String)
  | list (user : UserId)
  | delete (user : UserId) (filename : String)
deriving DecidableEq

/-- What is answered when all goes well. -/
inductive Answer where
  | stored (path : Path)
  | content (b : Bytes)
  | names (names : List String)
  | deleted
  | directory (d : UserDirectory)
  | reopened
deriving DecidableEq

/-- What is answered, or what was wrong. -/
abbrev Told := Except StorageError Answer

namespace Call

def user : Call → UserId
  | store user _ _ | read user _ | list user | delete user _ => user

/-- The name of the file that the call is about. -/
def filename? : Call → Option String
  | store _ filename _ | read _ filename | delete _ filename => some filename
  | list _ => none

/-- The call, as the registry performs it. -/
def perform : Call → Registered Answer
  | store user filename content => do return .stored (← Registry.store user filename content)
  | read user filename => do return .content (← Registry.read user filename)
  | list user => do return .names (← Registry.list user)
  | delete user filename => do
    Registry.delete user filename
    return .deleted

/-- What a call does first, while it alone may use what is remembered. -/
def enter : Call → Registered UserDirectory
  | store user filename _ => do
    onFiles (UserDirectory.lift (checkFilename filename))
    getOrCreate user
  | read user _ | list user | delete user _ => get user

/-- What a call does then, while it alone may use the directory. -/
def task (d : UserDirectory) : Call → Stored Answer
  | store _ filename content => do return .stored (← d.store filename content)
  | read _ filename => do return .content (← d.read filename)
  | list _ => do return .names (← d.list)
  | delete _ filename => do
    d.delete filename
    return .deleted

end Call

section Parts

variable {α β : Type}

theorem outcome_onFiles (x : Stored α) (s : Storage) :
    outcome (onFiles x s) = outcome (x s.files) := by
  unfold onFiles
  cases x s.files <;> rfl

theorem after_onFiles (x : Stored α) (s : Storage) :
    after (onFiles x s) = { s with files := after (x s.files) } := by
  unfold onFiles
  cases x s.files <;> rfl

theorem onFiles_orFail_ok {x : Files α} {s : Storage} {a : α} {t : FileTree}
    (h : x s.files = .ok a t) (wrap : IoFailure → StorageError) :
    onFiles (x.orFail wrap) s = .ok a { s with files := t } := onFiles_ok (orFail_ok h)

theorem onFiles_orFail_error {x : Files α} {s : Storage} {e : IoFailure} {t : FileTree}
    (h : x s.files = .error e t) (wrap : IoFailure → StorageError) :
    onFiles (x.orFail wrap) s = .error (wrap e) { s with files := t } :=
  onFiles_error (orFail_error h)

/-- What is done with a result only is done on files as well. -/
theorem onFiles_map (x : Stored α) (f : α → β) :
    (onFiles x >>= fun a => pure (f a)) = onFiles (x >>= fun a => pure (f a)) := by
  funext s
  cases h : x s.files with
  | ok a t =>
    have hmap : (x >>= fun a => pure (f a)) s.files = .ok (f a) t := bind_run_ok h
    rw [bind_run_ok (onFiles_ok h), onFiles_ok hmap]
    rfl
  | error e t =>
    have hmap : (x >>= fun a => pure (f a)) s.files = .error e t := bind_run_error h
    rw [bind_run_error (onFiles_error h), onFiles_error hmap]

theorem Call.perform_eq (c : Call) : c.perform = c.enter >>= fun d => onFiles (c.task d) := by
  cases c with
  | store user filename content =>
    simp only [perform, enter, task, Registry.store, bind_assoc, ← onFiles_map]
  | read user filename => simp only [perform, enter, task, Registry.read, bind_assoc, ← onFiles_map]
  | list user => simp only [perform, enter, task, Registry.list, bind_assoc, ← onFiles_map]
  | delete user filename =>
    simp only [perform, enter, task, Registry.delete, bind_assoc, ← onFiles_map]

end Parts

/-! ## §2 Getting a directory -/

/-- The directory of the user is remembered. -/
def meet (user : UserId) (s : Storage) : Storage :=
  if s.registry.known.contains user then s
  else { s with registry := { s.registry with known := user :: s.registry.known } }

section Getting

variable {s : Storage} {user : UserId}

theorem files_meet (user : UserId) (s : Storage) : (meet user s).files = s.files := by
  unfold meet
  split <;> rfl

theorem root_meet (user : UserId) (s : Storage) :
    (meet user s).registry.root = s.registry.root := by
  unfold meet
  split <;> rfl

theorem mem_known_meet {user' : UserId} :
    user' ∈ (meet user s).registry.known ↔ user' = user ∨ user' ∈ s.registry.known := by
  unfold meet
  split
  · rename_i hknown
    rw [List.contains_iff_mem] at hknown
    exact ⟨.inr, fun h => h.elim (fun heq => heq ▸ hknown) id⟩
  · exact List.mem_cons

theorem suffix_meet : s.registry.known <:+ (meet user s).registry.known := by
  unfold meet
  split
  · exact List.suffix_rfl
  · exact List.suffix_cons _ _

theorem nodup_meet (h : s.registry.known.Nodup) : (meet user s).registry.known.Nodup := by
  unfold meet
  split
  · exact h
  · rename_i hknown
    rw [List.contains_iff_mem] at hknown
    exact List.nodup_cons.mpr ⟨hknown, h⟩

theorem meet_of_known (h : s.registry.known.contains user = true) : meet user s = s := if_pos h

theorem get_eq (user : UserId) (s : Storage) :
    get user s =
      if s.registry.known.contains user then
        .ok { user, path := userPath s.registry.root user } s
      else
        match s.files.resolve true (userPath s.registry.root user) with
        | .ok ⟨_, some .directory⟩ =>
          .ok { user, path := userPath s.registry.root user } (meet user s)
        | .ok _ | .error .notFound => .error (.userNotFound user) s
        | .error e => .error (.io (userPath s.registry.root user) e) s := by
  have hstate : (MonadState.get : Registered Storage) s = .ok s s := rfl
  unfold get
  rw [bind_run_ok hstate]
  by_cases hknown : s.registry.known.contains user = true
  · simp only [hknown, ↓reduceIte]
    rfl
  · simp only [hknown, Bool.false_eq_true, ↓reduceIte]
    have hmeet : meet user s =
        { s with registry := { s.registry with known := user :: s.registry.known } } :=
      if_neg hknown
    have hstat := stat_eq (userPath s.registry.root user) s.files
    cases hresolve : s.files.resolve true (userPath s.registry.root user) with
    | error e =>
      rw [hresolve] at hstat
      refine (bind_run_error (onFiles_orFail_error hstat _)).trans ?_
      cases e <;> rfl
    | ok place =>
      obtain ⟨l, e?⟩ := place
      rw [hresolve] at hstat
      cases e? with
      | none =>
        exact bind_run_error (onFiles_orFail_error hstat _)
      | some e =>
        refine (bind_run_ok (onFiles_orFail_ok hstat _)).trans ?_
        cases e with
        | directory =>
          rw [hmeet]
          rfl
        | file content => rfl
        | link target => rfl

/-- Getting a directory that is there changes no files. -/
theorem files_get (user : UserId) (s : Storage) : (after (get user s)).files = s.files := by
  rw [get_eq]
  split
  · rfl
  · split
    · exact files_meet user s
    · rfl
    · rfl
    · rfl

/-- A directory is got if it is remembered, or its path leads to one. -/
theorem outcome_get_eq_ok {d : UserDirectory} :
    outcome (get user s) = .ok d ↔
      d = { user, path := userPath s.registry.root user } ∧
        (user ∈ s.registry.known ∨ ∃ l, s.files.Leads (userPath s.registry.root user) l) := by
  rw [get_eq]
  simp only [List.contains_iff_mem]
  by_cases hknown : user ∈ s.registry.known
  · simp only [hknown, ↓reduceIte, outcome, Except.ok.injEq, true_or, and_true]
    exact eq_comm
  · simp only [hknown, ↓reduceIte, false_or, Leads]
    split
    · rename_i l hresolve
      simp only [hresolve, outcome, Except.ok.injEq, Place.mk.injEq, and_true, exists_eq',
        eq_comm]
    · rename_i place hnot hresolve
      simp only [hresolve, outcome, Except.ok.injEq, reduceCtorEq, false_iff, not_and]
      rintro - ⟨l, rfl⟩
      exact hnot l rfl
    · rename_i hresolve
      simp [hresolve, outcome]
    · rename_i e hnot hresolve
      simp [hresolve, outcome]

/-- What is done in the directory of a user succeeds if there is one, and it does there. -/
theorem outcome_get_bind_eq_ok {α : Type} {f : UserDirectory → Stored α} {a : α} :
    outcome ((get user >>= fun d => onFiles (f d)) s) = .ok a ↔
      (user ∈ s.registry.known ∨ ∃ l, s.files.Leads (userPath s.registry.root user) l) ∧
        outcome (f { user, path := userPath s.registry.root user } s.files) = .ok a := by
  cases hget : outcome (get user s) with
  | ok d =>
    obtain ⟨rfl, hdir⟩ := outcome_get_eq_ok.mp hget
    rw [bind_run_ok (eq_ok_of_outcome hget), outcome_onFiles, files_get]
    exact ⟨fun h => ⟨hdir, h⟩, fun h => h.2⟩
  | error e =>
    rw [bind_run_error (eq_error_of_outcome hget)]
    refine ⟨nofun, fun h => ?_⟩
    cases hget.symm.trans (outcome_get_eq_ok.mpr ⟨rfl, h.1⟩)

theorem getOrCreate_eq (user : UserId) (s : Storage) :
    getOrCreate user s =
      if s.registry.known.contains user then
        .ok { user, path := userPath s.registry.root user } s
      else
        match makeDirectories (userPath s.registry.root user) s.files with
        | .ok _ t =>
          .ok { user, path := userPath s.registry.root user } (meet user { s with files := t })
        | .error e t => .error (.io (userPath s.registry.root user) e) { s with files := t } := by
  have hstate : (MonadState.get : Registered Storage) s = .ok s s := rfl
  unfold getOrCreate
  rw [bind_run_ok hstate]
  by_cases hknown : s.registry.known.contains user = true
  · simp only [hknown, ↓reduceIte]
    rfl
  · simp only [hknown, Bool.false_eq_true, ↓reduceIte]
    cases hmake : makeDirectories (userPath s.registry.root user) s.files with
    | ok _ t =>
      have hmeet : meet user { s with files := t } =
          { registry := { s.registry with known := user :: s.registry.known }, files := t } :=
        if_neg hknown
      refine (bind_run_ok (onFiles_orFail_ok hmake _)).trans ?_
      simp only [hmeet]
      rfl
    | error e t =>
      exact bind_run_error (onFiles_orFail_error hmake _)

end Getting

/-! ## §3 Sound storages -/

/-- No link is in the way, and the remembered directories, each remembered once, are on disk. -/
structure Sound (R : Location) (s : Storage) : Prop where
  plain : Plain s.registry.root R s.files
  met : ∀ user ∈ s.registry.known, s.files.Leads (userPath s.registry.root user) (userAt R user)
  once : s.registry.known.Nodup

/-- A registry that is new, on the top directory, with nothing in it. -/
def vacant : Storage := { registry := { root := Path.ofText "/" }, files := {} }

theorem vacant_sound : Sound [] vacant := ⟨plain_vacant, nofun, .nil⟩

/-- The second storage is sound, on the same root, and nothing that was remembered was forgotten or
remembered anew. -/
structure Goes (R : Location) (s s' : Storage) : Prop where
  sound : Sound R s'
  root : s'.registry.root = s.registry.root
  keeps : s.files.Keeps s'.files
  known : s.registry.known <:+ s'.registry.known

section Sound

variable {R : Location} {s s' s₁ : Storage} {user : UserId} {d : UserDirectory}

theorem Goes.refl (h : Sound R s) : Goes R s s := ⟨h, rfl, .refl _, List.suffix_rfl⟩

theorem Goes.trans (h : Goes R s s₁) (h' : Goes R s₁ s') : Goes R s s' :=
  ⟨h'.sound, h'.root.trans h.root, h.keeps.trans h'.keeps, h.known.trans h'.known⟩

namespace Sound

theorem goes_files (h : Sound R s) {t : FileTree} (hplain : Plain s.registry.root R t)
    (hkeeps : s.files.Keeps t) : Goes R s { s with files := t } :=
  ⟨⟨hplain, fun u hu => (h.met u hu).keeps hkeeps, h.once⟩, rfl, hkeeps, List.suffix_rfl⟩

theorem goes_meet (h : Sound R s)
    (hleads : s.files.Leads (userPath s.registry.root user) (userAt R user)) :
    Goes R s (meet user s) := by
  refine ⟨⟨?_, ?_, nodup_meet h.once⟩, root_meet user s, ?_, suffix_meet⟩
  · rw [files_meet, root_meet]
    exact h.plain
  · intro u hu
    rw [files_meet, root_meet]
    rcases mem_known_meet.mp hu with rfl | hu
    · exact hleads
    · exact h.met u hu
  · rw [files_meet]
    exact .refl _

/-- Whether a directory is remembered makes no difference to getting it. -/
theorem get_eq (h : Sound R s) (user : UserId) :
    get user s = match s.files.resolve true (userPath s.registry.root user) with
      | .ok ⟨_, some .directory⟩ =>
        .ok { user, path := userPath s.registry.root user } (meet user s)
      | .ok _ | .error .notFound => .error (.userNotFound user) s
      | .error e => .error (.io (userPath s.registry.root user) e) s := by
  rw [Registry.get_eq]
  split
  · rename_i hknown
    have hleads := h.met user (List.contains_iff_mem.mp hknown)
    rw [Leads] at hleads
    rw [hleads, meet_of_known hknown]
  · rfl

theorem getOrCreate_eq (h : Sound R s) (user : UserId) :
    getOrCreate user s = match makeDirectories (userPath s.registry.root user) s.files with
      | .ok _ t =>
        .ok { user, path := userPath s.registry.root user } (meet user { s with files := t })
      | .error e t => .error (.io (userPath s.registry.root user) e) { s with files := t } := by
  rw [Registry.getOrCreate_eq]
  split
  · rename_i hknown
    have hleads := h.met user (List.contains_iff_mem.mp hknown)
    rw [makeDirectories_leads hleads]
    exact congrArg (EStateM.Result.ok _) (meet_of_known hknown).symm
  · rfl

/-- A directory that was got is that of the user, and is remembered. -/
theorem get_goes (h : Sound R s) (user : UserId) :
    Goes R s (after (get user s)) ∧ ∀ d, outcome (get user s) = .ok d →
      d = { user, path := userPath s.registry.root user } ∧
        user ∈ (after (get user s)).registry.known := by
  rw [h.get_eq]
  split
  · rename_i l hdir
    refine ⟨h.goes_meet (h.plain.leads_of_directory hdir), ?_⟩
    rintro d ⟨⟩
    exact ⟨rfl, mem_known_meet.mpr (.inl rfl)⟩
  -- Nothing changes otherwise.
  · exact ⟨.refl h, nofun⟩
  · exact ⟨.refl h, nofun⟩
  · exact ⟨.refl h, nofun⟩

theorem getOrCreate_goes (h : Sound R s) (user : UserId) :
    Goes R s (after (getOrCreate user s)) ∧ ∀ d, outcome (getOrCreate user s) = .ok d →
      d = { user, path := userPath s.registry.root user } ∧
        user ∈ (after (getOrCreate user s)).registry.known := by
  rw [h.getOrCreate_eq, h.plain.makeDirectories_eq]
  by_cases hsize : (userPath s.registry.root user).bytes.size ≤ maxPath
  · simp only [hsize, ↓reduceIte]
    cases hl : s.files.lookup (userAt R user) with
    | none =>
      obtain ⟨hplain, hkeeps⟩ := h.plain.insert_user hl
      have hgoes := h.goes_files hplain hkeeps
      have hdir := lookup_insert_self s.files (userAt_ne_nil R user) .directory
      refine ⟨hgoes.trans (hgoes.sound.goes_meet ((hplain.leads_iff user).mpr ⟨hsize, hdir⟩)), ?_⟩
      rintro d ⟨⟩
      exact ⟨rfl, mem_known_meet.mpr (.inl rfl)⟩
    | some e =>
      cases e with
      | directory =>
        refine ⟨h.goes_meet ((h.plain.leads_iff user).mpr ⟨hsize, hl⟩), ?_⟩
        rintro d ⟨⟩
        exact ⟨rfl, mem_known_meet.mpr (.inl rfl)⟩
      | file content => exact ⟨.refl h, nofun⟩
      | link target => exact ⟨.refl h, nofun⟩
  · simp only [hsize, ↓reduceIte]
    exact ⟨.refl h, nofun⟩

/-- A directory that cannot be made leaves everything as it was. -/
theorem getOrCreate_fails (h : Sound R s) {e : StorageError}
    (hfail : outcome (getOrCreate user s) = .error e) : after (getOrCreate user s) = s := by
  rw [h.getOrCreate_eq] at hfail ⊢
  cases hmake : makeDirectories (userPath s.registry.root user) s.files with
  | ok _ t =>
    rw [hmake] at hfail
    cases hfail
  | error e t =>
    rw [h.plain.makeDirectories_fails hmake]
    rfl

end Sound

/-! ## §4 Calls on sound storages -/

/-- A task changes no places but those of the file that it is about. -/
theorem Call.task_within {root : Path} {t : FileTree} (h : Plain root R t) (c : Call) :
    Within root R c.user (c.filename?.getD "") t
      (after (c.task { user := c.user, path := userPath root c.user } t)) := by
  cases c with
  | store user filename content =>
    rw [task, after_map]
    exact h.store_within user filename content
  | read user filename =>
    rw [task, after_map, after_read]
    exact .refl h _ _
  | list user =>
    rw [task, after_map, after_list]
    exact .refl h _ _
  | delete user filename =>
    have hdelete := h.delete_within user filename
    rw [← after_map _ (fun _ => Answer.deleted)] at hdelete
    exact hdelete

/-- The call is refused whatever the storage, since it is to store under a name that is not plain. -/
def Call.isRefused : Call → Bool
  | store _ filename _ => !isPlainFilename filename
  | _ => false

theorem Call.enter_store (user : UserId) (filename : String) (content : Bytes) :
    (store user filename content).enter =
      onFiles (UserDirectory.lift (checkFilename filename)) >>= fun _ => getOrCreate user := rfl

theorem check_plain {filename : String} (h : isPlainFilename filename = true) (s : Storage) :
    onFiles (UserDirectory.lift (checkFilename filename)) s = .ok () s := by
  rw [checkFilename_plain h]
  rfl

theorem check_not_plain {filename : String} (h : isPlainFilename filename ≠ true) (s : Storage) :
    onFiles (UserDirectory.lift (checkFilename filename)) s =
      .error (.invalidFilename filename) s := by
  rw [checkFilename_of_not_plain h]
  rfl

namespace Sound

theorem enter_goes (h : Sound R s) (c : Call) :
    Goes R s (after (c.enter s)) ∧ ∀ d, outcome (c.enter s) = .ok d →
      d = { user := c.user, path := userPath s.registry.root c.user } ∧
        c.user ∈ (after (c.enter s)).registry.known := by
  cases c with
  | store user filename content =>
    rw [Call.enter_store]
    by_cases hplain : isPlainFilename filename = true
    · rw [bind_run_ok (check_plain hplain s)]
      exact h.getOrCreate_goes user
    · rw [bind_run_error (check_not_plain hplain s)]
      exact ⟨.refl h, nofun⟩
  | read user filename => exact h.get_goes user
  | list user => exact h.get_goes user
  | delete user filename => exact h.get_goes user

/-- A directory that is on disk is got, and nothing changes but what is remembered. -/
theorem enter_leads (h : Sound R s) {c : Call} (hrefused : c.isRefused = false)
    (hleads : s.files.Leads (userPath s.registry.root c.user) (userAt R c.user)) :
    c.enter s =
      .ok { user := c.user, path := userPath s.registry.root c.user } (meet c.user s) := by
  have hget : ∀ user, c.user = user → get user s =
      .ok { user, path := userPath s.registry.root user } (meet user s) := by
    rintro user rfl
    rw [Leads] at hleads
    rw [h.get_eq, hleads]
  cases c with
  | store user filename content =>
    have hplain : isPlainFilename filename = true := by simpa [Call.isRefused] using hrefused
    have hmake : makeDirectories (userPath s.registry.root user) s.files = .ok () s.files :=
      makeDirectories_leads hleads
    rw [Call.enter_store, bind_run_ok (check_plain hplain s), h.getOrCreate_eq, hmake]
    rfl
  | read user filename => exact hget user rfl
  | list user => exact hget user rfl
  | delete user filename => exact hget user rfl

theorem task_goes (h : Sound R s) {c : Call}
    (hd : d = { user := c.user, path := userPath s.registry.root c.user }) :
    Goes R s (after (onFiles (c.task d) s)) := by
  subst hd
  have hwithin := c.task_within h.plain
  rw [after_onFiles]
  exact h.goes_files hwithin.plain hwithin.keeps

theorem perform_goes (h : Sound R s) (c : Call) : Goes R s (after (c.perform s)) := by
  obtain ⟨hgoes, hd⟩ := h.enter_goes c
  rw [c.perform_eq]
  cases henter : outcome (c.enter s) with
  | error e =>
    rw [bind_run_error (eq_error_of_outcome henter)]
    exact hgoes
  | ok d =>
    obtain ⟨heq, -⟩ := hd d henter
    rw [bind_run_ok (eq_ok_of_outcome henter)]
    exact hgoes.trans (hgoes.sound.task_goes (hgoes.root ▸ heq))

end Sound

end Sound

/-! ## §5 Storages that answer alike -/

/-- A call agrees on two storages in getting the directory of its user if both ways to get one do,
since checking a name is the same everywhere. -/
theorem Call.agrees_of_getting {P : Storage → Storage → Prop} (c : Call)
    (hget : Agrees P (get c.user)) (hmake : Agrees P (getOrCreate c.user)) :
    Agrees P c.enter := by
  cases c with
  | store user filename content =>
    refine Agrees.bind (fun s s' h => ?_) fun _ => hmake
    by_cases hplain : isPlainFilename filename = true
    · rw [check_plain hplain, check_plain hplain]
      exact ⟨rfl, h⟩
    · rw [check_not_plain hplain, check_not_plain hplain]
      exact ⟨rfl, h⟩
  | read user filename => exact hget
  | list user => exact hget
  | delete user filename => exact hget

/-- Sound storages with the same root and the same files.  What they remember may differ. -/
structure Twins (R : Location) (s s' : Storage) : Prop where
  left : Sound R s
  right : Sound R s'
  root : s'.registry.root = s.registry.root
  files : s'.files = s.files

section Twins

variable {R : Location} {s s' : Storage} {d : UserDirectory}

theorem Twins.refl (h : Sound R s) : Twins R s s := ⟨h, h, rfl, rfl⟩

/-- Twins that go on to the same files are twins still. -/
theorem Twins.goes (h : Twins R s s') {s₁ s₁' : Storage} (hgoes : Goes R s s₁)
    (hgoes' : Goes R s' s₁') (hfiles : s₁'.files = s₁.files) : Twins R s₁ s₁' :=
  ⟨hgoes.sound, hgoes'.sound, hgoes'.root.trans (h.root.trans hgoes.root.symm), hfiles⟩

theorem get_agrees (user : UserId) : Agrees (Twins R) (get user) := by
  intro s s' h
  have htold : outcome (get user s) = outcome (get user s') ∧
      (after (get user s')).files = (after (get user s)).files := by
    rw [h.left.get_eq, h.right.get_eq, h.root, h.files]
    split
    · exact ⟨rfl, (files_meet user s').trans (h.files.trans (files_meet user s).symm)⟩
    · exact ⟨rfl, h.files⟩
    · exact ⟨rfl, h.files⟩
    · exact ⟨rfl, h.files⟩
  exact ⟨htold.1, h.goes (h.left.get_goes user).1 (h.right.get_goes user).1 htold.2⟩

theorem getOrCreate_agrees (user : UserId) : Agrees (Twins R) (getOrCreate user) := by
  intro s s' h
  have htold : outcome (getOrCreate user s) = outcome (getOrCreate user s') ∧
      (after (getOrCreate user s')).files = (after (getOrCreate user s)).files := by
    rw [h.left.getOrCreate_eq, h.right.getOrCreate_eq, h.root, h.files]
    split
    · exact ⟨rfl, by simp only [after, files_meet]⟩
    · exact ⟨rfl, rfl⟩
  exact ⟨htold.1, h.goes (h.left.getOrCreate_goes user).1 (h.right.getOrCreate_goes user).1 htold.2⟩

theorem enter_agrees (c : Call) : Agrees (Twins R) c.enter :=
  c.agrees_of_getting (get_agrees c.user) (getOrCreate_agrees c.user)

theorem Twins.task (h : Twins R s s') {c : Call}
    (hd : d = { user := c.user, path := userPath s.registry.root c.user }) :
    outcome (onFiles (c.task d) s) = outcome (onFiles (c.task d) s') ∧
      Twins R (after (onFiles (c.task d) s)) (after (onFiles (c.task d) s')) := by
  have hgoes' := h.right.task_goes (c := c) (h.root ▸ hd)
  refine ⟨by rw [outcome_onFiles, outcome_onFiles, h.files], h.goes (h.left.task_goes hd) hgoes' ?_⟩
  rw [after_onFiles, after_onFiles, h.files]

end Twins

end BackupVault.Registry
