import BackupVault.Proofs.Storage.Layout
import BackupVault.Proofs.Storage.Limits

/-!
# Operations of a registry

What the operations of a registry do to a tree with its layout: a stored file is there and nothing
else changed, a file that is there is read, and every operation keeps the layout, whatever user
and file name it is asked for and whether it succeeds or not.

## Overview

- `Registry.Layout.store_plain`: storing a file, all outcomes
- `Registry.store_new`: a new file is stored
- `Registry.read_file`: a file that is there is read
- `Registry.Kept`, `Registry.kept_store`, …: what every operation keeps
-/

set_option autoImplicit false

namespace BackupVault.Registry

open FileTree

/-! ## §1 Users' directories -/

namespace Layout

variable {root : Path} {R : Location} {t t' : FileTree}

/-- Making the directory of a user always succeeds, and changes nothing else. -/
theorem makeUser (h : Layout root R t) (user : UserId) :
    ∃ t₁, makeDirectories (root.join ⟨number user⟩) t = .ok () t₁ ∧
      t₁.lookup (userAt R user) = some .directory ∧ Layout root R t₁ ∧ Stays R t t₁ ∧
      ∀ user' name, t₁.lookup (fileAt R user' name) = t.lookup (fileAt R user' name) := by
  have hsteps := (h.extends_user user).steps_ne_nil (isStep_number user)
  have hresolve := h.resolve_user user false
  rcases h.user_cases user with hnone | hdir
  · rw [hnone] at hresolve
    have hsets := sets_insert t (userAt_ne_nil R user) .directory
    obtain ⟨hlayout, hstays⟩ := h.set_user hnone hsets
    exact ⟨_, makeDirectories_none hsteps hresolve, hsets.self, hlayout, hstays,
      fun user' name => hsets.others _ (userAt_ne_fileAt R user user' name).symm⟩
  · exact ⟨t, makeDirectories_leads (h.leads_user hdir), hdir, h, .refl R t, fun _ _ => rfl⟩

/-! ## §2 Storing -/

/-- Storing under a plain name: the user gets a directory, and the file, if the name is not too
long and not taken. -/
theorem store_plain (h : Layout root R t) (user : UserId) {filename : String}
    (hplain : isPlainFilename filename = true) (content : Bytes) :
    ∃ t₁, Layout root R t₁ ∧ Stays R t t₁ ∧ t₁.lookup (userAt R user) = some .directory ∧
      (∀ user' name, t₁.lookup (fileAt R user' name) = t.lookup (fileAt R user' name)) ∧
      if (Bytes.ofText filename).size ≤ maxSegment ∧
          t.lookup (fileAt R user (Bytes.ofText filename)) = none then
        ∃ target t', UserDirectory.store { user, path := root.join ⟨number user⟩ } filename content
          t = .ok target t' ∧
          t₁.Sets (fileAt R user (Bytes.ofText filename)) (some (.file content)) t'
      else ∃ e, UserDirectory.store { user, path := root.join ⟨number user⟩ } filename content t =
        .error e t₁ := by
  obtain ⟨t₁, hmake, hdir, hlayout, hstays, hfiles⟩ := h.makeUser user
  have hstore := UserDirectory.store_eq (d := { user, path := root.join ⟨number user⟩ })
    (h.extends_user user).nonempty hplain content t
  -- The directory is there now, and the places of files are as before.
  have hresolve := hlayout.resolve_file hdir (isStep_of_plain hplain) false
  rw [hfiles] at hresolve
  rw [hmake] at hstore
  refine ⟨t₁, hlayout, hstays, hdir, hfiles, ?_⟩
  split
  · rename_i hboth
    obtain ⟨hsize, hnone⟩ := hboth
    rw [if_pos hsize, hnone] at hresolve
    -- Without a limit all of the content fits.
    simp only [hresolve, hlayout.unlimited, fits_none, ↓reduceIte, fitting] at hstore
    exact ⟨_, _, hstore, sets_insert t₁ (fileAt_ne_nil R user _) (.file content)⟩
  · rename_i hnot
    -- It is refused if its name is too long or taken; the directory stays made.
    by_cases hsize : (Bytes.ofText filename).size ≤ maxSegment
    · cases hold : t.lookup (fileAt R user (Bytes.ofText filename)) with
      | none => exact absurd ⟨hsize, hold⟩ hnot
      | some e =>
        rw [if_pos hsize, hold] at hresolve
        simp only [hresolve] at hstore
        exact ⟨_, hstore⟩
    · rw [if_neg hsize] at hresolve
      simp only [hresolve] at hstore
      exact ⟨_, hstore⟩

end Layout

/-! ## §3 What every operation keeps -/

/-- The storage is on the root of another one, has its layout, and outside of the directories of
users its files are those of the other one. -/
structure Kept (R : Location) (s₀ s : Storage) : Prop where
  root : s.registry.root = s₀.registry.root
  layout : Layout s.registry.root R s.files
  stays : Stays R s₀.files s.files

/-- What every operation on files keeps, given the root. -/
def Tended (root : Path) (R : Location) (t₀ t : FileTree) : Prop :=
  Layout root R t ∧ Stays R t₀ t

section Kept

variable {R : Location} {s₀ s : Storage} {root : Path} {t₀ t : FileTree} {α : Type}

theorem Kept.refl (h : Layout s.registry.root R s.files) : Kept R s s := ⟨rfl, h, .refl R _⟩

theorem onFiles_ok {x : Stored α} {a : α} (h : x s.files = .ok a t) :
    onFiles x s = .ok a { s with files := t } := by
  simp only [onFiles, h]

theorem onFiles_error {x : Stored α} {e : StorageError} (h : x s.files = .error e t) :
    onFiles x s = .error e { s with files := t } := by
  simp only [onFiles, h]

/-- An operation on files, done in the registry. -/
theorem kept_onFiles {x : Stored α} (hx : Preserves (Tended s₀.registry.root R s₀.files) x) :
    Preserves (Kept R s₀) (onFiles x) := by
  intro s h
  have hafter := hx s.files ⟨h.root ▸ h.layout, h.stays⟩
  cases hrun : x s.files with
  | ok a t =>
    rw [hrun] at hafter
    rw [onFiles_ok hrun]
    exact ⟨h.root, h.root ▸ hafter.1, hafter.2⟩
  | error e t =>
    rw [hrun] at hafter
    rw [onFiles_error hrun]
    exact ⟨h.root, h.root ▸ hafter.1, hafter.2⟩

theorem tended_lift {a : Except StorageError α} (P : FileTree → Prop) :
    Preserves P (UserDirectory.lift a) := by
  cases a with
  | ok a => exact Preserves.pure a
  | error e => exact Preserves.throw e

theorem tended_store (user : UserId) (filename : String) (content : Bytes) :
    Preserves (Tended root R t₀)
      (UserDirectory.store { user, path := root.join ⟨number user⟩ } filename content) := by
  intro t h
  by_cases hplain : isPlainFilename filename = true
  · obtain ⟨t₁, hlayout, hstays, hdir, -, hcases⟩ := h.1.store_plain user hplain content
    split at hcases
    · obtain ⟨target, t', hrun, hsets⟩ := hcases
      obtain ⟨hlayout', hstays'⟩ := hlayout.set_file hdir (by rintro e ⟨⟩; exact ⟨_, rfl⟩) hsets
      rw [hrun]
      exact ⟨hlayout', (h.2.trans hstays).trans hstays'⟩
    · obtain ⟨e, hrun⟩ := hcases
      rw [hrun]
      exact ⟨hlayout, h.2.trans hstays⟩
  -- A name that is not plain is refused before anything is made.
  · have hlift : UserDirectory.lift (UserDirectory.filePath
        { user, path := root.join ⟨number user⟩ } filename) t =
          .error (.invalidFilename filename) t := by
      rw [filePath_of_not_plain hplain]
      rfl
    unfold UserDirectory.store
    rw [bind_run_error hlift]
    exact h

/-- Removing a file of a user, if it is there. -/
theorem tended_remove (user : UserId) {name : Bytes} (hname : Path.IsStep name) :
    Preserves (Tended root R t₀) (remove ((root.join ⟨number user⟩).join ⟨name⟩)) := by
  intro t h
  -- Only a file that is there is removed; in all other cases nothing happens.
  rcases h.1.user_cases user with hnone | hdir
  · obtain ⟨e, hresolve⟩ := h.1.resolve_file_missing hnone hname false
    rw [remove_error hresolve]
    exact h
  · have hresolve := h.1.resolve_file hdir hname false
    by_cases hsize : name.size ≤ maxSegment
    · rw [if_pos hsize] at hresolve
      cases hold : t.lookup (fileAt R user name) with
      | none =>
        rw [hold] at hresolve
        rw [remove_none hresolve]
        exact h
      | some e =>
        obtain ⟨-, content, rfl⟩ := h.1.files user name e hold
        rw [hold] at hresolve
        rw [remove_file hresolve]
        obtain ⟨hlayout, hstays⟩ := h.1.set_file hdir (by rintro e ⟨⟩)
          (sets_erase t (fileAt_ne_nil R user name))
        exact ⟨hlayout, h.2.trans hstays⟩
    · rw [if_neg hsize] at hresolve
      rw [remove_error hresolve]
      exact h

/-- An operation on the path of a file, which is refused for a name that is not plain. -/
theorem tended_filePath {P : FileTree → Prop} {d : UserDirectory} {filename : String}
    {f : Path → Stored α}
    (hf : isPlainFilename filename = true →
      Preserves P (f (d.path.join ⟨Bytes.ofText filename⟩))) :
    Preserves P (UserDirectory.lift (d.filePath filename) >>= f) := by
  by_cases hplain : isPlainFilename filename = true
  · rw [filePath_plain hplain]
    exact fun t ht => hf hplain t ht
  · rw [filePath_of_not_plain hplain]
    exact fun t ht => ht

theorem tended_delete (user : UserId) (filename : String) :
    Preserves (Tended root R t₀)
      (UserDirectory.delete { user, path := root.join ⟨number user⟩ } filename) :=
  tended_filePath fun hplain => preserves_orFail (tended_remove user (isStep_of_plain hplain))

theorem tended_read (P : FileTree → Prop) (d : UserDirectory) (filename : String) :
    Preserves P (d.read filename) :=
  tended_filePath fun _ => preserves_orFail (preserves_load P _)

theorem tended_list (P : FileTree → Prop) (d : UserDirectory) : Preserves P d.list :=
  (preserves_orFail (preserves_list P d.path)).bind fun _ => Preserves.pure _

/-- Remembering a directory leaves the files alone; a directory that is made keeps the layout. -/
theorem getOrCreate_ok (h : Layout s.registry.root R s.files) (user : UserId) :
    ∃ s₁, getOrCreate user s = .ok (s.registry.userDirectory user) s₁ ∧ Kept R s s₁ ∧
      s₁.registry.known.contains user = true ∧
      ∀ user' name, s₁.files.lookup (fileAt R user' name) =
        s.files.lookup (fileAt R user' name) := by
  have hget : (MonadState.get : Registered Storage) s = .ok s s := rfl
  unfold getOrCreate
  rw [bind_run_ok hget]
  -- A directory that is remembered is not looked for.
  by_cases hknown : s.registry.known.contains user = true
  · simp only [hknown, ↓reduceIte]
    exact ⟨s, rfl, .refl h, hknown, fun _ _ => rfl⟩
  · obtain ⟨t₁, hmake, -, hlayout, hstays, hfiles⟩ := h.makeUser user
    have hmakes (wrap : IoFailure → StorageError) :
        onFiles ((makeDirectories (s.registry.userDirectory user).path).orFail wrap) s =
          .ok () { s with files := t₁ } := onFiles_ok (orFail_ok hmake)
    refine ⟨{ registry := { s.registry with known := user :: s.registry.known }, files := t₁ }, ?_,
      ⟨rfl, hlayout, hstays⟩, ?_, hfiles⟩
    · simp only [hknown, Bool.false_eq_true, ↓reduceIte]
      rw [bind_run_ok (hmakes _)]
      rfl
    · simp

/-- The directory of a user is found where it lies, and then remembered. -/
theorem get_cases (h : Layout s.registry.root R s.files) (user : UserId) :
    (∃ s₁, get user s = .ok (s.registry.userDirectory user) s₁ ∧ Kept R s s₁ ∧
      s₁.files = s.files) ∨
    (s.files.lookup (userAt R user) = none ∧ ∃ e, get user s = .error e s) := by
  have hget : (MonadState.get : Registered Storage) s = .ok s s := rfl
  unfold get
  rw [bind_run_ok hget]
  by_cases hknown : s.registry.known.contains user = true
  · simp only [hknown, ↓reduceIte]
    exact .inl ⟨s, rfl, .refl h, rfl⟩
  · simp only [hknown, Bool.false_eq_true, ↓reduceIte]
    have hresolve := h.resolve_user user true
    -- One that is not remembered is looked for on disk, where only a directory can stand.
    rcases h.user_cases user with hnone | hdir
    · rw [hnone] at hresolve
      have hstat (wrap : IoFailure → StorageError) :
          onFiles ((stat (s.registry.userDirectory user).path).orFail wrap) s =
            .error (wrap .notFound) s := onFiles_error (orFail_error (stat_none hresolve))
      exact .inr ⟨hnone, _, bind_run_error (hstat _)⟩
    · rw [hdir] at hresolve
      have hstat (wrap : IoFailure → StorageError) :
          onFiles ((stat (s.registry.userDirectory user).path).orFail wrap) s =
            .ok .directory s := onFiles_ok (orFail_ok (stat_some hresolve))
      refine .inl ⟨{ s with registry := { s.registry with known := user :: s.registry.known } },
        ?_, ⟨rfl, h, .refl R _⟩, rfl⟩
      rw [bind_run_ok (hstat _)]
      rfl

/-- The operations below keep what is kept since some earlier storage. -/
theorem Kept.trans {s₁ : Storage} (h : Kept R s₀ s) (h' : Kept R s s₁) : Kept R s₀ s₁ where
  root := h'.root.trans h.root
  layout := h'.layout
  stays := h.stays.trans h'.stays

/-- An operation that keeps the layout of the storage it is done on. -/
theorem preserves_kept {x : Registered α}
    (hx : ∀ s, Layout s.registry.root R s.files → Kept R s (after (x s))) :
    Preserves (Kept R s₀) x := fun s h => h.trans (hx s h.layout)

theorem kept_store (user : UserId) (filename : String) (content : Bytes) :
    Preserves (Kept R s₀) (store user filename content) := by
  refine preserves_kept fun s h => ?_
  -- The name is checked first, which changes nothing.
  refine Preserves.bind (P := Kept R s) (kept_onFiles (tended_lift _)) (fun _ => ?_) s (.refl h)
  refine preserves_kept fun s h => ?_
  obtain ⟨s₁, hget, hkept, -, -⟩ := getOrCreate_ok h user
  rw [bind_run_ok hget]
  exact kept_onFiles (tended_store user filename content) s₁ hkept

/-- An operation in the directory of a user, if there is one. -/
theorem kept_get_bind (user : UserId) {f : UserDirectory → Registered α}
    (hf : ∀ s, Preserves (Kept R s) (f (s.registry.userDirectory user))) :
    Preserves (Kept R s₀) (get user >>= f) := by
  refine preserves_kept fun s h => ?_
  rcases get_cases h user with ⟨s₁, hget, hkept, -⟩ | ⟨-, e, hget⟩
  · rw [bind_run_ok hget]
    exact hf s s₁ hkept
  · rw [bind_run_error hget]
    exact .refl h

theorem kept_read (user : UserId) (filename : String) :
    Preserves (Kept R s₀) (read user filename) :=
  kept_get_bind user fun _ => kept_onFiles (tended_read _ _ filename)

theorem kept_list (user : UserId) : Preserves (Kept R s₀) (list user) :=
  kept_get_bind user fun _ => kept_onFiles (tended_list _ _)

theorem kept_delete (user : UserId) (filename : String) :
    Preserves (Kept R s₀) (delete user filename) :=
  kept_get_bind user fun _ => kept_onFiles (tended_delete user filename)

/-! ## §4 Files that are there -/

theorem read_plain {filename : String} (hplain : isPlainFilename filename = true)
    (d : UserDirectory) :
    d.read filename = (load (d.path.join ⟨Bytes.ofText filename⟩)).orFail fun
      | .notFound => .fileNotFound (d.path.join ⟨Bytes.ofText filename⟩)
      | e => .io (d.path.join ⟨Bytes.ofText filename⟩) e := by
  rw [UserDirectory.read, filePath_plain hplain]
  rfl

theorem read_file (h : Layout s.registry.root R s.files) {user : UserId} {filename : String}
    (hplain : isPlainFilename filename = true)
    (hsize : (Bytes.ofText filename).size ≤ maxSegment) {content : Bytes}
    (hfile : s.files.lookup (fileAt R user (Bytes.ofText filename)) = some (.file content)) :
    ∃ s', read user filename s = .ok content s' := by
  obtain ⟨hdir, -⟩ := h.files user _ _ hfile
  rcases get_cases h user with ⟨s₁, hget, hkept, hfiles⟩ | ⟨hnone, -⟩
  · have hresolve := h.resolve_file hdir (isStep_of_plain hplain) true
    rw [if_pos hsize, hfile] at hresolve
    have hread : (s.registry.userDirectory user).read filename s₁.files = .ok content s₁.files := by
      rw [read_plain hplain]
      exact orFail_ok (load_file (hfiles ▸ hresolve))
    refine ⟨s₁, ?_⟩
    unfold read
    rw [bind_run_ok hget]
    exact onFiles_ok hread
  · rw [hdir] at hnone
    cases hnone

/-- Only what is loaded under a plain name is read. -/
theorem load_of_read {d : UserDirectory} {filename : String} {content : Bytes} {t' : FileTree}
    (h : d.read filename t = .ok content t') :
    isPlainFilename filename = true ∧
      ∃ t', load (d.path.join ⟨Bytes.ofText filename⟩) t = .ok content t' := by
  -- Any other name is refused before anything is loaded.
  by_cases hplain : isPlainFilename filename = true
  · rw [read_plain hplain] at h
    cases hload : load (d.path.join ⟨Bytes.ofText filename⟩) t with
    | ok c t' =>
      rw [orFail_ok hload] at h
      cases h
      exact ⟨hplain, _, rfl⟩
    | error e t' =>
      rw [orFail_error hload] at h
      cases h
  · rw [UserDirectory.read, filePath_of_not_plain hplain] at h
    cases h

/-- Only what is in its place is loaded. -/
theorem Layout.file_of_load (h : Layout root R t) {user : UserId} {name content : Bytes}
    {t' : FileTree} (hname : Path.IsStep name)
    (hload : load ((root.join ⟨number user⟩).join ⟨name⟩) t = .ok content t') :
    t.lookup (fileAt R user name) = some (.file content) := by
  -- Loading fails unless the user has a directory, the name fits and a file stands there.
  rcases h.user_cases user with hnone | hdir
  · obtain ⟨e, hresolve⟩ := h.resolve_file_missing hnone hname true
    rw [load_error hresolve] at hload
    cases hload
  · have hresolve := h.resolve_file hdir hname true
    by_cases hsize : name.size ≤ maxSegment
    · rw [if_pos hsize] at hresolve
      cases hl : t.lookup (fileAt R user name) with
      | none =>
        rw [hl] at hresolve
        rw [load_none hresolve] at hload
        cases hload
      | some e =>
        obtain ⟨-, c, rfl⟩ := h.files user _ e hl
        rw [hl] at hresolve
        rw [load_file hresolve] at hload
        cases hload
        rfl
    · rw [if_neg hsize] at hresolve
      rw [load_error hresolve] at hload
      cases hload

theorem file_of_read (h : Layout s.registry.root R s.files) {user : UserId} {filename : String}
    {content : Bytes} {s' : Storage} (hread : read user filename s = .ok content s') :
    s.files.lookup (fileAt R user (Bytes.ofText filename)) = some (.file content) := by
  rcases get_cases h user with ⟨s₁, hget, -, hfiles⟩ | ⟨-, e, hget⟩
  · rw [read, bind_run_ok hget] at hread
    cases hrun : (s.registry.userDirectory user).read filename s₁.files with
    | ok c t =>
      rw [onFiles_ok hrun] at hread
      cases hread
      obtain ⟨hplain, t', hload⟩ := load_of_read hrun
      rw [hfiles] at hload
      exact h.file_of_load (isStep_of_plain hplain) hload
    | error e t =>
      rw [onFiles_error hrun] at hread
      cases hread
  · rw [read, bind_run_error hget] at hread
    cases hread

theorem store_new (h : Layout s.registry.root R s.files) {user : UserId} {filename : String}
    (hplain : isPlainFilename filename = true)
    (hsize : (Bytes.ofText filename).size ≤ maxSegment)
    (hnew : s.files.lookup (fileAt R user (Bytes.ofText filename)) = none) (content : Bytes) :
    ∃ target s', store user filename content s = .ok target s' ∧
      Layout s'.registry.root R s'.files ∧
      s'.files.lookup (fileAt R user (Bytes.ofText filename)) = some (.file content) := by
  obtain ⟨s₁, hget, hkept, -, hfiles⟩ := getOrCreate_ok h user
  have hcheck : onFiles (UserDirectory.lift (checkFilename filename)) s = .ok () s := by
    rw [checkFilename_plain hplain]
    rfl
  obtain ⟨t₁, hlayout, -, hdir, -, hcases⟩ := hkept.layout.store_plain user hplain content
  -- The name fits and is not taken, so that storing takes its first branch.
  rw [if_pos ⟨hsize, (hfiles user _).trans hnew⟩] at hcases
  obtain ⟨target, t', hrun, hsets⟩ := hcases
  rw [hkept.root] at hrun
  refine ⟨target, { s₁ with files := t' }, ?_, ?_, hsets.self⟩
  · unfold store
    rw [bind_run_ok hcheck, bind_run_ok hget]
    exact onFiles_ok hrun
  · exact (hlayout.set_file hdir (by rintro e ⟨⟩; exact ⟨_, rfl⟩) hsets).1

end Kept

end BackupVault.Registry
