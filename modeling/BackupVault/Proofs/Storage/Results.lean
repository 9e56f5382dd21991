import BackupVault.Proofs.Storage.Calls

/-!
# What calls come to

What is answered to a call on a sound storage, and what stands in the place of a file afterwards.
A file is there from the call that stored it until the one that deletes it, and all that time it
is what is read.

## Overview

- `Registry.Held`: a file is where its path leads
- `Registry.Sound.stored`, `Registry.Sound.deleted`: calls that change the place of a file
- `Registry.Sound.lookup_file`: other calls leave it alone
- `Registry.Sound.read_held`, `Registry.Sound.held_of_read`: what is read
-/

set_option autoImplicit false

namespace BackupVault.Registry

open FileTree

/-- The path of the file leads to it, and this is its content. -/
def Held (R : Location) (s : Storage) (user : UserId) (filename : String) (content : Bytes) :
    Prop :=
  s.files.resolve true (filePath s.registry.root user filename) =
    .ok ⟨fileAt R user (Bytes.ofText filename), some (.file content)⟩

/-- The call stores or deletes this file, if all goes well. -/
def Call.changes (user : UserId) (filename : String) : Call → Prop
  | store user' filename' _ | delete user' filename' => user' = user ∧ filename' = filename
  | _ => False

variable {R : Location} {s s' : Storage} {user : UserId} {filename : String} {content : Bytes}

/-! ## §1 The two parts of a call -/

/-- A call that does not get a directory is over. -/
theorem Call.perform_error {c : Call} {e : StorageError} (henter : outcome (c.enter s) = .error e) :
    c.perform s = .error e (after (c.enter s)) := by
  rw [c.perform_eq]
  exact bind_run_error (eq_error_of_outcome henter)

/-- A call that gets one does its task there. -/
theorem Call.perform_ok {c : Call} {d : UserDirectory} (henter : outcome (c.enter s) = .ok d) :
    c.perform s = onFiles (c.task d) (after (c.enter s)) := by
  rw [c.perform_eq]
  exact bind_run_ok (eq_ok_of_outcome henter)

/-- A name that is not plain is refused before anything is done. -/
theorem perform_refused (hplain : isPlainFilename filename ≠ true) (s : Storage) :
    (Call.store user filename content).perform s = .error (.invalidFilename filename) s := by
  have henter : (Call.store user filename content).enter s =
      .error (.invalidFilename filename) s := bind_run_error (check_not_plain hplain s)
  rw [Call.perform_eq]
  exact bind_run_error henter

/-- A task that fails changes nothing. -/
theorem Plain.task_fails {root : Path} {t : FileTree} (h : Plain root R t) {c : Call}
    (hleads : t.Leads (userPath root c.user) (userAt R c.user)) {e : StorageError}
    (hfail : outcome (c.task { user := c.user, path := userPath root c.user } t) = .error e) :
    after (c.task { user := c.user, path := userPath root c.user } t) = t := by
  cases c with
  | store user filename content =>
    rw [Call.task, after_map]
    exact h.store_fails hleads (outcome_map_error.mp hfail)
  | read user filename => rw [Call.task, after_map, after_read]
  | list user => rw [Call.task, after_map, after_list]
  | delete user filename =>
    have hdelete : outcome (UserDirectory.delete { user, path := userPath root user } filename t) =
        .error e := outcome_map_error.mp hfail
    exact (after_map _ (fun _ => Answer.deleted) t).trans (delete_fails hdelete)

/-- Getting a directory changes no file. -/
theorem Sound.getOrCreate_file (h : Sound R s) (user' user : UserId) (name : Bytes) :
    (after (getOrCreate user' s)).files.lookup (fileAt R user name) =
      s.files.lookup (fileAt R user name) := by
  have hmade := h.plain.makeDirectories_file user' user name
  rw [h.getOrCreate_eq]
  split
  · rename_i t hmake
    rw [hmake] at hmade
    simp only [after, files_meet]
    exact hmade
  · rename_i e t hmake
    rw [hmake] at hmade
    exact hmade

theorem Sound.enter_file (h : Sound R s) (c : Call) (user : UserId) (name : Bytes) :
    (after (c.enter s)).files.lookup (fileAt R user name) =
      s.files.lookup (fileAt R user name) := by
  cases c with
  | store user' filename content =>
    rw [Call.enter_store]
    by_cases hplain : isPlainFilename filename = true
    · rw [bind_run_ok (check_plain hplain s)]
      exact h.getOrCreate_file user' user name
    · rw [bind_run_error (check_not_plain hplain s)]
      rfl
  | read user' filename => rw [Call.enter, files_get]
  | list user' => rw [Call.enter, files_get]
  | delete user' filename => rw [Call.enter, files_get]

/-- The storage in which a call does its task. -/
theorem Sound.entered (h : Sound R s) {c : Call} (user : UserId) (huser : c.user = user)
    {d : UserDirectory} (henter : outcome (c.enter s) = .ok d) :
    ∃ s₁, Goes R s s₁ ∧ Plain s.registry.root R s₁.files ∧
      s₁.files.Leads (userPath s.registry.root user) (userAt R user) ∧
      (∀ user name, s₁.files.lookup (fileAt R user name) = s.files.lookup (fileAt R user name)) ∧
      c.perform s = onFiles (c.task { user, path := userPath s.registry.root user }) s₁ := by
  subst huser
  obtain ⟨hgoes, hd⟩ := h.enter_goes c
  obtain ⟨rfl, hknown⟩ := hd d henter
  have hplain := hgoes.sound.plain
  have hleads := hgoes.sound.met _ hknown
  rw [hgoes.root] at hplain hleads
  exact ⟨_, hgoes, hplain, hleads, h.enter_file c, Call.perform_ok henter⟩

/-- A call whose user is on disk does its task there. -/
theorem Sound.perform_leads (h : Sound R s) {c : Call} (user : UserId) (huser : c.user = user)
    (hrefused : c.isRefused = false)
    (hleads : s.files.Leads (userPath s.registry.root user) (userAt R user)) :
    c.perform s = onFiles (c.task { user, path := userPath s.registry.root user })
      (meet user s) := by
  subst huser
  rw [c.perform_eq]
  exact bind_run_ok (h.enter_leads hrefused hleads)

/-! ## §2 Files that are there -/

theorem Sound.lookup_held (h : Sound R s) (hplain : isPlainFilename filename = true)
    (hheld : Held R s user filename content) :
    s.files.lookup (fileAt R user (Bytes.ofText filename)) = some (.file content) := by
  obtain ⟨-, hlookup, -⟩ := h.plain.location_of_resolve hplain hheld
  exact hlookup

/-- A file stays where its path leads as long as it stays in its place. -/
theorem Sound.held_goes (h : Sound R s) (hplain : isPlainFilename filename = true)
    (hheld : Held R s user filename content) (hgoes : Goes R s s')
    (hlookup : s'.files.lookup (fileAt R user (Bytes.ofText filename)) =
      s.files.lookup (fileAt R user (Bytes.ofText filename))) :
    Held R s' user filename content := by
  obtain ⟨-, -, hdir, hpath, hsize⟩ := h.plain.location_of_resolve hplain hheld
  have hplain' := hgoes.sound.plain
  rw [hgoes.root] at hplain'
  unfold Held
  rw [hgoes.root, hplain'.resolve_file_fits hplain hpath hsize (hgoes.keeps.directory _ hdir),
    hlookup, h.lookup_held hplain hheld]

/-- The path of the user is not longer than that of a file. -/
theorem Plain.leads_of_resolve {root : Path} {t : FileTree} (h : Plain root R t)
    (hplain : isPlainFilename filename = true) {follow : Bool} {l : Location} {e? : Option Entry}
    (hresolve : t.resolve follow (filePath root user filename) = .ok ⟨l, e?⟩) :
    t.Leads (userPath root user) (userAt R user) := by
  obtain ⟨-, -, hdir, hpath, -⟩ := h.location_of_resolve hplain hresolve
  have hsize := Path.size_le_join (h.extends_user user).nonempty (isStep_of_plain hplain)
  exact (h.leads_iff user).mpr ⟨Nat.le_trans hsize hpath, hdir⟩

/-! ## §3 What calls do to a file -/

/-- What was stored was not there before, and is held afterwards. -/
theorem Sound.stored (h : Sound R s) {a : Answer}
    (hok : outcome ((Call.store user filename content).perform s) = .ok a) :
    isPlainFilename filename = true ∧ a = .stored (filePath s.registry.root user filename) ∧
      s.files.lookup (fileAt R user (Bytes.ofText filename)) = none ∧
      Held R (after ((Call.store user filename content).perform s)) user filename content := by
  have hplain : isPlainFilename filename = true := by
    cases hnot : isPlainFilename filename with
    | true => rfl
    | false =>
      rw [perform_refused (by simp [hnot])] at hok
      cases hok
  cases henter : outcome ((Call.store user filename content).enter s) with
  | error e =>
    rw [Call.perform_error henter] at hok
    cases hok
  | ok d =>
    obtain ⟨s₁, hgoes, hplain₁, hleads, hfiles, hperform⟩ := h.entered user rfl henter
    rw [hperform, outcome_onFiles] at hok
    obtain ⟨target, hstore, rfl⟩ := outcome_map_ok.mp hok
    have hrun := eq_ok_of_outcome hstore
    have heq := hplain₁.store_leads hleads hplain content
    have hsame := heq.symm.trans hrun
    rw [hperform, after_onFiles, Call.task, after_map]
    split at hsame
    · rename_i l hresolve
      injection hsame with htarget hafter
      obtain ⟨rfl, hnone, hdir, hpath, hsize⟩ := hplain₁.location_of_resolve hplain hresolve
      have hsets := sets_insert s₁.files (fileAt_ne_nil R user (Bytes.ofText filename))
        (.file content)
      obtain ⟨hplain₂, hkeeps⟩ := hplain₁.sets_file (by simp [hnone]) (by simp) hsets
      -- The path leads to the file that was put there.
      have hheld := hplain₂.resolve_file_fits hplain hpath hsize (hkeeps.directory _ hdir) true
      rw [hsets.self, hafter] at hheld
      refine ⟨hplain, by rw [htarget], (hfiles user _).symm.trans hnone, ?_⟩
      unfold Held
      rw [hgoes.root]
      exact hheld
    · cases hsame
    · cases hsame
    · cases hsame

/-- A file that was not stored was there already, or something was in the way. -/
theorem Sound.store_fails (h : Sound R s) (hplain : isPlainFilename filename = true)
    {e : StorageError}
    (hfail : outcome ((Call.store user filename content).perform s) = .error e) :
    (∃ path cause, e = .io path cause) ∨
      e = .alreadyExists (filePath s.registry.root user filename) ∧
        s.files.lookup (fileAt R user (Bytes.ofText filename)) ≠ none := by
  cases henter : outcome ((Call.store user filename content).enter s) with
  | error e' =>
    rw [Call.perform_error henter] at hfail
    rw [Call.enter_store, bind_run_ok (check_plain hplain s), h.getOrCreate_eq] at henter
    cases hfail
    split at henter
    · cases henter
    · cases henter
      exact .inl ⟨_, _, rfl⟩
  | ok d =>
    obtain ⟨s₁, hgoes, hplain₁, hleads, hfiles, hperform⟩ := h.entered user rfl henter
    rw [hperform, outcome_onFiles] at hfail
    have hstore : outcome (UserDirectory.store
        { user, path := userPath s.registry.root user } filename content s₁.files) = .error e :=
      outcome_map_error.mp hfail
    have hresolve := hplain₁.resolve_file user hplain false
    rw [hplain₁.store_leads hleads hplain, hresolve] at hstore
    obtain ⟨hsize, hdir⟩ := (hplain₁.leads_iff user).mp hleads
    rw [hdir] at hstore
    rw [← hfiles]
    -- The path leads to the place of the file, or it is too long.
    by_cases hpath : (filePath s.registry.root user filename).bytes.size ≤ maxPath
    · by_cases hname : (Bytes.ofText filename).size ≤ maxSegment
      · simp only [hpath, hname, ↓reduceIte] at hstore
        cases hl : s₁.files.lookup (fileAt R user (Bytes.ofText filename)) with
        | none =>
          rw [hl] at hstore
          cases hstore
        | some old =>
          rw [hl] at hstore
          cases hstore
          exact .inr ⟨rfl, by simp⟩
      · simp only [hpath, hname, ↓reduceIte] at hstore
        cases hstore
        exact .inl ⟨_, _, rfl⟩
    · simp only [hpath, ↓reduceIte] at hstore
      cases hstore
      exact .inl ⟨_, _, rfl⟩

/-- Nothing is in the place of a file that was deleted. -/
theorem Sound.deleted (h : Sound R s) {a : Answer}
    (hok : outcome ((Call.delete user filename).perform s) = .ok a) :
    (after ((Call.delete user filename).perform s)).files.lookup
      (fileAt R user (Bytes.ofText filename)) = none := by
  cases henter : outcome ((Call.delete user filename).enter s) with
  | error e =>
    rw [Call.perform_error henter] at hok
    cases hok
  | ok d =>
    obtain ⟨s₁, -, hplain₁, hleads, -, hperform⟩ := h.entered user rfl henter
    rw [hperform, outcome_onFiles] at hok
    have hdelete : ∃ a, outcome (UserDirectory.delete
        { user, path := userPath s.registry.root user } filename s₁.files) = .ok a := by
      obtain ⟨a, ha, -⟩ := outcome_map_ok.mp hok
      exact ⟨a, ha⟩
    obtain ⟨a, hdelete⟩ := hdelete
    have hafter : after ((Call.delete user filename).task
        { user, path := userPath s.registry.root user } s₁.files) =
          after (UserDirectory.delete { user, path := userPath s.registry.root user } filename
            s₁.files) := after_map _ (fun _ => Answer.deleted) _
    rw [hperform, after_onFiles]
    change (after ((Call.delete user filename).task
      { user, path := userPath s.registry.root user } s₁.files)).lookup _ = none
    rw [hafter]
    by_cases hplain : isPlainFilename filename = true
    · rw [deleteFile_eq _ hplain] at hdelete ⊢
      split at hdelete
      · cases hdelete
      · rename_i l e hnot hresolve
        obtain ⟨rfl, -⟩ := hplain₁.location_of_resolve hplain hresolve
        exact lookup_erase_self _ (fileAt_ne_nil R user _)
      · cases hdelete
      · cases hdelete
      · cases hdelete
    · rw [delete_not_plain _ hplain] at hdelete
      cases hdelete

/-- No other call changes what is in the place of the file. -/
theorem Sound.lookup_file (h : Sound R s) (c : Call) (user : UserId) (filename : String)
    (hother : ∀ a, outcome (c.perform s) = .ok a → ¬ c.changes user filename) :
    (after (c.perform s)).files.lookup (fileAt R user (Bytes.ofText filename)) =
      s.files.lookup (fileAt R user (Bytes.ofText filename)) := by
  cases henter : outcome (c.enter s) with
  | error e =>
    rw [Call.perform_error henter]
    exact h.enter_file c user _
  | ok d =>
    obtain ⟨s₁, hgoes, hplain₁, hleads, hfiles, hperform⟩ := h.entered c.user rfl henter
    rw [hperform, outcome_onFiles] at hother
    rw [hperform, after_onFiles, ← hfiles]
    cases htask : outcome (c.task { user := c.user, path := userPath s.registry.root c.user }
        s₁.files) with
    | error e => rw [hplain₁.task_fails hleads htask]
    | ok a =>
      have hnot := hother a htask
      cases c with
      | read user' filename' => rw [Call.task, after_map, after_read]
      | list user' => rw [Call.task, after_map, after_list]
      | store user' filename' content =>
        -- The file that is stored is another one.
        refine ((Call.store user' filename' content).task_within hplain₁).changes.lookup ?_
        rintro ⟨-, hl | hl⟩
        · exact userAt_ne_fileAt R _ user _ hl.symm
        · obtain ⟨huser, hname⟩ := fileAt_injective hl
          exact hnot ⟨huser.symm, (Bytes.ofText_injective hname).symm⟩
      | delete user' filename' =>
        refine ((Call.delete user' filename').task_within hplain₁).changes.lookup ?_
        rintro ⟨-, hl | hl⟩
        · exact userAt_ne_fileAt R _ user _ hl.symm
        · obtain ⟨huser, hname⟩ := fileAt_injective hl
          exact hnot ⟨huser.symm, (Bytes.ofText_injective hname).symm⟩

/-! ## §4 What is read -/

/-- A file that is there is read, all of it. -/
theorem Sound.read_held (h : Sound R s) (hplain : isPlainFilename filename = true)
    (hheld : Held R s user filename content) :
    outcome ((Call.read user filename).perform s) = .ok (.content content) := by
  have hleads := h.plain.leads_of_resolve hplain hheld
  have hread := readFile_eq { user, path := userPath s.registry.root user } hplain s.files
  have hresolve : s.files.resolve true
      ((userPath s.registry.root user).join ⟨Bytes.ofText filename⟩) = _ := hheld
  rw [hresolve] at hread
  rw [h.perform_leads user rfl rfl hleads, outcome_onFiles, files_meet]
  exact outcome_map_ok.mpr ⟨content, by rw [hread]; rfl, rfl⟩

/-- What is read is there. -/
theorem Sound.held_of_read (h : Sound R s) {a : Answer}
    (hok : outcome ((Call.read user filename).perform s) = .ok a) :
    isPlainFilename filename = true ∧ ∃ content, a = .content content ∧
      s.files.lookup (fileAt R user (Bytes.ofText filename)) = some (.file content) := by
  cases henter : outcome ((Call.read user filename).enter s) with
  | error e =>
    rw [Call.perform_error henter] at hok
    cases hok
  | ok d =>
    obtain ⟨s₁, hgoes, hplain₁, hleads, hfiles, hperform⟩ := h.entered user rfl henter
    rw [hperform, outcome_onFiles] at hok
    obtain ⟨content, hread, rfl⟩ := outcome_map_ok.mp hok
    have hrun := eq_ok_of_outcome hread
    obtain ⟨hplain, t, hload⟩ := load_of_read hrun
    refine ⟨hplain, content, rfl, ?_⟩
    rw [load_eq] at hload
    rw [← hfiles]
    split at hload
    · rename_i l content' hresolve
      cases hload
      obtain ⟨-, hlookup, -⟩ := hplain₁.location_of_resolve hplain hresolve
      exact hlookup
    · cases hload
    · cases hload
    · cases hload

end BackupVault.Registry
