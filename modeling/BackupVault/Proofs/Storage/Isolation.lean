import BackupVault.Proofs.Storage.Results

/-!
# Users do not see each other

What is answered to a call of a user is told by what stands at the place of this user and below it,
and so is what stands there afterwards; nothing else in the tree, and nothing that is remembered,
makes a difference.  A call of another user leaves all of that as it is.

## Overview

- `Registry.Same`: trees that are the same for a user; `Registry.Call.task_same`
- `Registry.Alike`: storages that are the same for a user; `Registry.Call.perform_alike`
- `Registry.Sound.perform_within`: where a call changes files
- `Registry.Alike.other`: calls of others make no difference
-/

set_option autoImplicit false

namespace BackupVault.Registry

open FileTree

/-! ## §1 Trees that are the same for a user -/

/-- No link is in the way in either tree, and the same stands at the place of the user and below. -/
structure Same (root : Path) (R : Location) (user : UserId) (t t' : FileTree) : Prop where
  left : Plain root R t
  right : Plain root R t'
  below : t.below (userAt R user) = t'.below (userAt R user)

section Same

variable {root : Path} {R : Location} {user : UserId} {t t' : FileTree} {filename : String}

theorem Same.lookup_user (h : Same root R user t t') :
    t.lookup (userAt R user) = t'.lookup (userAt R user) :=
  lookup_of_below h.below (List.prefix_refl _)

theorem Same.resolve_user (h : Same root R user t t') (follow : Bool) :
    t.resolve follow (userPath root user) = t'.resolve follow (userPath root user) := by
  rw [h.left.resolve_user, h.right.resolve_user, h.lookup_user]

theorem Same.resolve_file (h : Same root R user t t') (hplain : isPlainFilename filename = true)
    (follow : Bool) :
    t.resolve follow (filePath root user filename) =
      t'.resolve follow (filePath root user filename) := by
  rw [h.left.resolve_file user hplain, h.right.resolve_file user hplain, h.lookup_user,
    lookup_of_below h.below (userAt_prefix_fileAt R user _)]

theorem makeDirectories_same : Agrees (Same root R user) (makeDirectories (userPath root user)) := by
  intro t t' h
  rw [h.left.makeDirectories_eq, h.right.makeDirectories_eq, ← h.lookup_user]
  split
  · split
    · rename_i hnone
      exact ⟨rfl, (h.left.insert_user hnone).1, (h.right.insert_user (h.lookup_user ▸ hnone)).1,
        below_insert_congr h.below .directory⟩
    · exact ⟨rfl, h⟩
    · exact ⟨rfl, h⟩
  · exact ⟨rfl, h⟩

/-- Where no directory stands in the place of a file, the same is put there, or taken away. -/
theorem Same.set_file (h : Same root R user t t') (hplain : isPlainFilename filename = true)
    {l : Location} {e? : Option Entry}
    (hresolve : t.resolve false (filePath root user filename) = .ok ⟨l, e?⟩)
    (he? : e? ≠ some .directory) :
    (∀ content, Same root R user (t.insert l (.file content)) (t'.insert l (.file content))) ∧
      Same root R user (t.erase l) (t'.erase l) := by
  obtain ⟨rfl, hentry, -⟩ := h.left.location_of_resolve hplain hresolve
  have hnil := fileAt_ne_nil R user (Bytes.ofText filename)
  have hold : t.lookup (fileAt R user (Bytes.ofText filename)) ≠ some .directory := hentry.symm ▸ he?
  have hold' : t'.lookup (fileAt R user (Bytes.ofText filename)) ≠ some .directory := by
    rwa [← lookup_of_below h.below (userAt_prefix_fileAt R user _)]
  exact ⟨fun content => ⟨(h.left.sets_file hold (by simp) (sets_insert t hnil _)).1,
      (h.right.sets_file hold' (by simp) (sets_insert t' hnil _)).1, below_insert_congr h.below _⟩,
    (h.left.sets_file hold (by simp) (sets_erase t hnil)).1,
      (h.right.sets_file hold' (by simp) (sets_erase t' hnil)).1, below_erase_congr h.below⟩

theorem store_same (filename : String) (content : Bytes) :
    Agrees (Same root R user)
      (UserDirectory.store { user, path := userPath root user } filename content) := by
  intro t t' h
  by_cases hplain : isPlainFilename filename = true
  · rw [h.left.store_eq user hplain, h.right.store_eq user hplain]
    obtain ⟨htold, hmade⟩ := makeDirectories_same t t' h
    cases hmake : makeDirectories (userPath root user) t with
    | error e t₁ =>
      rw [hmake] at htold hmade
      obtain ⟨t₁', hmake'⟩ : ∃ t₁', makeDirectories (userPath root user) t' = .error e t₁' :=
        ⟨_, eq_error_of_outcome htold.symm⟩
      rw [hmake'] at hmade ⊢
      exact ⟨rfl, hmade⟩
    | ok _ t₁ =>
      rw [hmake] at htold hmade
      obtain ⟨t₁', hmake'⟩ : ∃ t₁', makeDirectories (userPath root user) t' = .ok () t₁' :=
        ⟨_, eq_ok_of_outcome htold.symm⟩
      rw [hmake'] at hmade ⊢
      simp only [after] at hmade ⊢
      -- With the directory made, the path of the file leads to the same in both trees.
      rw [← hmade.resolve_file hplain]
      split
      · rename_i l hresolve
        exact ⟨rfl, (hmade.set_file hplain hresolve (by simp)).1 content⟩
      · exact ⟨rfl, hmade⟩
      · exact ⟨rfl, hmade⟩
      · exact ⟨rfl, hmade⟩
  · rw [store_not_plain _ hplain, store_not_plain _ hplain]
    exact ⟨rfl, h⟩

theorem read_same (filename : String) :
    Agrees (Same root R user) (UserDirectory.read { user, path := userPath root user } filename) := by
  intro t t' h
  rw [after_read, after_read]
  refine ⟨?_, h⟩
  by_cases hplain : isPlainFilename filename = true
  · have hresolve := h.resolve_file hplain true
    rw [filePath] at hresolve
    rw [readFile_eq _ hplain, readFile_eq _ hplain]
    simp only [hresolve]
    split <;> rfl
  · rw [read_not_plain _ hplain, read_not_plain _ hplain]
    rfl

theorem list_same :
    Agrees (Same root R user) (UserDirectory.list { user, path := userPath root user }) := by
  intro t t' h
  rw [after_list, after_list]
  refine ⟨?_, h⟩
  rw [listFiles_eq, listFiles_eq]
  simp only [h.resolve_user]
  split
  · -- The names are those below the place of the user.
    rename_i l hresolve
    rw [h.right.resolve_user] at hresolve
    split at hresolve
    · rw [← (Place.mk.inj (Except.ok.inj hresolve)).1, children_of_below h.below]
      rfl
    · cases hresolve
  · rfl
  · rfl
  · rfl

theorem delete_same (filename : String) :
    Agrees (Same root R user)
      (UserDirectory.delete { user, path := userPath root user } filename) := by
  intro t t' h
  by_cases hplain : isPlainFilename filename = true
  · have hresolve := h.resolve_file hplain false
    rw [filePath] at hresolve
    rw [deleteFile_eq _ hplain, deleteFile_eq _ hplain]
    simp only [← hresolve]
    split
    · exact ⟨rfl, h⟩
    · rename_i l e hnot hfile
      exact ⟨rfl, (h.set_file hplain hfile (by simpa using hnot)).2⟩
    · exact ⟨rfl, h⟩
    · exact ⟨rfl, h⟩
    · exact ⟨rfl, h⟩
  · rw [delete_not_plain _ hplain, delete_not_plain _ hplain]
    exact ⟨rfl, h⟩

/-- What comes of a task is told by what stands at the place of the user and below. -/
theorem Call.task_same (c : Call) :
    Agrees (Same root R c.user) (c.task { user := c.user, path := userPath root c.user }) := by
  cases c with
  | store user filename content => exact (store_same filename content).bind fun _ => .pure _
  | read user filename => exact (read_same filename).bind fun _ => .pure _
  | list user => exact list_same.bind fun _ => .pure _
  | delete user filename => exact (delete_same filename).bind fun _ => .pure _

end Same

/-! ## §2 Storages that are the same for a user -/

/-- Sound storages on the same root, with the same at the place of the user and below.  What they
remember, and what else is in their files, may differ. -/
structure Alike (R : Location) (user : UserId) (s s' : Storage) : Prop where
  left : Sound R s
  right : Sound R s'
  root : s'.registry.root = s.registry.root
  below : s.files.below (userAt R user) = s'.files.below (userAt R user)

section Alike

variable {R : Location} {user : UserId} {s s' s₁ : Storage} {d : UserDirectory}

theorem Alike.refl (h : Sound R s) (user : UserId) : Alike R user s s := ⟨h, h, rfl, rfl⟩

theorem Alike.same (h : Alike R user s s') :
    Same s.registry.root R user s.files s'.files :=
  ⟨h.left.plain, h.root ▸ h.right.plain, h.below⟩

theorem Alike.goes (h : Alike R user s s') {s₁ s₁' : Storage} (hgoes : Goes R s s₁)
    (hgoes' : Goes R s' s₁')
    (hbelow : s₁.files.below (userAt R user) = s₁'.files.below (userAt R user)) :
    Alike R user s₁ s₁' :=
  ⟨hgoes.sound, hgoes'.sound, hgoes'.root.trans (h.root.trans hgoes.root.symm), hbelow⟩

theorem get_alike (user : UserId) : Agrees (Alike R user) (get user) := by
  intro s s' h
  have htold : outcome (get user s) = outcome (get user s') := by
    rw [h.left.get_eq, h.right.get_eq, h.root, ← h.same.resolve_user]
    split <;> rfl
  refine ⟨htold, h.goes (h.left.get_goes user).1 (h.right.get_goes user).1 ?_⟩
  rw [files_get, files_get, h.below]

theorem getOrCreate_alike (user : UserId) : Agrees (Alike R user) (getOrCreate user) := by
  intro s s' h
  obtain ⟨hmade, hsame⟩ := makeDirectories_same s.files s'.files h.same
  have htold : outcome (getOrCreate user s) = outcome (getOrCreate user s') ∧
      (after (getOrCreate user s)).files.below (userAt R user) =
        (after (getOrCreate user s')).files.below (userAt R user) := by
    rw [h.left.getOrCreate_eq, h.right.getOrCreate_eq, h.root]
    cases hmake : makeDirectories (userPath s.registry.root user) s.files with
    | ok _ t =>
      rw [hmake] at hmade hsame
      obtain ⟨t', hmake'⟩ : ∃ t', makeDirectories (userPath s.registry.root user) s'.files =
          .ok () t' := ⟨_, eq_ok_of_outcome hmade.symm⟩
      rw [hmake'] at hsame ⊢
      simp only [after, files_meet] at hsame ⊢
      exact ⟨rfl, hsame.below⟩
    | error e t =>
      rw [hmake] at hmade hsame
      obtain ⟨t', hmake'⟩ : ∃ t', makeDirectories (userPath s.registry.root user) s'.files =
          .error e t' := ⟨_, eq_error_of_outcome hmade.symm⟩
      rw [hmake'] at hsame ⊢
      exact ⟨rfl, hsame.below⟩
  exact ⟨htold.1, h.goes (h.left.getOrCreate_goes user).1 (h.right.getOrCreate_goes user).1 htold.2⟩

theorem enter_alike (c : Call) : Agrees (Alike R c.user) c.enter :=
  c.agrees_of_getting (get_alike c.user) (getOrCreate_alike c.user)

theorem Alike.task {c : Call} (h : Alike R c.user s s')
    (hd : d = { user := c.user, path := userPath s.registry.root c.user }) :
    outcome (onFiles (c.task d) s) = outcome (onFiles (c.task d) s') ∧
      Alike R c.user (after (onFiles (c.task d) s)) (after (onFiles (c.task d) s')) := by
  have hgoes := h.left.task_goes hd
  have hgoes' := h.right.task_goes (c := c) (h.root ▸ hd)
  subst hd
  obtain ⟨htold, hsame⟩ := c.task_same s.files s'.files h.same
  refine ⟨by rw [outcome_onFiles, outcome_onFiles, htold], h.goes hgoes hgoes' ?_⟩
  rw [after_onFiles, after_onFiles]
  exact hsame.below

/-- What is answered to a call of the user, and what stands at the place of the user and below it
afterwards, is the same. -/
theorem Call.perform_alike (c : Call) : Agrees (Alike R c.user) c.perform := by
  intro s s' h
  obtain ⟨htold, hentered⟩ := enter_alike c s s' h
  cases henter : outcome (c.enter s) with
  | error e =>
    rw [Call.perform_error henter, Call.perform_error (htold ▸ henter)]
    exact ⟨rfl, hentered⟩
  | ok d =>
    rw [Call.perform_ok henter, Call.perform_ok (htold ▸ henter)]
    obtain ⟨hgoes, hd⟩ := h.left.enter_goes c
    exact hentered.task (hgoes.root ▸ (hd d henter).1)

end Alike

/-! ## §3 Calls of others -/

section Others

variable {R : Location} {user : UserId} {s s' : Storage}

/-- Getting a directory changes no place but that of the directory. -/
theorem Sound.enter_within (h : Sound R s) (c : Call) :
    Within s.registry.root R c.user (c.filename?.getD "") s.files (after (c.enter s)).files := by
  have hget (user : UserId) (filename : String) :
      Within s.registry.root R user filename s.files (after (get user s)).files := by
    rw [files_get]
    exact .refl h.plain user filename
  cases c with
  | store user filename content =>
    rw [Call.enter_store]
    by_cases hplain : isPlainFilename filename = true
    · have hmade := h.plain.makeDirectories_within user hplain
      rw [bind_run_ok (check_plain hplain s), h.getOrCreate_eq]
      cases hmake : makeDirectories (userPath s.registry.root user) s.files with
      | ok _ t =>
        rw [hmake] at hmade
        simp only [after, files_meet]
        exact hmade
      | error e t =>
        rw [hmake] at hmade
        exact hmade
    · rw [bind_run_error (check_not_plain hplain s)]
      exact .refl h.plain user filename
  | read user filename => exact hget user filename
  | list user => exact hget user ""
  | delete user filename => exact hget user filename

/-- A call changes no places but those of the file that it is about. -/
theorem Sound.perform_within (h : Sound R s) (c : Call) :
    Within s.registry.root R c.user (c.filename?.getD "") s.files (after (c.perform s)).files := by
  have hentered := h.enter_within c
  cases henter : outcome (c.enter s) with
  | error e =>
    rw [Call.perform_error henter]
    exact hentered
  | ok d =>
    obtain ⟨-, hd⟩ := h.enter_goes c
    obtain ⟨rfl, -⟩ := hd d henter
    rw [Call.perform_ok henter, after_onFiles]
    exact hentered.trans (c.task_within hentered.plain)

/-- A call of another user changes nothing at the place of the user, or below. -/
theorem Sound.below_other (h : Sound R s) {c : Call} (hne : user ≠ c.user) :
    (after (c.perform s)).files.below (userAt R user) = s.files.below (userAt R user) :=
  (h.perform_within c).changes.below fun _ hl => not_prefix_of_ne hne hl

/-- So it makes no difference to the user. -/
theorem Alike.other (h : Alike R user s s') {c : Call} (hne : user ≠ c.user) :
    Alike R user (after (c.perform s)) s' :=
  h.goes (h.left.perform_goes c) (.refl h.right) ((h.left.below_other hne).trans h.below)

end Others

end BackupVault.Registry
