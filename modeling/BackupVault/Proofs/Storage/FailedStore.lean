import BackupVault.Proofs.Storage.Results

/-!
# Files that could not be stored

Storing a file checks the name, makes the directory of the user, makes the file and fills it, and
each of these may fail.  A file that cannot be filled is taken away again, and a name that is not
plain is refused before anything is done; but a directory that was made, for a name that turns out
to be too long or a file that turns out to be too large, stays, and the user is remembered.

## Overview

- `UserDirectory.store_error`: what is left in the files
- `Registry.store_error_cases`: what is left in a storage
- `Registry.Unharmed`, `Registry.Confined`: what that means for users
- `Registry.failed_store`: all of it together
- `Registry.failed_store_seen`: a user that comes to be by a store that failed
-/

set_option autoImplicit false

namespace BackupVault

open FileTree

/-! ## §1 Files that cannot be filled -/

namespace UserDirectory

variable {t t' : FileTree} {content : Bytes} {e : StorageError} {filename : String}
  {d : UserDirectory}

/-- A file that could not be stored leaves nothing but the directory. -/
theorem store_error (hd : d.path.bytes.isEmpty = false) (hplain : isPlainFilename filename = true)
    (h : d.store filename content t = .error e t') :
    t' = after (makeDirectories d.path t) := by
  rw [store_eq hd hplain] at h
  cases hmake : makeDirectories d.path t with
  | error failure t₁ =>
    rw [hmake] at h
    cases h
    rfl
  | ok _ t₁ =>
    rw [hmake] at h
    simp only at h
    split at h
    · -- A file that could not be filled was taken away again.
      split at h
      · cases h
      · cases h
        rfl
    · cases h
      rfl
    · cases h
      rfl
    · cases h
      rfl

end UserDirectory

namespace Registry

variable {s s' : Storage} {t : FileTree} {root : Path} {R : Location} {user user' : UserId}
  {filename : String} {content : Bytes} {e : StorageError} {names : List String}

/-! ## §2 What is left -/

theorem userPath_nonempty (root : Path) (user : UserId) :
    (userPath root user).bytes.isEmpty = false := by
  have hnumber : (number user).isEmpty = false :=
    Path.isEmpty_eq_false.mpr (isStep_number user).ne_nil
  cases hroot : root.bytes.isEmpty with
  | true =>
    -- Nothing is joined to an empty root.
    rw [userPath, Path.join, hroot, Bool.or_true, if_pos rfl]
    exact hnumber
  | false => exact (Path.join_extends hroot (isStep_number user)).nonempty

theorem registry_meet_files (user : UserId) (s : Storage) (t : FileTree) :
    (meet user { s with files := t }).registry = (meet user s).registry := by
  unfold meet
  split <;> rfl

/-- What a file that could not be stored leaves of a storage. -/
theorem onFiles_store_error (hplain : isPlainFilename filename = true)
    (h : onFiles (UserDirectory.store { user, path := userPath root user } filename content) s =
      .error e s') :
    s'.registry = s.registry ∧ s'.files = after (makeDirectories (userPath root user) s.files) := by
  have hnonempty := userPath_nonempty root user
  cases hrun : UserDirectory.store { user, path := userPath root user } filename content
      s.files with
  | ok target t =>
    rw [onFiles_ok hrun] at h
    cases h
  | error e' t =>
    rw [onFiles_error hrun] at h
    cases h
    exact ⟨rfl, UserDirectory.store_error (d := { user, path := userPath root user }) hnonempty
      hplain hrun⟩

/-- A store that failed was refused, and nothing was done; or it could not make the directory of the
user; or it made the directory, once or twice, and got no further. -/
theorem store_error_cases (h : store user filename content s = .error e s') :
    s' = s ∨
      (s'.registry = s.registry ∧ ∃ cause,
        makeDirectories (userPath s.registry.root user) s.files = .error cause s'.files) ∨
      (s'.registry = (meet user s).registry ∧ ∃ t,
        makeDirectories (userPath s.registry.root user) s.files = .ok () t ∧
          (s'.files = t ∨
            s'.files = after (makeDirectories (userPath s.registry.root user) t))) := by
  have hget := getOrCreate_eq user s
  unfold store at h
  by_cases hplain : isPlainFilename filename = true
  · rw [bind_run_ok (check_plain hplain s)] at h
    by_cases hknown : s.registry.known.contains user = true
    · -- A user that is remembered is met already, and the directory makes itself.
      rw [if_pos hknown] at hget
      rw [bind_run_ok hget] at h
      obtain ⟨hregistry, hfiles⟩ := onFiles_store_error hplain h
      cases hmake : makeDirectories (userPath s.registry.root user) s.files with
      | ok _ t =>
        rw [hmake] at hfiles
        exact .inr (.inr ⟨by rw [hregistry, meet_of_known hknown], t, rfl, .inl hfiles⟩)
      | error cause t =>
        rw [hmake] at hfiles
        exact .inr (.inl ⟨hregistry, cause, congrArg _ hfiles.symm⟩)
    · rw [if_neg hknown] at hget
      cases hmake : makeDirectories (userPath s.registry.root user) s.files with
      | ok _ t =>
        rw [hmake] at hget
        rw [bind_run_ok hget] at h
        obtain ⟨hregistry, hfiles⟩ := onFiles_store_error hplain h
        rw [files_meet] at hfiles
        exact .inr (.inr ⟨hregistry.trans (registry_meet_files user s t), t, rfl, .inr hfiles⟩)
      | error cause t =>
        rw [hmake] at hget
        rw [bind_run_error hget] at h
        cases h
        exact .inr (.inl ⟨rfl, cause, rfl⟩)
  · rw [bind_run_error (check_not_plain hplain s)] at h
    cases h
    exact .inl rfl

/-- What making the directory of the user keeps is kept. -/
theorem files_of_store_error {P : FileTree → Prop}
    (hmake : Preserves P (makeDirectories (userPath s.registry.root user))) (hfiles : P s.files)
    (h : store user filename content s = .error e s') : P s'.files := by
  have hafter := hmake s.files hfiles
  rcases store_error_cases h with rfl | ⟨-, cause, hrun⟩ | ⟨-, t, hrun, hleft⟩
  · exact hfiles
  · rw [hrun] at hafter
    exact hafter
  · rw [hrun] at hafter
    rcases hleft with hleft | hleft
    · rw [hleft]
      exact hafter
    · rw [hleft]
      exact hmake t hafter

/-! ## §3 What users see -/

/-- The names of the files in a directory, in ascending order. -/
def namesIn (t : FileTree) (l : Location) : List String :=
  ((t.children l).filterMap UserDirectory.listed?).mergeSort fun a b => !(b < a)

theorem listFiles_eq_ok {d : UserDirectory} :
    outcome (d.list t) = .ok names ↔ ∃ l, t.Leads d.path l ∧ names = namesIn t l := by
  rw [listFiles_eq]
  simp only [Leads]
  cases hresolve : t.resolve true d.path with
  | error e => simp [outcome]
  | ok place =>
    obtain ⟨l, e?⟩ := place
    cases e? with
    | none => simp [outcome]
    | some e =>
      cases e with
      | directory =>
        simp only [outcome, Except.ok.injEq, Place.mk.injEq, and_true, exists_eq_left']
        exact eq_comm
      | file content => simp [outcome]
      | link target => simp [outcome]

/-- The files of a user are listed if the path of the user leads to a directory, whether the user is
remembered or not. -/
theorem list_eq_ok :
    outcome (list user s) = .ok names ↔
      ∃ l, s.files.Leads (userPath s.registry.root user) l ∧ names = namesIn s.files l := by
  unfold list
  rw [outcome_get_bind_eq_ok, listFiles_eq_ok, and_iff_right_iff_imp]
  rintro ⟨l, hleads, -⟩
  exact .inr ⟨l, hleads⟩

theorem readFile_eq_ok {d : UserDirectory} :
    outcome (d.read filename t) = .ok content ↔
      isPlainFilename filename = true ∧
        ∃ l, t.resolve true (d.path.join ⟨Bytes.ofText filename⟩) =
          .ok ⟨l, some (.file content)⟩ := by
  by_cases hplain : isPlainFilename filename = true
  · rw [readFile_eq _ hplain]
    simp only [hplain, true_and]
    cases hresolve : t.resolve true (d.path.join ⟨Bytes.ofText filename⟩) with
    | error e => cases e <;> simp [outcome]
    | ok place =>
      obtain ⟨l, e?⟩ := place
      cases e? with
      | none => simp [outcome]
      | some e => cases e <;> simp [outcome]
  · rw [read_not_plain _ hplain]
    simp [hplain, outcome]

/-- What is read where everything is that was there before, and nobody was forgotten. -/
theorem read_grows (hroot : s'.registry.root = s.registry.root)
    (hknown : ∀ user ∈ s.registry.known, user ∈ s'.registry.known) (hgrows : s.files.Grows s'.files)
    (hread : outcome (read user filename s) = .ok content) :
    outcome (read user filename s') = .ok content := by
  unfold read at hread ⊢
  rw [outcome_get_bind_eq_ok, readFile_eq_ok] at hread ⊢
  obtain ⟨hmet, hplain, l, hresolve⟩ := hread
  rw [hroot]
  exact ⟨hmet.imp (hknown user) fun ⟨l, hleads⟩ => ⟨l, hgrows.resolve hleads⟩, hplain, l,
    hgrows.resolve hresolve⟩

theorem namesIn_adds {t' : FileTree} (h : t.Adds t') (l : Location) :
    namesIn t' l = namesIn t l := by
  rw [namesIn, namesIn, h.listed]

theorem list_adds (hroot : s'.registry.root = s.registry.root) (hadds : s.files.Adds s'.files)
    (hlist : outcome (list user s) = .ok names) : outcome (list user s') = .ok names := by
  obtain ⟨l, hleads, hnames⟩ := list_eq_ok.mp hlist
  rw [list_eq_ok, hroot]
  exact ⟨l, hadds.grows.resolve hleads, hnames.trans (namesIn_adds hadds l).symm⟩

/-- What a store that failed leaves of a storage: everything that was there, and maybe directories
that were not, and the user may be remembered.  If the user had a directory, the files are as they
were. -/
structure Unharmed (user : UserId) (s s' : Storage) : Prop where
  registry : s'.registry = s.registry ∨ s'.registry = (meet user s).registry
  adds : s.files.Adds s'.files
  file : ∀ l content, s'.files.lookup l = some (.file content) ↔
    s.files.lookup l = some (.file content)
  read : ∀ user' filename content, outcome (Registry.read user' filename s) = .ok content →
    outcome (Registry.read user' filename s') = .ok content
  list : ∀ user' names, outcome (Registry.list user' s) = .ok names →
    outcome (Registry.list user' s') = .ok names
  same : ∀ l, s.files.Leads (userPath s.registry.root user) l → s'.files = s.files

theorem registry_of_store_error (h : store user filename content s = .error e s') :
    s'.registry = s.registry ∨ s'.registry = (meet user s).registry := by
  rcases store_error_cases h with rfl | ⟨hsame, -⟩ | ⟨hmeet, -⟩
  · exact .inl rfl
  · exact .inl hsame
  · exact .inr hmeet

theorem unharmed_of_store_error (h : store user filename content s = .error e s') :
    Unharmed user s s' := by
  have hregistry := registry_of_store_error h
  have hadds : s.files.Adds s'.files := files_of_store_error (makeDirectories_adds _ _) (.refl _) h
  have hroot : s'.registry.root = s.registry.root := by
    rcases hregistry with hsame | hmeet
    · rw [hsame]
    · rw [hmeet, root_meet]
  have hknown : ∀ user ∈ s.registry.known, user ∈ s'.registry.known := by
    rcases hregistry with hsame | hmeet
    · rw [hsame]
      exact fun _ hu => hu
    · rw [hmeet]
      exact fun _ hu => mem_known_meet.mpr (.inr hu)
  refine ⟨hregistry, hadds, hadds.file_iff, fun _ _ _ => read_grows hroot hknown hadds.grows,
    fun _ _ => list_adds hroot hadds, fun l hleads => ?_⟩
  refine files_of_store_error (P := (· = s.files)) ?_ rfl h
  rintro t rfl
  rw [makeDirectories_leads hleads]
  rfl

/-! ## §4 Roots with users' places -/

/-- The root leads to a directory, no link stands in the place of a user, and files of a user only
stand in the directory of the user. -/
structure Rooted (root : Path) (R : Location) (t : FileTree) : Prop where
  leads : t.Leads root R
  users : ∀ user target, t.lookup (userAt R user) ≠ some (.link target)
  inside : ∀ user name e, t.lookup (fileAt R user name) = some e →
    t.lookup (userAt R user) = some .directory

/-- The layout that the operations of a registry keep is such a root. -/
theorem Layout.rooted (h : Layout root R t) : Rooted root R t :=
  ⟨h.leads, h.user_not_link, fun user name e he => (h.files user name e he).1⟩

/-- Where no files stand none are listed. -/
theorem namesIn_nil (hnone : ∀ name, t.lookup (fileAt R user name) = none) :
    namesIn t (userAt R user) = [] := by
  have hnil : t.children (userAt R user) = [] := by
    refine List.eq_nil_iff_forall_not_mem.mpr ?_
    rintro ⟨name, e⟩ hchild
    exact lookup_ne_none_of_mem (mem_children.mp hchild) (hnone name)
  rw [namesIn, hnil, List.filterMap_nil, List.mergeSort_nil]

theorem Rooted.no_files (h : Rooted root R t) (hnone : t.lookup (userAt R user) = none)
    (name : Bytes) : t.lookup (fileAt R user name) = none := by
  cases hl : t.lookup (fileAt R user name) with
  | none => rfl
  | some e =>
    rw [h.inside user name e hl] at hnone
    cases hnone

/-- The directory of a user cannot be made, or it is there, or it comes to where nothing was. -/
theorem Rooted.makeDirectories_cases (h : Rooted root R t) (user : UserId) :
    (∃ cause, makeDirectories (userPath root user) t = .error cause t) ∨
      (t.Leads (userPath root user) (userAt R user) ∧
        makeDirectories (userPath root user) t = .ok () t) ∨
      (t.lookup (userAt R user) = none ∧
        makeDirectories (userPath root user) t = .ok () (t.insert (userAt R user) .directory) ∧
        (t.insert (userAt R user) .directory).Leads (userPath root user) (userAt R user)) := by
  have hmake := makeDirectories_userPath h.leads (h.users user)
  by_cases hsize : (userPath root user).bytes.size ≤ maxPath
  · rw [if_pos hsize] at hmake
    cases hl : t.lookup (userAt R user) with
    | none =>
      rw [hl] at hmake
      -- The path leads to the directory that is made.
      have hself := lookup_insert_self t (userAt_ne_nil R user) .directory
      have hlink (target : Path) : (t.insert (userAt R user) .directory).lookup (userAt R user) ≠
          some (.link target) := by simp [hself]
      have hlead := resolve_userPath ((grows_insert hl .directory).resolve h.leads) hlink true
      rw [if_pos hsize, hself] at hlead
      exact .inr (.inr ⟨rfl, hmake, hlead⟩)
    | some e =>
      rw [hl] at hmake
      cases e with
      | directory =>
        have hlead := resolve_userPath h.leads (h.users user) true
        rw [if_pos hsize, hl] at hlead
        exact .inr (.inl ⟨hlead, hmake⟩)
      | file content => exact .inl ⟨_, hmake⟩
      | link target => exact .inl ⟨_, hmake⟩
  · rw [if_neg hsize] at hmake
    exact .inl ⟨_, hmake⟩

/-- A list is told by what the path of the user leads to, the files there, and whether the user is
remembered. -/
theorem list_congr (hroot : s'.registry.root = s.registry.root)
    (hknown : user ∈ s'.registry.known ↔ user ∈ s.registry.known)
    (hresolve : s'.files.resolve true (userPath s.registry.root user) =
      s.files.resolve true (userPath s.registry.root user))
    (hnames : ∀ l, namesIn s'.files l = namesIn s.files l) :
    outcome (list user s') = outcome (list user s) := by
  have hgot : outcome (get user s') = outcome (get user s) := by
    rw [get_eq, get_eq, hroot, hresolve]
    simp only [List.contains_iff_mem, hknown]
    split
    · rfl
    · split <;> rfl
  unfold list
  cases hget : outcome (get user s) with
  | error e =>
    rw [bind_run_error (eq_error_of_outcome hget),
      bind_run_error (eq_error_of_outcome (hgot.trans hget))]
    rfl
  | ok d =>
    obtain ⟨rfl, -⟩ := outcome_get_eq_ok.mp hget
    rw [bind_run_ok (eq_ok_of_outcome hget), bind_run_ok (eq_ok_of_outcome (hgot.trans hget)),
      outcome_onFiles, outcome_onFiles, files_get, files_get, listFiles_eq, listFiles_eq]
    simp only [hresolve]
    split
    · exact congrArg Except.ok (hnames _)
    · rfl
    · rfl
    · rfl

/-- Nothing changed but that the user may have a directory now, without files. -/
structure Confined (R : Location) (user : UserId) (s s' : Storage) : Prop where
  files : s'.files = s.files ∨ s.files.lookup (userAt R user) = none ∧
    s'.files = s.files.insert (userAt R user) .directory
  others : ∀ user', user' ≠ user → outcome (list user' s') = outcome (list user' s)
  own : outcome (list user s') = outcome (list user s) ∨ outcome (list user s') = .ok []

theorem Confined.refl (R : Location) (user : UserId) (s : Storage) : Confined R user s s :=
  ⟨.inl rfl, fun _ _ => rfl, .inl rfl⟩

/-- A user that is met, whose path leads to a directory, sees what the user saw before. -/
theorem Rooted.confined_met (h : Rooted s.registry.root R s.files)
    (hregistry : s'.registry = (meet user s).registry)
    (hleads : s'.files.Leads (userPath s.registry.root user) (userAt R user))
    (hfiles : s'.files = s.files ∨ s.files.lookup (userAt R user) = none ∧
      s'.files = s.files.insert (userAt R user) .directory) : Confined R user s s' := by
  have hroot : s'.registry.root = s.registry.root := by rw [hregistry, root_meet]
  have hadds : s.files.Adds s'.files := by
    rcases hfiles with hsame | ⟨hnone, hinsert⟩
    · exact hsame ▸ .refl _
    · exact hinsert ▸ adds_insert hnone
  refine ⟨hfiles, fun user' hne => ?_, ?_⟩
  · -- In the place of another user there is what there was.
    have hplace : s'.files.lookup (userAt R user') = s.files.lookup (userAt R user') := by
      rcases hfiles with hsame | ⟨-, hinsert⟩
      · rw [hsame]
      · rw [hinsert, lookup_insert_of_ne _ fun heq => hne (userAt_injective heq)]
    refine list_congr hroot ?_ ?_ (namesIn_adds hadds)
    · rw [hregistry, mem_known_meet, or_iff_right hne]
    · rw [resolve_userPath h.leads (h.users user'),
        resolve_userPath (hadds.grows.resolve h.leads) (hplace ▸ h.users user'), hplace]
  · have hlist := list_eq_ok.mpr ⟨_, hroot.symm ▸ hleads, rfl⟩
    rcases hfiles with hsame | ⟨hnone, -⟩
    · left
      rw [hlist, hsame]
      exact (list_eq_ok.mpr ⟨_, hsame ▸ hleads, rfl⟩).symm
    · right
      rw [hlist, namesIn_adds hadds, namesIn_nil (h.no_files hnone)]

theorem confined_of_store_error (hrooted : Rooted s.registry.root R s.files)
    (h : store user filename content s = .error e s') : Confined R user s s' := by
  rcases store_error_cases h with rfl | ⟨hregistry, cause, hrun⟩ | ⟨hregistry, t, hrun, hleft⟩
  · exact .refl R user s'
  · rcases hrooted.makeDirectories_cases user with ⟨_, hmake⟩ | ⟨-, hmake⟩ | ⟨-, hmake, -⟩
    · -- The directory could not be made, so that nothing was done.
      rw [hmake] at hrun
      injection hrun with _ hfiles
      obtain ⟨registry, files⟩ := s'
      cases hregistry
      cases hfiles
      exact .refl R user s
    · rw [hmake] at hrun
      cases hrun
    · rw [hmake] at hrun
      cases hrun
  · rcases hrooted.makeDirectories_cases user with ⟨_, hmake⟩ | ⟨hleads, hmake⟩ |
      ⟨hnone, hmake, hleads⟩
    · rw [hmake] at hrun
      cases hrun
    · rw [hmake] at hrun
      cases hrun
      have hfiles : s'.files = s.files := by
        rw [hmake] at hleft
        exact hleft.elim id id
      exact hrooted.confined_met hregistry (hfiles ▸ hleads) (.inl hfiles)
    · rw [hmake] at hrun
      cases hrun
      have hfiles : s'.files = s.files.insert (userAt R user) .directory := by
        rw [makeDirectories_leads hleads] at hleft
        exact hleft.elim id id
      exact hrooted.confined_met hregistry (hfiles ▸ hleads) (.inr ⟨hnone, hfiles⟩)

/-! ## §5 Stores that fail -/

/-- **Failed stores**: a store that failed leaves all files as they were, and whatever could be read
or listed before still can; a name that is not plain changes nothing.  Below a root without links,
all that may come of it is a directory of the user without files. -/
theorem failed_store (h : store user filename content s = .error e s') :
    (isPlainFilename filename ≠ true → s' = s) ∧ Unharmed user s s' ∧
      ∀ R, Rooted s.registry.root R s.files → Confined R user s s' := by
  refine ⟨fun hplain => ?_, unharmed_of_store_error h, fun R hrooted =>
    confined_of_store_error hrooted h⟩
  unfold store at h
  rw [bind_run_error (check_not_plain hplain s)] at h
  cases h
  rfl

/-- A user without a directory, for whom a name too long for a file is tried: the directory is made,
and it stays. -/
def tried (R : Location) (user : UserId) (s : Storage) : Storage :=
  meet user { s with files := s.files.insert (userAt R user) .directory }

theorem store_too_long (h : Sound R s) (hnone : s.files.lookup (userAt R user) = none)
    (huser : (userPath s.registry.root user).bytes.size ≤ maxPath)
    (hplain : isPlainFilename filename = true)
    (hlong : maxSegment < (Bytes.ofText filename).size) (content : Bytes) :
    store user filename content s =
      .error (.io (filePath s.registry.root user filename) .nameTooLong) (tried R user s) := by
  obtain ⟨hplain', -⟩ := h.plain.insert_user hnone
  have hself := lookup_insert_self s.files (userAt_ne_nil R user) .directory
  have hleads := (hplain'.leads_iff user).mpr ⟨huser, hself⟩
  have hmake := h.plain.makeDirectories_eq user
  rw [if_pos huser, hnone] at hmake
  have hget := h.getOrCreate_eq user
  rw [hmake] at hget
  -- The path of the file is too long, or at least its last step is.
  have hresolve := hplain'.resolve_file user hplain false
  simp only [hself, Nat.not_le.mpr hlong, ↓reduceIte, ite_self] at hresolve
  have hstore := hplain'.store_leads hleads hplain content
  rw [hresolve] at hstore
  unfold store
  rw [bind_run_ok (check_plain hplain s), bind_run_ok hget]
  have hfiles : (tried R user s).files = s.files.insert (userAt R user) .directory := files_meet ..
  rw [← hfiles] at hstore
  exact onFiles_error hstore

/-- The user was not found before, and has an empty list afterwards. -/
theorem list_tried (h : Sound R s) (hnone : s.files.lookup (userAt R user) = none)
    (hfiles : ∀ name, s.files.lookup (fileAt R user name) = none)
    (huser : (userPath s.registry.root user).bytes.size ≤ maxPath) :
    outcome (list user s) = .error (.userNotFound user) ∧
      outcome (list user (tried R user s)) = .ok [] := by
  constructor
  · have hget := h.get_eq user
    rw [h.plain.resolve_user, if_pos huser, hnone] at hget
    unfold list
    rw [bind_run_error hget]
    rfl
  · obtain ⟨hplain, -⟩ := h.plain.insert_user hnone
    have hself := lookup_insert_self s.files (userAt_ne_nil R user) .directory
    have hmade : (tried R user s).files = s.files.insert (userAt R user) .directory :=
      files_meet ..
    have hroot : (tried R user s).registry.root = s.registry.root := root_meet ..
    rw [list_eq_ok, hroot, hmade]
    refine ⟨_, (hplain.leads_iff user).mpr ⟨huser, hself⟩, ?_⟩
    rw [namesIn_adds (adds_insert hnone), namesIn_nil hfiles]

/-! ### A name of 256 letters -/

def longName : String := String.ofList (List.replicate 256 'x')

theorem toList_longName : longName.toList = List.replicate 256 'x' := String.toList_ofList

theorem longName_plain : isPlainFilename longName = true := by
  have hne {s : String} (hs : s.toList.length < 256) : longName ≠ s := by
    rintro rfl
    rw [toList_longName, List.length_replicate] at hs
    exact Nat.lt_irrefl 256 hs
  have hchars : longName.toList.all
      (fun c => c ≠ '/' && c ≠ '\\' && c ≠ Char.ofNat 0) = true := by
    rw [toList_longName, List.all_replicate]
    rfl
  simp only [isPlainFilename, hchars, hne (s := "") (by decide), hne (s := ".") (by decide),
    hne (s := "..") (by decide), ne_eq, not_false_eq_true, decide_true, Bool.and_self]

theorem longName_long : maxSegment < (Bytes.ofText longName).size := by
  have hascii : ∀ c ∈ longName.toList, c.toNat < 128 := by
    rw [toList_longName]
    intro c hc
    rw [List.eq_of_mem_replicate hc]
    decide
  rw [Bytes.size_ofText_of_ascii hascii, toList_longName, List.length_replicate]
  decide

theorem store_longName :
    store 7 longName (Bytes.ofList [1]) vacant =
      .error (.io (filePath vacant.registry.root 7 longName) .nameTooLong) (tried [] 7 vacant) :=
  store_too_long vacant_sound (lookup_vacant (userAt_ne_nil [] 7)) (by decide +kernel)
    longName_plain longName_long _

/-- In an empty directory the user comes to be, and nothing else does. -/
theorem failed_store_vacant :
    store 7 longName (Bytes.ofList [1]) vacant =
        .error (.io (filePath vacant.registry.root 7 longName) .nameTooLong) (tried [] 7 vacant) ∧
      Unharmed 7 vacant (tried [] 7 vacant) ∧ Confined [] 7 vacant (tried [] 7 vacant) := by
  obtain ⟨-, hunharmed, hconfined⟩ := failed_store store_longName
  exact ⟨store_longName, hunharmed, hconfined [] layout_vacant.rooted⟩

/-- A store that failed can be seen: the user was not found before, and is known and on disk, with
an empty list, afterwards. -/
theorem failed_store_seen :
    outcome (list 7 vacant) = .error (.userNotFound 7) ∧
      outcome (store 7 longName (Bytes.ofList [1]) vacant) =
        .error (.io (filePath vacant.registry.root 7 longName) .nameTooLong) ∧
      outcome (list 7 (after (store 7 longName (Bytes.ofList [1]) vacant))) = .ok [] ∧
      (after (store 7 longName (Bytes.ofList [1]) vacant)).registry.known = [7] ∧
      (after (store 7 longName (Bytes.ofList [1]) vacant)).files.lookup (userAt [] 7) =
        some .directory := by
  have hfiles (name : Bytes) : vacant.files.lookup (fileAt [] 7 name) = none :=
    lookup_vacant (fileAt_ne_nil [] 7 name)
  obtain ⟨hbefore, hafter⟩ := list_tried vacant_sound (lookup_vacant (userAt_ne_nil [] 7)) hfiles
    (by decide +kernel)
  rw [store_longName]
  refine ⟨hbefore, rfl, hafter, rfl, ?_⟩
  exact lookup_insert_self {} (userAt_ne_nil [] 7) .directory

end Registry

end BackupVault
