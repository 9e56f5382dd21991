import BackupVault.Proofs.Backup.Answer
import BackupVault.Proofs.Storage.FailedStore
import BackupVault.Proofs.Storage.Limits
import BackupVault.Proofs.Upload.SessionLog

/-!
# Files that were acknowledged

A client is told that its file was stored if, and only if, storing it succeeded.  Where files are
limited in size, a content that is over the limit may still be acknowledged, if only its last piece
is; then the beginning of the content is on disk, up to the limit, and the rest is lost.

## Overview

- `Registry.outcome_store_unlimited`: what a limit changes in the outcome of a store
- `Registry.read_stored`: what is read of a file that was stored
- `Registry.acknowledged_stores`: what an acknowledgement is worth
- `Registry.acknowledged_cut_off`: an acknowledged file that is not whole
-/

set_option autoImplicit false

namespace BackupVault

open FileTree UserDirectory

namespace FileTree

variable {t : FileTree} {l base : Location} {p : Path} {links : Nat} {segments : List Bytes}
  {content : Bytes}

/-- A file that is found without following a link at the end is found by following links as
well. -/
theorem walk_follow (h : t.walk false links base segments = .ok ⟨l, some (.file content)⟩) :
    t.walk true links base segments = .ok ⟨l, some (.file content)⟩ := by
  generalize hfollow : false = follow at h
  fun_induction FileTree.walk t follow links base segments with
  | case1 links base => rw [walk, ← h]
  | case5 links base s rest hbase hidle ih => exact (walk_idle hbase hidle true links).trans (ih h)
  | case6 links base rest hbase hidle ih => exact (walk_above hbase true links).trans (ih h)
  | case8 | case10 =>
    injection h with h
    injection h with hl he
    cases he
  | case12 base s rest hbase hidle habove hsize next target hnext hend links ih =>
    have hrest : ¬ (rest.isEmpty && !true) = true := by simp
    rw [walk_step hbase (Bool.eq_false_iff.mpr hidle) habove (Nat.not_lt.mp hsize), hnext]
    exact (if_neg hrest).trans (ih h)
  | case13 links base s rest hbase hidle habove hsize next hnext ih =>
    rw [walk_step hbase (Bool.eq_false_iff.mpr hidle) habove (Nat.not_lt.mp hsize), hnext]
    exact ih h
  | case14 links base s rest hbase hidle habove hsize next content hnext hend =>
    rw [walk_step hbase (Bool.eq_false_iff.mpr hidle) habove (Nat.not_lt.mp hsize), hnext]
    exact (if_pos hend).trans h
  | case2 | case3 | case4 | case7 | case9 | case11 | case15 => cases h

theorem resolve_follow (h : t.resolve false p = .ok ⟨l, some (.file content)⟩) :
    t.resolve true p = .ok ⟨l, some (.file content)⟩ := by
  obtain ⟨hne, hzero, hsize, hwalk⟩ := inv_of_resolve h
  rw [resolve_eq_walk hne hzero hsize]
  exact walk_follow hwalk

end FileTree

/-- The same storage, where files may grow without limit. -/
def Storage.unlimited (s : Storage) : Storage := { s with files := s.files.unlimited }

namespace Registry

variable {s s' : Storage} {user : UserId} {filename : String} {content : Bytes} {target : Path}

/-! ## §1 What storing comes to -/

theorem meet_unlimited (user : UserId) (s : Storage) :
    meet user s.unlimited = (meet user s).unlimited := by
  unfold meet
  change (if s.registry.known.contains user = true then _ else _) = _
  split <;> rfl

/-- Getting the directory of a user does the same whether there is a limit or not. -/
theorem getOrCreate_unlimited (user : UserId) (s : Storage) :
    getOrCreate user s.unlimited =
      match getOrCreate user s with
      | .ok d s' => .ok d s'.unlimited
      | .error e s' => .error e s'.unlimited := by
  have hmake := limitless_makeDirectories (userPath s.registry.root user) s.files
  rw [getOrCreate_eq, getOrCreate_eq]
  by_cases hknown : s.registry.known.contains user = true
  · simp only [Storage.unlimited, hknown, ↓reduceIte]
  · simp only [Storage.unlimited, hknown, Bool.false_eq_true, ↓reduceIte, hmake]
    cases makeDirectories (userPath s.registry.root user) s.files with
    | error e t => rfl
    | ok _ t => exact congrArg _ (meet_unlimited user { s with files := t })

/-- Who got a directory is remembered, and the limit is what it was. -/
theorem of_getOrCreate_ok {d : UserDirectory} (h : getOrCreate user s = .ok d s') :
    d = { user, path := userPath s'.registry.root user } ∧ user ∈ s'.registry.known ∧
      s'.files.sizeLimit = s.files.sizeLimit := by
  rw [getOrCreate_eq] at h
  by_cases hknown : s.registry.known.contains user = true
  · rw [if_pos hknown] at h
    cases h
    exact ⟨rfl, List.contains_iff_mem.mp hknown, rfl⟩
  · rw [if_neg hknown] at h
    have hadds := makeDirectories_adds s.files (userPath s.registry.root user) _ (.refl _)
    cases hmake : makeDirectories (userPath s.registry.root user) s.files with
    | error e t =>
      rw [hmake] at h
      cases h
    | ok _ t =>
      rw [hmake] at h hadds
      cases h
      refine ⟨by rw [root_meet], mem_known_meet.mpr (.inl rfl), ?_⟩
      rw [files_meet]
      exact hadds.sizeLimit

/-- **Stores under a limit**: a store that would fail without the limit fails in the same way, and
one that would succeed fails if, and only if, its content is over the limit before its last
piece. -/
theorem outcome_store_unlimited (user : UserId) (filename : String) (content : Bytes)
    (s : Storage) :
    outcome (store user filename content s) =
      noticed s.files.sizeLimit content.size
        (outcome (store user filename content s.unlimited)) := by
  unfold store
  by_cases hplain : isPlainFilename filename = true
  · rw [bind_run_ok (check_plain hplain s), bind_run_ok (check_plain hplain s.unlimited)]
    have hget := getOrCreate_unlimited user s
    cases h : getOrCreate user s with
    | error e s' =>
      rw [h] at hget
      rw [bind_run_error h, bind_run_error hget]
      rfl
    | ok d s' =>
      rw [h] at hget
      obtain ⟨rfl, -, hlimit⟩ := of_getOrCreate_ok h
      have hstore := UserDirectory.outcome_store_unlimited
        (d := { user, path := userPath s'.registry.root user })
        (userPath_nonempty s'.registry.root user) hplain content s'.files
      rw [hlimit] at hstore
      rw [bind_run_ok h, bind_run_ok hget, outcome_onFiles, outcome_onFiles]
      exact hstore
  · rw [bind_run_error (check_not_plain hplain s),
      bind_run_error (check_not_plain hplain s.unlimited)]
    rfl

/-- What a user reads of the file it stored is what of it is within the limit. -/
theorem read_stored (h : store user filename content s = .ok target s') :
    outcome (read user filename s') = .ok (fitting s.files.sizeLimit content) := by
  unfold store at h
  by_cases hplain : isPlainFilename filename = true
  · rw [bind_run_ok (check_plain hplain s)] at h
    obtain ⟨d, s₁, hget, hrun⟩ := bind_run_eq_ok.mp h
    obtain ⟨rfl, hknown, hlimit⟩ := of_getOrCreate_ok hget
    cases hstore : UserDirectory.store { user, path := userPath s₁.registry.root user } filename
        content s₁.files with
    | error e t =>
      rw [onFiles_error hstore] at hrun
      cases hrun
    | ok _ t =>
      rw [onFiles_ok hstore] at hrun
      cases hrun
      obtain ⟨rfl, l, hresolve⟩ := UserDirectory.resolve_of_store_ok
        (d := { user, path := userPath s₁.registry.root user })
        (userPath_nonempty s₁.registry.root user) hplain hstore
      rw [hlimit] at hresolve
      unfold read
      rw [outcome_get_bind_eq_ok, readFile_eq_ok]
      exact ⟨.inl hknown, hplain, l, resolve_follow hresolve⟩
  · rw [bind_run_error (check_not_plain hplain s)] at h
    cases h

/-! ## §2 What clients are told -/

/-- A request to back up a file is told that it was done if, and only if, it was. -/
theorem answer_done_iff (version version' : UInt8) (label : String) :
    (Backup.answer version label
        { version := version', user, body := .backup filename content } s).1.body =
      .done filename ↔ ∃ target s', store user filename content s = .ok target s' := by
  rw [Backup.answer_eq]
  change Backup.bodyFor label (.backup filename content)
    (outcome ((Call.store user filename content).perform s)) = .done filename ↔ _
  rw [Call.perform, outcome_map]
  cases store user filename content s with
  | ok target s' => exact ⟨fun _ => ⟨target, s', rfl⟩, fun _ => rfl⟩
  | error e s' =>
    constructor
    · intro h
      cases h
    · rintro ⟨target, s', ⟨⟩⟩

/-- A session sends word of success if, and only if, the upload was stored. -/
theorem act_success_iff (client : ClientId) (v : Vault) :
    (Session.act (Session.actStore client filename content) v).1.reply = some .success ↔
      ∃ target s', store client.storageId filename content v.storage = .ok target s' := by
  rw [Session.act_store, Session.storing]
  cases store client.storageId filename content v.storage with
  | ok target s' => exact ⟨fun _ => ⟨target, s', rfl⟩, fun _ => rfl⟩
  | error e s' =>
    constructor
    · intro h
      cases h
    · rintro ⟨target, s', ⟨⟩⟩

/-! ## §3 What an acknowledgement is worth -/

/-- At most the last piece of a content is lost. -/
theorem le_size_fitting {limit : Option Nat} (h : Fits limit (reportedSize content.size)) :
    content.size ≤ (fitting limit content).size + pieceSize := by
  cases limit with
  | none => exact Nat.le_add_right _ _
  | some n =>
    have hle := le_reportedSize_add content.size
    rw [fits_some] at h
    rw [fitting, ByteArray.size_extract]
    omega

theorem fits_of_store_ok (h : store user filename content s = .ok target s') :
    Fits s.files.sizeLimit (reportedSize content.size) := by
  have htold := outcome_store_unlimited user filename content s
  rw [h] at htold
  by_contra hfits
  cases hunlimited : outcome (store user filename content s.unlimited) with
  | ok target' =>
    rw [hunlimited, noticed, if_neg hfits] at htold
    cases htold
  | error e =>
    rw [hunlimited] at htold
    cases htold

/-- **Acknowledged stores**: a store succeeds if it would without a limit on sizes and its content
is within the limit before its last piece, and it is acknowledged if, and only if, it succeeds.
What is on disk then is the content up to the limit, and that is all of it if, and only if, it is
within the limit; otherwise some of the last piece is missing. -/
theorem acknowledged_stores (user : UserId) (filename : String) (content : Bytes) (s : Storage) :
    outcome (store user filename content s) =
        noticed s.files.sizeLimit content.size
          (outcome (store user filename content s.unlimited)) ∧
      (∀ version version' label, (Backup.answer version label
          { version := version', user, body := .backup filename content } s).1.body =
        .done filename ↔ ∃ target s', store user filename content s = .ok target s') ∧
      (∀ client v, client.storageId = user → v.storage = s →
        ((Session.act (Session.actStore client filename content) v).1.reply = some .success ↔
          ∃ target s', store user filename content s = .ok target s')) ∧
      ∀ target s', store user filename content s = .ok target s' →
        outcome (read user filename s') = .ok (fitting s.files.sizeLimit content) ∧
        (outcome (read user filename s') = .ok content ↔ Fits s.files.sizeLimit content.size) ∧
        content.size ≤ (fitting s.files.sizeLimit content).size + pieceSize := by
  refine ⟨outcome_store_unlimited user filename content s,
    fun version version' label => answer_done_iff version version' label, ?_, ?_⟩
  · rintro client v rfl rfl
    exact act_success_iff client v
  · intro target s' h
    have hread := read_stored h
    refine ⟨hread, ?_, le_size_fitting (fits_of_store_ok h)⟩
    rw [hread, Except.ok.injEq]
    exact fitting_eq_iff

/-! ### A disk with room for one byte -/

/-- An empty directory where no file may grow beyond a size. -/
def cramped (n : Nat) : Storage := { vacant with files := { sizeLimit := some n } }

theorem store_cramped (b : Bytes) {n : Nat} (hn : reportedSize b.size ≤ n) :
    ∃ target s', store 7 "a" b (cramped n) = .ok target s' := by
  have hplain : isPlainFilename "a" = true := by decide
  have hnew : vacant.files.lookup (fileAt [] 7 (Bytes.ofText "a")) = none :=
    lookup_vacant (fileAt_ne_nil [] 7 _)
  obtain ⟨target, s', hrun, -⟩ := store_new (s := vacant) layout_vacant hplain (by decide) hnew b
  have htold := outcome_store_unlimited 7 "a" b (cramped n)
  have hvacant : (cramped n).unlimited = vacant := rfl
  have hlimit : (cramped n).files.sizeLimit = some n := rfl
  rw [hvacant, hrun, hlimit] at htold
  rw [outcome, noticed, if_pos (fits_some.mpr hn)] at htold
  exact ⟨target, _, eq_ok_of_outcome htold⟩

/-- Two bytes are whole where there is room for both. -/
theorem acknowledged_stores_cramped :
    ∃ target s', store 7 "a" (Bytes.ofList [1, 2]) (cramped 2) = .ok target s' ∧
      outcome (read 7 "a" s') = .ok (Bytes.ofList [1, 2]) := by
  obtain ⟨target, s', hstore⟩ := store_cramped (Bytes.ofList [1, 2]) (n := 2) (by decide)
  obtain ⟨-, -, -, hworth⟩ := acknowledged_stores 7 "a" (Bytes.ofList [1, 2]) (cramped 2)
  exact ⟨target, s', hstore, (hworth target s' hstore).2.1.mpr (fits_some.mpr (by decide))⟩

/-- Where there is room for one byte only, a client with two bytes is told that they were stored,
and one of them is on disk. -/
theorem acknowledged_cut_off :
    (Backup.answer 1 ""
        { version := 1, user := 7, body := .backup "a" (Bytes.ofList [1, 2]) }
        (cramped 1)).1.body = .done "a" ∧
      ∃ target s', store 7 "a" (Bytes.ofList [1, 2]) (cramped 1) = .ok target s' ∧
        outcome (read 7 "a" s') = .ok (Bytes.ofList [1]) ∧
        Bytes.ofList [1] ≠ Bytes.ofList [1, 2] := by
  obtain ⟨target, s', hstore⟩ := store_cramped (Bytes.ofList [1, 2]) (n := 1) (by decide)
  exact ⟨(answer_done_iff 1 1 "").mpr ⟨target, s', hstore⟩, target, s', hstore,
    (read_stored hstore).trans (congrArg Except.ok (by decide)), by decide⟩

end Registry

end BackupVault
