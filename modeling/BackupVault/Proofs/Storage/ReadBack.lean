import BackupVault.Proofs.Storage.Additions
import BackupVault.Proofs.Storage.Files

/-!
# What was written is read back

A file is written only where its path finds it.  The path leads there again afterwards, through the
same directories and links, and finds what was written.

## Overview

- `FileTree.Sets.walk`: a walk to a file whose content changes
- `FileTree.wrote_of_save`: what writing a file has done
- `FileTree.load_of_save`: reading it
-/

set_option autoImplicit false

namespace BackupVault.FileTree

variable {t t' : FileTree} {p : Path} {l base : Location} {follow : Bool} {links : Nat}
  {segments : List Bytes} {old b : Bytes}

/-- A walk to a file goes through directories and links only, so that it goes the same way and finds
the content that the file has now. -/
theorem Sets.walk (h : t.Sets l (some (.file b)) t')
    (hwalk : t.walk follow links base segments = .ok ⟨l, some (.file old)⟩) :
    t'.walk follow links base segments = .ok ⟨l, some (.file b)⟩ := by
  have hkeeps : t.Keeps t' := by
    apply h.keeps
    intro e he
    exact ⟨old, Option.some.inj (he.symm.trans (lookup_of_walk hwalk))⟩
  fun_induction FileTree.walk t follow links base segments with
  | case1 links base =>
    injection hwalk with hwalk
    injection hwalk with hl he
    rw [FileTree.walk, hl, h.self]
  | case5 links base s rest hbase hidle ih =>
    exact (walk_idle (hkeeps.directory _ hbase) hidle follow links).trans (ih hwalk)
  | case6 links base rest hbase hidle ih =>
    exact (walk_above (hkeeps.directory _ hbase) follow links).trans (ih hwalk)
  | case12 base s rest hbase hidle habove hsize next target hnext hlast links ih =>
    rw [walk_step (hkeeps.directory _ hbase) (Bool.eq_false_iff.mpr hidle) habove
      (Nat.not_lt.mp hsize), hkeeps.link _ _ hnext]
    exact (if_neg hlast).trans (ih hwalk)
  | case13 links base s rest hbase hidle habove hsize next hnext ih =>
    rw [walk_step (hkeeps.directory _ hbase) (Bool.eq_false_iff.mpr hidle) habove
      (Nat.not_lt.mp hsize), hkeeps.directory _ hnext]
    exact ih hwalk
  | case14 links base s rest hbase hidle habove hsize next content hnext hlast =>
    injection hwalk with hwalk
    injection hwalk with hl he
    have hself : t'.lookup (base ++ [s]) = some (.file b) := (congrArg t'.lookup hl).trans h.self
    rw [walk_step (hkeeps.directory _ hbase) (Bool.eq_false_iff.mpr hidle) habove
      (Nat.not_lt.mp hsize), hself, ← hl]
    exact if_pos hlast
  -- These walks end at something else.
  | case8 | case10 =>
    injection hwalk with hwalk
    injection hwalk with hl he
    cases he
  | case2 | case3 | case4 | case7 | case9 | case11 | case15 => cases hwalk

theorem Sets.resolve (h : t.Sets l (some (.file b)) t')
    (hresolve : t.resolve follow p = .ok ⟨l, some (.file old)⟩) :
    t'.resolve follow p = .ok ⟨l, some (.file b)⟩ := by
  obtain ⟨hne, hzero, hsize, hwalk⟩ := inv_of_resolve hresolve
  rw [resolve_eq_walk hne hzero hsize, h.workingDirectory]
  exact h.walk hwalk

/-- No file is written at a path that ends as one of a directory. -/
theorem placeToWrite_ne_ok (h : p.endsWithSeparator = true) (place : Place) :
    placeToWrite follow p t ≠ .ok place t' := by
  intro hplace
  simp only [placeToWrite, h, ↓reduceIte] at hplace
  -- Whatever comes of looking for the directory, it cannot be written.
  split at hplace
  · obtain ⟨_, t₁, -, hthrow⟩ := bind_run_eq_ok.mp hplace
    cases hthrow
  · cases hplace

/-- A file that was written is where the path finds it, and nothing else has changed. -/
theorem wrote_of_save (h : save p b t = .ok () t') :
    ∃ l, (t.insert l (.file ByteArray.empty)).resolve true p =
        .ok ⟨l, some (.file ByteArray.empty)⟩ ∧
      (t.insert l (.file ByteArray.empty)).Sets l (some (.file b)) t' := by
  obtain ⟨⟨l, e?⟩, t₁, hplace, -⟩ := bind_run_eq_ok.mp h
  cases hend : p.endsWithSeparator with
  | true => exact absurd hplace (placeToWrite_ne_ok hend _)
  | false =>
    cases hresolve : t.resolve true p with
    | error e =>
      rw [placeToWrite_eq hend, place_error hresolve] at hplace
      cases hplace
    | ok place =>
      rw [placeToWrite_eq hend, place_ok hresolve] at hplace
      cases hplace
      -- A directory stands at the top, so that no file is written there.
      have hl : l ≠ [] := by
        rintro rfl
        obtain rfl : some .directory = e? := lookup_of_resolve hresolve
        rw [save_refused hend hresolve (admitsFile_directory t p [])] at h
        cases h
      have hput := sets_insert t hl (.file ByteArray.empty)
      rcases save_cases hl hend hresolve b with ⟨-, hsave⟩ | ⟨hadmits, hsaved | hsaved⟩
      · cases h.symm.trans hsave
      · obtain ⟨t₂, hsave, hsets⟩ := hsaved
        cases h.symm.trans hsave
        obtain ⟨-, e, hfound⟩ := admitsFile_iff.mp hadmits
        obtain rfl := hput.self.symm.trans (lookup_of_resolve hfound)
        refine ⟨l, hfound, hsets.self, ?_, hsets.workingDirectory, hsets.sizeLimit⟩
        exact fun l' hne => (hsets.others l' hne).trans (hput.others l' hne).symm
      · obtain ⟨e, t₂, content, hsave, -⟩ := hsaved
        cases h.symm.trans hsave

/-- **What was written is read back.** -/
theorem load_of_save (h : save p b t = .ok () t') : load p t' = .ok b t' := by
  obtain ⟨l, hfound, hsets⟩ := wrote_of_save h
  exact load_file (hsets.resolve hfound)

end BackupVault.FileTree
