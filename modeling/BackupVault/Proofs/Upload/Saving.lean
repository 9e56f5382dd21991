import BackupVault.Proofs.Upload.Loading

/-!
# Saving the directory of clients

A document is written to its draft, which then takes its place.  Whatever goes wrong on the way,
and whenever it does, the document is the old one or the new one, never something between.

## Overview

- `ClientDirectory.Seat.write`: what writing a document comes to
- `ClientDirectory.Disk.write_cases`: what it comes to on a disk that may fail
-/

set_option autoImplicit false

namespace BackupVault.ClientDirectory

/-! ## §1 Writing a document -/

namespace Seat

variable {root : Path} {R : Location} {t t' : FileTree}

/-- What is put in the place of the draft, or taken from there, leaves the document alone. -/
theorem sets_draft (h : Seat root R t) {e? : Option Entry}
    (hold : t.lookup (draftAt R) ≠ some .directory) (he? : ∀ target, e? ≠ some (.link target))
    (hsets : t.Sets (draftAt R) e? t') :
    Seat root R t' ∧ t'.lookup (documentAt R) = t.lookup (documentAt R) := by
  have hsame := hsets.others _ (draftAt_ne_documentAt R).symm
  have hkeeps : t.Keeps t' := hsets.keeps fun old hl => by
    cases old with
    | file content => exact ⟨content, rfl⟩
    | directory => exact absurd hl hold
    | link target => exact absurd hl (h.draft target)
  refine ⟨⟨h.leads.keeps hkeeps, h.room, ?_, ?_⟩, hsame⟩
  · rw [hsame]
    exact h.document
  · rw [hsets.self]
    exact he?

/-- A document comes into its place. -/
theorem sets_document (h : Seat root R t) {content : Bytes}
    (hsets : t.Sets (documentAt R) (some (.file content)) t') : Seat root R t' where
  leads := h.leads.keeps (hsets.keeps h.document)
  room := h.room
  document e he := ⟨content, Option.some.inj (he.symm.trans hsets.self)⟩
  draft := by
    rw [hsets.others _ (draftAt_ne_documentAt R)]
    exact h.draft

/-- Something is written to the draft, or nothing. -/
theorem save_draft (h : Seat root R t) (b : Bytes) :
    (∃ t', FileTree.save (root.join (Path.ofText draftName)) b t = .ok () t' ∧ Seat root R t' ∧
      t'.lookup (documentAt R) = t.lookup (documentAt R) ∧
      t'.lookup (draftAt R) = some (.file b)) ∨
    ∃ e t', FileTree.save (root.join (Path.ofText draftName)) b t = .error e t' ∧ Seat root R t' ∧
      t'.lookup (documentAt R) = t.lookup (documentAt R) := by
  have hend := (extends_name h.leads (.inl rfl)).endsWithSeparator
  have hfile {content : Bytes} : ∀ target, some (Entry.file content) ≠ some (.link target) :=
    fun target heq => by cases heq
  rcases FileTree.save_cases (location_ne_nil R draftName) hend (h.resolve_draft true) b with
    ⟨-, hsave⟩ | ⟨hadmits, ⟨t', hsave, hsets⟩ | ⟨e, t', content, hsave, hsets⟩⟩
  · exact .inr ⟨_, t, hsave, h, rfl⟩
  · obtain ⟨hseat, hsame⟩ := h.sets_draft (FileTree.admitsFile_iff.mp hadmits).1 hfile hsets
    exact .inl ⟨t', hsave, hseat, hsame, hsets.self⟩
  · obtain ⟨hseat, hsame⟩ := h.sets_draft (FileTree.admitsFile_iff.mp hadmits).1 hfile hsets
    exact .inr ⟨e, t', hsave, hseat, hsame⟩

/-- A draft takes the place of the document. -/
theorem move_draft (h : Seat root R t) {content : Bytes}
    (hdraft : t.lookup (draftAt R) = some (.file content)) :
    ∃ t', FileTree.move (root.join (Path.ofText draftName)) (documentPath root) t = .ok () t' ∧
      Seat root R t' ∧ t'.lookup (documentAt R) = some (.file content) := by
  have hdirectory : t.lookup (documentAt R) ≠ some .directory := fun hl => by
    obtain ⟨content, heq⟩ := h.document _ hl
    cases heq
  have hmove := FileTree.move_file (hdraft ▸ h.resolve_draft false) (h.resolve_document false)
    hdirectory (draftAt_ne_documentAt R)
  have hfile : t.lookup (draftAt R) ≠ some .directory := by
    rw [hdraft]
    nofun
  -- The draft goes away, and its content comes into the place of the document.
  have herase := FileTree.sets_erase t (location_ne_nil R draftName)
  obtain ⟨hseat, -⟩ := h.sets_draft hfile (fun target heq => by cases heq) herase
  have hsets := FileTree.sets_insert (t.erase (draftAt R)) (location_ne_nil R documentName)
    (.file content)
  exact ⟨_, hmove, hseat.sets_document hsets, hsets.self⟩

/-- Writing a document succeeds, so that the new one is in its place, or fails, so that the old one
still is. -/
theorem write (h : Seat root R t) (d : ClientDirectory) :
    (∃ t', d.write root t = .ok () t' ∧ Seat root R t' ∧
      t'.lookup (documentAt R) = some (.file (Bytes.ofText d.document))) ∨
    ∃ e t', d.write root t = .error e t' ∧ Seat root R t' ∧
      t'.lookup (documentAt R) = t.lookup (documentAt R) := by
  unfold ClientDirectory.write
  rcases h.save_draft (Bytes.ofText d.document) with ⟨t₁, hsave, hseat₁, -, hdraft⟩ |
      ⟨e, t₁, hsave, hseat₁, hsame⟩
  · obtain ⟨t₂, hmove, hseat₂, hdocument⟩ := hseat₁.move_draft hdraft
    refine .inl ⟨t₂, ?_, hseat₂, hdocument⟩
    rw [bind_run_ok (FileTree.orFail_ok hsave)]
    exact FileTree.orFail_ok hmove
  · exact .inr ⟨_, t₁, bind_run_error (FileTree.orFail_error hsave), hseat₁, hsame⟩

/-- With a directory in the place of the draft nothing is written. -/
theorem write_blocked (h : Seat root R t) (hdraft : t.lookup (draftAt R) = some .directory)
    (d : ClientDirectory) :
    d.write root t = .error (.io (root.join (Path.ofText draftName)) .isADirectory) t := by
  have hend := (extends_name h.leads (.inl rfl)).endsWithSeparator
  rcases FileTree.save_cases (location_ne_nil R draftName) hend (h.resolve_draft true)
    (Bytes.ofText d.document) with ⟨-, hsave⟩ | ⟨hadmits, -⟩
  · exact bind_run_error (FileTree.orFail_error hsave)
  · exact absurd hdraft (FileTree.admitsFile_iff.mp hadmits).1

end Seat

/-- Where documents can be written they can be kept. -/
theorem Desk.seat {root : Path} {R : Location} {t : FileTree} (h : Desk root R t) :
    Seat root R t where
  leads := h.leads
  room := h.room
  document := h.documents _ (.inr rfl)
  draft target hl := by
    obtain ⟨content, heq⟩ := h.documents _ (.inl rfl) _ hl
    cases heq

/-- A directory comes into the place of the draft. -/
theorem Desk.blocked {root : Path} {R : Location} {t : FileTree} (h : Desk root R t) :
    Seat root R (t.insert (draftAt R) .directory) ∧
      (t.insert (draftAt R) .directory).lookup (documentAt R) = t.lookup (documentAt R) :=
  h.seat.sets_draft (h.not_directory (.inl rfl)) (fun target heq => by cases heq)
    (FileTree.sets_insert t (location_ne_nil R draftName) .directory)

/-! ## §2 Disks that fail -/

theorem Disk.write_failing (written : Option Nat) (e : StorageError) (d : ClientDirectory)
    (root : Path) (t : FileTree) : ∃ e' t', (failing written e).write d root t = .error e' t' := by
  cases written with
  | none => exact ⟨e, t, rfl⟩
  | some n =>
    -- Saving stops after the beginning of the draft, if that could be written.
    cases hsave : FileTree.save (root.join (Path.ofText draftName))
        ((Bytes.ofText d.document).extract 0 n) t with
    | ok _ t' => exact ⟨e, t', bind_run_ok (FileTree.orFail_ok hsave)⟩
    | error cause t' => exact ⟨_, t', bind_run_error (FileTree.orFail_error hsave)⟩

/-- On any disk the new document is in its place, or the old one still is and the failure is
told. -/
theorem Disk.write_cases (disk : Disk) (d : ClientDirectory) {root : Path} {R : Location}
    {t : FileTree} (h : Seat root R t) :
    (∃ t', disk.write d root t = .ok () t' ∧ Seat root R t' ∧
      t'.lookup (documentAt R) = some (.file (Bytes.ofText d.document))) ∨
    ∃ e t', disk.write d root t = .error e t' ∧ Seat root R t' ∧
      t'.lookup (documentAt R) = t.lookup (documentAt R) := by
  cases disk with
  | sound => exact h.write d
  | failing written e =>
    cases written with
    | none => exact .inr ⟨e, t, rfl, h, rfl⟩
    | some n =>
      unfold Disk.write
      rcases h.save_draft ((Bytes.ofText d.document).extract 0 n) with
        ⟨t', hsave, hseat, hsame, -⟩ | ⟨e', t', hsave, hseat, hsame⟩
      · exact .inr ⟨e, t', bind_run_ok (FileTree.orFail_ok hsave), hseat, hsame⟩
      · exact .inr ⟨_, t', bind_run_error (FileTree.orFail_error hsave), hseat, hsame⟩

end BackupVault.ClientDirectory
