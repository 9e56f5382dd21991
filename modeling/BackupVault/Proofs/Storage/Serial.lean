import BackupVault.Proofs.Storage.Results

/-!
# One thing after another

What happens to a registry when its callers come one after another: users become known, and calls
are performed.  A file that was stored is held until it is deleted, what is read was stored by one
call, and of several calls that store under the same name only the first one does.

## Overview

- `Registry.Atom`, `Registry.Event`: what happens, and what is answered to it
- `Registry.Serial`: a run, event by event
- `Registry.Serial.held`, `Registry.Serial.source`: between storing, deleting and reading
- `Registry.Serial.winner`: several calls that store under one name
-/

set_option autoImplicit false

namespace BackupVault.Registry

open FileTree

/-! ## §1 Runs -/

/-- What happens at once, while nothing else does. -/
inductive Atom where
  /-- The user becomes known. -/
  | introduce (user : UserId)
  | call (c : Call)
deriving DecidableEq

def Atom.perform : Atom → Registered Answer
  | introduce user => do return .directory (← getOrCreate user)
  | call c => c.perform

/-- Something that happened for a call, and what was answered to it. -/
structure Event where
  /-- The number of the call. -/
  number : Nat
  atom : Atom
  told : Told

/-- The event is about storing this file. -/
def Event.isStoring (user : UserId) (filename : String) (e : Event) : Prop :=
  ∃ content, e.atom = .call (.store user filename content)

/-- The file was stored, with this content. -/
def Event.isStored (user : UserId) (filename : String) (content : Bytes) (e : Event) : Prop :=
  e.atom = .call (.store user filename content) ∧ ∃ a, e.told = .ok a

/-- The file was deleted. -/
def Event.isDeleted (user : UserId) (filename : String) (e : Event) : Prop :=
  e.atom = .call (.delete user filename) ∧ ∃ a, e.told = .ok a

/-- The events lead from the first storage to the second one, one after another, and each is answered
as the registry answers it. -/
def Serial (s : Storage) : List Event → Storage → Prop
  | [], s' => s' = s
  | e :: K, s' => e.told = outcome (e.atom.perform s) ∧ Serial (after (e.atom.perform s)) K s'

section Runs

variable {R : Location} {s s' s₁ : Storage} {K K' : List Event} {e : Event}

theorem serial_append :
    Serial s (K ++ K') s' ↔ ∃ s₁, Serial s K s₁ ∧ Serial s₁ K' s' := by
  induction K generalizing s with
  | nil => exact ⟨fun h => ⟨s, rfl, h⟩, fun ⟨_, heq, h⟩ => heq ▸ h⟩
  | cons e K ih =>
    simp only [List.cons_append, Serial, ih]
    constructor
    · rintro ⟨htold, s₁, hK, hK'⟩
      exact ⟨s₁, ⟨htold, hK⟩, hK'⟩
    · rintro ⟨s₁, ⟨htold, hK⟩, hK'⟩
      exact ⟨htold, s₁, hK, hK'⟩

theorem Serial.single (number : Nat) (atom : Atom) (s : Storage) :
    Serial s [⟨number, atom, outcome (atom.perform s)⟩] (after (atom.perform s)) := ⟨rfl, rfl⟩

theorem Sound.introduce (h : Sound R s) (user : UserId) :
    Goes R s (after ((Atom.introduce user).perform s)) := by
  rw [Atom.perform, after_map]
  exact (h.getOrCreate_goes user).1

theorem Sound.atom_goes (h : Sound R s) (a : Atom) : Goes R s (after (a.perform s)) := by
  cases a with
  | introduce user => exact h.introduce user
  | call c => exact h.perform_goes c

theorem Serial.goes (hrun : Serial s K s') (h : Sound R s) : Goes R s s' := by
  induction K generalizing s with
  | nil =>
    cases hrun
    exact .refl h
  | cons e K ih =>
    have hgoes := h.atom_goes e.atom
    exact hgoes.trans (ih hrun.2 hgoes.sound)

end Runs

/-! ## §2 One file -/

section File

variable {R : Location} {s s' : Storage} {K : List Event} {user : UserId} {filename : String}
  {content : Bytes}

/-- Only storing the file or deleting it changes what is in its place. -/
theorem Sound.lookup_event (h : Sound R s) {e : Event}
    (htold : e.told = outcome (e.atom.perform s))
    (hstored : ∀ content, ¬ e.isStored user filename content)
    (hdeleted : ¬ e.isDeleted user filename) :
    (after (e.atom.perform s)).files.lookup (fileAt R user (Bytes.ofText filename)) =
      s.files.lookup (fileAt R user (Bytes.ofText filename)) := by
  obtain ⟨number, atom, told⟩ := e
  cases atom with
  | introduce user' =>
    rw [Atom.perform, after_map]
    exact h.getOrCreate_file user' user _
  | call c =>
    refine h.lookup_file c user filename fun r hr hchanges => ?_
    have hok : told = .ok r := htold.trans hr
    cases c with
    | store user' filename' content =>
      obtain ⟨rfl, rfl⟩ := hchanges
      exact hstored content ⟨rfl, r, hok⟩
    | delete user' filename' =>
      obtain ⟨rfl, rfl⟩ := hchanges
      exact hdeleted ⟨rfl, r, hok⟩
    | read user' filename' => exact hchanges
    | list user' => exact hchanges

/-- What was stored was not there before, and is held afterwards. -/
theorem Sound.stored_event (h : Sound R s) {e : Event}
    (htold : e.told = outcome (e.atom.perform s)) (hstored : e.isStored user filename content) :
    isPlainFilename filename = true ∧
      e.told = .ok (.stored (filePath s.registry.root user filename)) ∧
      s.files.lookup (fileAt R user (Bytes.ofText filename)) = none ∧
      Held R (after (e.atom.perform s)) user filename content := by
  obtain ⟨hatom, a, ha⟩ := hstored
  rw [hatom] at htold ⊢
  obtain ⟨hplain, rfl, hnone, hheld⟩ := h.stored (htold.symm.trans ha)
  exact ⟨hplain, ha, hnone, hheld⟩

theorem Sound.deleted_event (h : Sound R s) {e : Event}
    (htold : e.told = outcome (e.atom.perform s)) (hdeleted : e.isDeleted user filename) :
    (after (e.atom.perform s)).files.lookup (fileAt R user (Bytes.ofText filename)) = none := by
  obtain ⟨hatom, a, ha⟩ := hdeleted
  rw [hatom] at htold ⊢
  exact h.deleted (htold.symm.trans ha)

/-- Storing a file fails if its name is taken or something is in the way. -/
theorem Sound.store_event (h : Sound R s) (hplain : isPlainFilename filename = true) {e : Event}
    (htold : e.told = outcome (e.atom.perform s)) (hstoring : e.isStoring user filename)
    (hio : ∀ path cause, e.told ≠ .error (.io path cause)) :
    (∃ content, e.isStored user filename content) ∨
      e.told = .error (.alreadyExists (filePath s.registry.root user filename)) ∧
        s.files.lookup (fileAt R user (Bytes.ofText filename)) ≠ none := by
  obtain ⟨content, hatom⟩ := hstoring
  cases htold' : e.told with
  | ok a => exact .inl ⟨content, hatom, a, htold'⟩
  | error er =>
    have hfail := htold.symm.trans htold'
    rw [hatom] at hfail
    rcases h.store_fails hplain hfail with ⟨path, cause, rfl⟩ | ⟨rfl, hne⟩
    · exact absurd htold' (hio path cause)
    · exact .inr ⟨rfl, hne⟩

/-- A file is held until it is deleted. -/
theorem Serial.held (hrun : Serial s K s') (h : Sound R s)
    (hplain : isPlainFilename filename = true) (hheld : Held R s user filename content)
    (hnot : ∀ e ∈ K, ¬ e.isDeleted user filename) : Held R s' user filename content := by
  induction K generalizing s with
  | nil => exact hrun ▸ hheld
  | cons e K ih =>
    obtain ⟨htold, hrest⟩ := hrun
    rw [List.forall_mem_cons] at hnot
    have hgoes := h.atom_goes e.atom
    refine ih hrest hgoes.sound (h.held_goes hplain hheld hgoes ?_) hnot.2
    refine h.lookup_event htold (fun content' hstored => ?_) hnot.1
    -- The name is taken, so that no other file is stored under it.
    obtain ⟨-, -, hnone, -⟩ := h.stored_event htold hstored
    rw [h.lookup_held hplain hheld] at hnone
    cases hnone

/-- A file that is there was there from the start, or it was stored. -/
theorem Serial.source (hrun : Serial s K s') (h : Sound R s)
    (hfile : s'.files.lookup (fileAt R user (Bytes.ofText filename)) = some (.file content)) :
    s.files.lookup (fileAt R user (Bytes.ofText filename)) = some (.file content) ∨
      ∃ e ∈ K, e.isStored user filename content := by
  induction K generalizing s with
  | nil => exact .inl (hrun ▸ hfile)
  | cons e K ih =>
    obtain ⟨htold, hrest⟩ := hrun
    have hgoes := h.atom_goes e.atom
    rcases ih hrest hgoes.sound with hbefore | ⟨e', he', hstore⟩
    · by_cases hstored : ∃ content', e.isStored user filename content'
      · obtain ⟨content', hstored⟩ := hstored
        obtain ⟨hplain, -, -, hheld⟩ := h.stored_event htold hstored
        -- What was stored is what is there.
        have hsame := hbefore.symm.trans (hgoes.sound.lookup_held hplain hheld)
        cases hsame
        exact .inr ⟨e, List.mem_cons_self, hstored⟩
      · by_cases hdeleted : e.isDeleted user filename
        · have hgone := hbefore.symm.trans (h.deleted_event htold hdeleted)
          cases hgone
        · rw [h.lookup_event htold (fun content' hs => hstored ⟨content', hs⟩) hdeleted] at hbefore
          exact .inl hbefore
    · exact .inr ⟨e', List.mem_cons_of_mem _ he', hstore⟩

/-! ## §3 Storing under one name -/

/-- No event about storing the file failed for another reason than that the name was taken. -/
def Undisturbed (user : UserId) (filename : String) (K : List Event) : Prop :=
  ∀ e ∈ K, e.isStoring user filename → ∀ path cause, e.told ≠ .error (.io path cause)

/-- While the name is taken, nothing is stored under it. -/
theorem Serial.taken (hrun : Serial s K s') (h : Sound R s)
    (hplain : isPlainFilename filename = true)
    (htaken : s.files.lookup (fileAt R user (Bytes.ofText filename)) ≠ none)
    (hnot : ∀ e ∈ K, ¬ e.isDeleted user filename) (hio : Undisturbed user filename K) :
    ∀ e ∈ K, e.isStoring user filename →
      e.told = .error (.alreadyExists (filePath s.registry.root user filename)) := by
  induction K generalizing s with
  | nil => exact List.forall_mem_nil _
  | cons e K ih =>
    obtain ⟨htold, hrest⟩ := hrun
    rw [List.forall_mem_cons] at hnot
    have hgoes := h.atom_goes e.atom
    have hfails : ∀ content, ¬ e.isStored user filename content := by
      intro content hstored
      exact htaken (h.stored_event htold hstored).2.2.1
    have hunchanged := h.lookup_event htold hfails hnot.1
    have htail := ih hrest hgoes.sound (hunchanged ▸ htaken) hnot.2
      fun e' he' => hio e' (List.mem_cons_of_mem _ he')
    rw [hgoes.root] at htail
    refine List.forall_mem_cons.mpr ⟨fun hstoring => ?_, htail⟩
    -- It fails, and nothing else is in the way.
    rcases h.store_event hplain htold hstoring (hio e List.mem_cons_self hstoring) with
      ⟨content, hstored⟩ | ⟨htold', -⟩
    · exact absurd hstored (hfails content)
    · exact htold'

/-- The first call that stores under a free name does so, and all others find it taken. -/
theorem Serial.winner (hrun : Serial s K s') (h : Sound R s)
    (hplain : isPlainFilename filename = true)
    (hfree : s.files.lookup (fileAt R user (Bytes.ofText filename)) = none)
    (hnot : ∀ e ∈ K, ¬ e.isDeleted user filename) (hio : Undisturbed user filename K) :
    (∀ e ∈ K, ¬ e.isStoring user filename) ∨
      ∃ K₁ e K₂, K = K₁ ++ e :: K₂ ∧ e.isStoring user filename ∧
        e.told = .ok (.stored (filePath s.registry.root user filename)) ∧
        ∀ e' ∈ K₁ ++ K₂, e'.isStoring user filename →
          e'.told = .error (.alreadyExists (filePath s.registry.root user filename)) := by
  induction K generalizing s with
  | nil => exact .inl (List.forall_mem_nil _)
  | cons e K ih =>
    obtain ⟨htold, hrest⟩ := hrun
    rw [List.forall_mem_cons] at hnot
    have hgoes := h.atom_goes e.atom
    have hio' : Undisturbed user filename K := fun e' he' => hio e' (List.mem_cons_of_mem _ he')
    by_cases hstoring : e.isStoring user filename
    · rcases h.store_event hplain htold hstoring (hio e List.mem_cons_self hstoring) with
        ⟨content, hstored⟩ | ⟨-, hne⟩
      · obtain ⟨-, hwon, -, hheld⟩ := h.stored_event htold hstored
        have htaken := hgoes.sound.lookup_held hplain hheld
        have hothers := Serial.taken hrest hgoes.sound hplain (by rw [htaken]; simp) hnot.2 hio'
        rw [hgoes.root] at hothers
        exact .inr ⟨[], e, K, rfl, hstoring, hwon, hothers⟩
      -- The name was not taken before.
      · exact absurd hfree hne
    · have hunchanged := h.lookup_event htold
        (fun content hstored => hstoring ⟨content, hstored.1⟩) hnot.1
      have htail := ih hrest hgoes.sound (hunchanged.trans hfree) hnot.2 hio'
      rw [hgoes.root] at htail
      rcases htail with hnone | ⟨K₁, e₁, K₂, rfl, hwinner, hwon, hothers⟩
      · exact .inl (List.forall_mem_cons.mpr ⟨hstoring, hnone⟩)
      · refine .inr ⟨e :: K₁, e₁, K₂, rfl, hwinner, hwon, ?_⟩
        exact List.forall_mem_cons.mpr ⟨fun hs => absurd hs hstoring, hothers⟩

end File

end BackupVault.Registry
