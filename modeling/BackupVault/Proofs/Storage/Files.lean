import BackupVault.Proofs.Outcome
import BackupVault.Proofs.Storage.FileTree

/-!
# Operations on files

What each operation does, given where its path leads.  Where no file is limited in size, writing
never stops halfway, and the pieces of a byte string that are handed over one after another make
up the whole of it.

## Overview

- §1: looking
- §2: making directories and files
- §3: writing, at once and in pieces
- §4: removing and moving
- §5: operations whose failure is given as an error of another kind
-/

set_option autoImplicit false

namespace BackupVault.FileTree

variable {t : FileTree} {p q : Path} {l : Location} {follow : Bool}

/-! ## §1 Looking -/

theorem place_ok {place : Place} (h : t.resolve follow p = .ok place) :
    FileTree.place follow p t = .ok place t := by
  simp only [FileTree.place, h]

theorem place_error {e : IoFailure} (h : t.resolve follow p = .error e) :
    FileTree.place follow p t = .error e t := by
  simp only [FileTree.place, h]

theorem stat_some {e : Entry} (h : t.resolve true p = .ok ⟨l, some e⟩) :
    stat p t = .ok e t := bind_run_ok (place_ok h)

theorem stat_none (h : t.resolve true p = .ok ⟨l, none⟩) :
    stat p t = .error .notFound t := bind_run_ok (place_ok h)

theorem stat_error {e : IoFailure} (h : t.resolve true p = .error e) :
    stat p t = .error e t := bind_run_error (place_error h)

theorem Leads.isDirectory (h : t.Leads p l) : t.isDirectory p = true := by
  unfold FileTree.isDirectory
  rw [stat_some h]

theorem stat_eq (p : Path) (t : FileTree) :
    stat p t = match t.resolve true p with
      | .ok ⟨_, some e⟩ => .ok e t
      | .ok ⟨_, none⟩ => .error .notFound t
      | .error e => .error e t := by
  cases h : t.resolve true p with
  | error e => exact stat_error h
  | ok place =>
    obtain ⟨l, e?⟩ := place
    cases e? with
    | none => exact stat_none h
    | some e => exact stat_some h

theorem load_file {content : Bytes} (h : t.resolve true p = .ok ⟨l, some (.file content)⟩) :
    load p t = .ok content t := bind_run_ok (stat_some h)

theorem load_none (h : t.resolve true p = .ok ⟨l, none⟩) :
    load p t = .error .notFound t := bind_run_error (stat_none h)

theorem load_error {e : IoFailure} (h : t.resolve true p = .error e) :
    load p t = .error e t := bind_run_error (stat_error h)

theorem load_eq (p : Path) (t : FileTree) :
    load p t = match t.resolve true p with
      | .ok ⟨_, some (.file content)⟩ => .ok content t
      | .ok ⟨_, some _⟩ => .error .isADirectory t
      | .ok ⟨_, none⟩ => .error .notFound t
      | .error e => .error e t := by
  cases h : t.resolve true p with
  | error e => exact load_error h
  | ok place =>
    obtain ⟨l, e?⟩ := place
    cases e? with
    | none => exact load_none h
    | some e =>
      cases e with
      | file content => exact load_file h
      | directory => exact bind_run_ok (stat_some h)
      | link target => exact bind_run_ok (stat_some h)

theorem list_eq (p : Path) (t : FileTree) :
    list p t = match t.resolve true p with
      | .ok ⟨l, some .directory⟩ => .ok (t.children l) t
      | .ok ⟨_, some _⟩ => .error .notADirectory t
      | .ok ⟨_, none⟩ => .error .notFound t
      | .error e => .error e t := by
  cases h : t.resolve true p with
  | error e => exact bind_run_error (place_error h)
  | ok place =>
    obtain ⟨l, e?⟩ := place
    refine (bind_run_ok (place_ok h)).trans ?_
    cases e? with
    | none => rfl
    | some e => cases e <;> rfl

/-- Looking changes nothing. -/
theorem preserves_place (P : FileTree → Prop) (follow : Bool) (p : Path) :
    Preserves P (FileTree.place follow p) := by
  intro t h
  unfold FileTree.place
  split <;> exact h

theorem preserves_stat (P : FileTree → Prop) (p : Path) : Preserves P (stat p) := by
  refine (preserves_place P true p).bind fun place => ?_
  split
  · exact Preserves.pure _
  · exact Preserves.throw _

theorem preserves_load (P : FileTree → Prop) (p : Path) : Preserves P (load p) := by
  refine (preserves_stat P p).bind fun e => ?_
  split
  · exact Preserves.pure _
  · exact Preserves.throw _

theorem preserves_list (P : FileTree → Prop) (p : Path) : Preserves P (list p) := by
  refine (preserves_place P true p).bind fun place => ?_
  split
  · exact fun t h => h
  · exact Preserves.throw _
  · exact Preserves.throw _

/-! ## §2 Making directories and files -/

theorem makeDirectory_none (h : t.resolve false p = .ok ⟨l, none⟩) :
    makeDirectory p t = .ok () (t.insert l .directory) := bind_run_ok (place_ok h)

theorem makeDirectory_some {e : Entry} (h : t.resolve false p = .ok ⟨l, some e⟩) :
    makeDirectory p t = .error .alreadyExists t := bind_run_ok (place_ok h)

theorem makeDirectories_none (hsteps : p.steps ≠ []) (h : t.resolve false p = .ok ⟨l, none⟩) :
    makeDirectories p t = .ok () (t.insert l .directory) := by
  unfold makeDirectories
  -- The last step is the one that is made; a path without steps makes nothing.
  cases hrev : p.steps.reverse with
  | nil => exact absurd (List.reverse_eq_nil_iff.mp hrev) hsteps
  | cons s up => simp only [makeSteps, makeDirectory_none h]

/-- A directory that is there already will do. -/
theorem makeDirectories_leads (h : t.Leads p l) : makeDirectories p t = .ok () t := by
  obtain ⟨l', e, hresolve⟩ := h.resolve_link
  unfold makeDirectories
  cases p.steps.reverse with
  | nil => rfl
  | cons s up => simp only [makeSteps, makeDirectory_some hresolve, h.isDirectory, ↓reduceIte]

/-- Making a directory one step below another one: one that is there will do, and anything else that
stands there is in the way. -/
theorem Leads.makeDirectories_child {s : Bytes} (h : t.Leads p l) (hq : p.Extends s q)
    (hs : Path.IsStep s) (hlink : ∀ target, t.lookup (l ++ [s]) ≠ some (.link target)) :
    makeDirectories q t =
      if q.bytes.size ≤ maxPath ∧ s.size ≤ maxSegment then
        match t.lookup (l ++ [s]) with
        | none => .ok () (t.insert (l ++ [s]) .directory)
        | some .directory => .ok () t
        | some _ => .error .alreadyExists t
      else .error .nameTooLong t := by
  have hsteps := hq.steps_ne_nil hs
  have hresolve := h.resolve_child hq hs hlink
  by_cases hsize : q.bytes.size ≤ maxPath ∧ s.size ≤ maxSegment
  · simp only [hsize, and_self, ↓reduceIte] at hresolve ⊢
    cases hl : t.lookup (l ++ [s]) with
    | none => exact makeDirectories_none hsteps (hl ▸ hresolve false)
    | some e =>
      have hmake := makeDirectory_some (hl ▸ hresolve false)
      have hstat := stat_some (hl ▸ hresolve true)
      -- The directory is only looked for if it cannot be made.
      cases hrev : q.steps.reverse with
      | nil => exact absurd (List.reverse_eq_nil_iff.mp hrev) hsteps
      | cons s up =>
        simp only [makeDirectories, hrev, makeSteps, hmake, FileTree.isDirectory, hstat]
        cases e <;> rfl
  · simp only [hsize, ↓reduceIte] at hresolve ⊢
    have hmake : makeDirectory q t = .error .nameTooLong t :=
      bind_run_error (place_error (hresolve false))
    have hstat := stat_error (hresolve true)
    cases hrev : q.steps.reverse with
    | nil => exact absurd (List.reverse_eq_nil_iff.mp hrev) hsteps
    | cons s up =>
      simp [makeDirectories, hrev, makeSteps, hmake, FileTree.isDirectory, hstat]

theorem placeToWrite_eq (h : p.endsWithSeparator = false) :
    placeToWrite follow p = FileTree.place follow p := by
  unfold placeToWrite
  rw [h]
  rfl

theorem createNew_none (hend : p.endsWithSeparator = false)
    (h : t.resolve false p = .ok ⟨l, none⟩) :
    createNew p t = .ok () (t.insert l (.file ByteArray.empty)) := by
  unfold createNew
  rw [placeToWrite_eq hend]
  exact bind_run_ok (place_ok h)

theorem createNew_some (hend : p.endsWithSeparator = false) {e : Entry}
    (h : t.resolve false p = .ok ⟨l, some e⟩) : createNew p t = .error .alreadyExists t := by
  unfold createNew
  rw [placeToWrite_eq hend]
  exact bind_run_ok (place_ok h)

theorem createNew_error (hend : p.endsWithSeparator = false) {e : IoFailure}
    (h : t.resolve false p = .error e) : createNew p t = .error e t := by
  unfold createNew
  rw [placeToWrite_eq hend]
  exact bind_run_error (place_error h)

/-! ## §3 Writing -/

/-- Without a limit on sizes a file grows by all that is written. -/
theorem append_unlimited {old : Bytes} (hl : l ≠ []) (hlimit : t.sizeLimit = none)
    (h : t.lookup l = some (.file old)) (b : Bytes) :
    ∃ t', append l b t = .ok () t' ∧ t.Sets l (some (.file (old ++ b))) t' := by
  refine ⟨t.insert l (.file (old ++ b)), ?_, sets_insert t hl _⟩
  have hget : (get : Files FileTree) t = .ok t t := rfl
  unfold append
  rw [bind_run_ok hget]
  simp only [h, hlimit]
  rfl

/-- The first pieces of a byte string are its beginning, by induction on their number. -/
theorem foldl_pieces (b : Bytes) (n : Nat) :
    ((List.range n).map fun i => b.extract (i * UserDirectory.pieceSize)
      ((i + 1) * UserDirectory.pieceSize)).foldl (· ++ ·) ByteArray.empty =
        b.extract 0 (n * UserDirectory.pieceSize) := by
  induction n with
  | zero => rw [Nat.zero_mul, ByteArray.extract_same]; rfl
  | succ n ih =>
    rw [List.range_succ, List.map_append, List.foldl_append, ih, List.map_singleton,
      List.foldl_cons, List.foldl_nil, ByteArray.extract_append_extract, Nat.min_eq_left
        (Nat.zero_le _), Nat.max_eq_right
          (Nat.mul_le_mul_right _ (Nat.le_succ n))]

/-- The pieces of a byte string make up the whole of it. -/
theorem foldl_all_pieces (b : Bytes) :
    (UserDirectory.pieces b).foldl (· ++ ·) ByteArray.empty = b := by
  have hpos : 0 < UserDirectory.pieceSize := by decide
  -- The number of pieces is rounded up, so that they reach the end.
  have hall : b.size ≤ (b.size + UserDirectory.pieceSize - 1) / UserDirectory.pieceSize *
      UserDirectory.pieceSize := by
    have hmod := Nat.mod_lt (b.size + UserDirectory.pieceSize - 1) hpos
    have hdiv := Nat.div_add_mod' (b.size + UserDirectory.pieceSize - 1) UserDirectory.pieceSize
    omega
  apply Bytes.ext_toList
  rw [UserDirectory.pieces, foldl_pieces, Bytes.toList_extract, List.drop_zero,
    List.take_of_length_le hall]

theorem admitsFile_iff {e? : Option Entry} : t.admitsFile p ⟨l, e?⟩ = true ↔
    e? ≠ some .directory ∧
      ∃ e, (t.insert l (.file ByteArray.empty)).resolve true p = .ok ⟨l, e⟩ := by
  unfold admitsFile
  rw [Bool.and_eq_true, bne_iff_ne]
  refine and_congr_right fun _ => ?_
  cases (t.insert l (.file ByteArray.empty)).resolve true p with
  | error e => simp
  | ok found =>
    obtain ⟨l', e⟩ := found
    simp

theorem admitsFile_directory (t : FileTree) (p : Path) (l : Location) :
    t.admitsFile p ⟨l, some .directory⟩ = false :=
  Bool.eq_false_iff.mpr fun h => (admitsFile_iff.mp h).1 rfl

/-- Nothing is written at a place that admits no file. -/
theorem save_refused {place : Place} (hend : p.endsWithSeparator = false)
    (h : t.resolve true p = .ok place) (hrefused : t.admitsFile p place = false) (b : Bytes) :
    save p b t = .error .isADirectory t := by
  have hget : (get : Files FileTree) t = .ok t t := rfl
  unfold save
  rw [placeToWrite_eq hend, bind_run_ok (place_ok h), bind_run_ok hget, hrefused]
  rfl

/-- The file is emptied first, whatever it was, and the content is written only if there is any. -/
theorem save_eq {place : Place} (hend : p.endsWithSeparator = false)
    (h : t.resolve true p = .ok place) (hadmits : t.admitsFile p place = true) (b : Bytes) :
    save p b t = (if b.size > 0 then append place.location b else pure ())
      (t.insert place.location (.file ByteArray.empty)) := by
  have hget : (get : Files FileTree) t = .ok t t := rfl
  unfold save
  rw [placeToWrite_eq hend, bind_run_ok (place_ok h), bind_run_ok hget, hadmits]
  rfl

theorem save_unlimited {e? : Option Entry} (hl : l ≠ []) (hlimit : t.sizeLimit = none)
    (hend : p.endsWithSeparator = false) (h : t.resolve true p = .ok ⟨l, e?⟩)
    (hadmits : t.admitsFile p ⟨l, e?⟩ = true) (b : Bytes) :
    ∃ t', save p b t = .ok () t' ∧ t.Sets l (some (.file b)) t' := by
  have hput : t.Sets l (some (.file ByteArray.empty)) (t.insert l (.file ByteArray.empty)) :=
    sets_insert t hl _
  rw [save_eq hend h hadmits]
  by_cases hb : b.size > 0
  · obtain ⟨t', hrun, hsets⟩ := append_unlimited hl (hput.sizeLimit.trans hlimit) hput.self b
    refine ⟨t', by rw [if_pos hb]; exact hrun, ?_⟩
    rw [ByteArray.empty_append] at hsets
    exact hput.trans hsets
  · have hempty : b = ByteArray.empty := ByteArray.size_eq_zero_iff.mp (by omega)
    rw [if_neg hb, hempty]
    exact ⟨_, rfl, hput⟩

/-- What is written at the end of a file is written to that file only, as far as it goes. -/
theorem append_cases {old : Bytes} (hl : l ≠ []) (h : t.lookup l = some (.file old)) (b : Bytes) :
    (∃ t', append l b t = .ok () t' ∧ t.Sets l (some (.file (old ++ b))) t') ∨
      ∃ e t' content, append l b t = .error e t' ∧ t.Sets l (some (.file content)) t' := by
  have hget : (get : Files FileTree) t = .ok t t := rfl
  unfold append
  rw [bind_run_ok hget]
  simp only [h]
  cases t.sizeLimit with
  | none => exact .inl ⟨_, rfl, sets_insert t hl _⟩
  | some limit =>
    by_cases hfits : old.size + b.size ≤ limit
    · simp only [hfits, ↓reduceIte]
      exact .inl ⟨_, rfl, sets_insert t hl _⟩
    · simp only [hfits, ↓reduceIte]
      exact .inr ⟨_, _, _, rfl, sets_insert t hl _⟩

/-- What saving a file can come to.  Unless the place admits no file, some of the content, or all
of it, is in the place of the file afterwards. -/
theorem save_cases {e? : Option Entry} (hl : l ≠ []) (hend : p.endsWithSeparator = false)
    (h : t.resolve true p = .ok ⟨l, e?⟩) (b : Bytes) :
    t.admitsFile p ⟨l, e?⟩ = false ∧ save p b t = .error .isADirectory t ∨
      t.admitsFile p ⟨l, e?⟩ = true ∧
        ((∃ t', save p b t = .ok () t' ∧ t.Sets l (some (.file b)) t') ∨
          ∃ er t' content, save p b t = .error er t' ∧ t.Sets l (some (.file content)) t') := by
  have hput : t.Sets l (some (.file ByteArray.empty)) (t.insert l (.file ByteArray.empty)) :=
    sets_insert t hl _
  cases hadmits : t.admitsFile p ⟨l, e?⟩ with
  | false => exact .inl ⟨rfl, save_refused hend h hadmits b⟩
  | true =>
    refine .inr ⟨rfl, ?_⟩
    rw [save_eq hend h hadmits]
    by_cases hb : b.size > 0
    · rw [if_pos hb]
      rcases append_cases hl hput.self b with ⟨t', hrun, hsets⟩ | ⟨er, t', content, hrun, hsets⟩
      · rw [ByteArray.empty_append] at hsets
        exact .inl ⟨t', hrun, hput.trans hsets⟩
      · exact .inr ⟨er, t', content, hrun, hput.trans hsets⟩
    · have hempty : b = ByteArray.empty := ByteArray.size_eq_zero_iff.mp (by omega)
      rw [if_neg hb, hempty]
      exact .inl ⟨_, rfl, hput⟩

/-- Whatever comes of writing at the end of a file, only its content changes. -/
theorem after_append (l : Location) (b : Bytes) (t : FileTree) :
    after (append l b t) = t ∨ ∃ content, after (append l b t) = t.insert l (.file content) := by
  have hget : (get : Files FileTree) t = .ok t t := rfl
  unfold append
  rw [bind_run_ok hget]
  cases t.lookup l with
  | none => exact .inl rfl
  | some e =>
    cases e with
    | directory => exact .inl rfl
    | link target => exact .inl rfl
    | file old =>
      cases t.sizeLimit with
      | none => exact .inr ⟨_, rfl⟩
      | some limit =>
        by_cases hfits : old.size + b.size ≤ limit
        · simp only [hfits, ↓reduceIte]
          exact .inr ⟨_, rfl⟩
        · simp only [hfits, ↓reduceIte]
          exact .inr ⟨_, rfl⟩

/-- Whatever comes of saving a file, nothing changes, or a file comes to where the path leads and
no directory is. -/
theorem after_save (hend : p.endsWithSeparator = false) (b : Bytes) (t : FileTree) :
    after (save p b t) = t ∨ ∃ l e? content, t.resolve true p = .ok ⟨l, e?⟩ ∧
      e? ≠ some .directory ∧ after (save p b t) = t.insert l (.file content) := by
  cases h : t.resolve true p with
  | error e =>
    left
    unfold save
    rw [placeToWrite_eq hend, bind_run_error (place_error h)]
    rfl
  | ok place =>
    obtain ⟨l, e?⟩ := place
    cases hadmits : t.admitsFile p ⟨l, e?⟩ with
    | false =>
      left
      rw [save_refused hend h hadmits]
      rfl
    | true =>
      right
      have he := (admitsFile_iff.mp hadmits).1
      rw [save_eq hend h hadmits]
      by_cases hb : b.size > 0
      · rw [if_pos hb]
        rcases after_append l b (t.insert l (.file ByteArray.empty)) with hsame | ⟨content, hfile⟩
        · exact ⟨l, e?, _, rfl, he, hsame⟩
        · exact ⟨l, e?, content, rfl, he, hfile.trans (insert_insert t l _ _)⟩
      · rw [if_neg hb]
        exact ⟨l, e?, _, rfl, he, rfl⟩

/-! ## §4 Removing and moving -/

theorem remove_file {content : Bytes} (h : t.resolve false p = .ok ⟨l, some (.file content)⟩) :
    remove p t = .ok () (t.erase l) := bind_run_ok (place_ok h)

theorem remove_none (h : t.resolve false p = .ok ⟨l, none⟩) :
    remove p t = .error .notFound t := bind_run_ok (place_ok h)

theorem remove_error {e : IoFailure} (h : t.resolve false p = .error e) :
    remove p t = .error e t := bind_run_error (place_error h)

theorem remove_eq (p : Path) (t : FileTree) :
    remove p t = match t.resolve false p with
      | .ok ⟨_, some .directory⟩ => .error .isADirectory t
      | .ok ⟨l, some _⟩ => .ok () (t.erase l)
      | .ok ⟨_, none⟩ => .error .notFound t
      | .error e => .error e t := by
  cases h : t.resolve false p with
  | error e => exact remove_error h
  | ok place =>
    obtain ⟨l, e?⟩ := place
    refine (bind_run_ok (place_ok h)).trans ?_
    cases e? with
    | none => rfl
    | some e => cases e <;> rfl

theorem move_file {content : Bytes} {l' : Location} {e : Option Entry}
    (h : t.resolve false p = .ok ⟨l, some (.file content)⟩)
    (h' : t.resolve false q = .ok ⟨l', e⟩) (he : e ≠ some .directory) (hne : l ≠ l') :
    move p q t = .ok () ((t.erase l).insert l' (.file content)) := by
  unfold move
  rw [bind_run_ok (place_ok h), bind_run_ok (place_ok h')]
  -- Only a directory in the place of the target would be in the way.
  cases e with
  | none => simp only [ne_eq, hne, not_false_eq_true, ↓reduceIte]; rfl
  | some e =>
    cases e with
    | directory => exact absurd rfl he
    | file content => simp only [ne_eq, hne, not_false_eq_true, ↓reduceIte]; rfl
    | link target => simp only [ne_eq, hne, not_false_eq_true, ↓reduceIte]; rfl

/-- Whatever comes of moving a file, nothing changes, or what is no directory goes from the one place
to the other. -/
theorem after_move (p q : Path) (t : FileTree) :
    after (move p q t) = t ∨ ∃ l e l' e?, t.resolve false p = .ok ⟨l, some e⟩ ∧ e ≠ .directory ∧
      t.resolve false q = .ok ⟨l', e?⟩ ∧ e? ≠ some .directory ∧
      after (move p q t) = (t.erase l).insert l' e := by
  unfold move
  cases h : t.resolve false p with
  | error e => exact .inl (by rw [bind_run_error (place_error h)]; rfl)
  | ok old =>
    rw [bind_run_ok (place_ok h)]
    cases h' : t.resolve false q with
    | error e => exact .inl (by rw [bind_run_error (place_error h')]; rfl)
    | ok new =>
      rw [bind_run_ok (place_ok h')]
      obtain ⟨l, e?⟩ := old
      obtain ⟨l', e'?⟩ := new
      simp only
      split
      · exact .inl rfl
      · exact .inl rfl
      · exact .inl rfl
      · rename_i e hold hnew
        by_cases hl : l = l'
        · simp only [hl, ne_eq, not_true_eq_false, ↓reduceIte]
          exact .inl rfl
        · simp only [ne_eq, hl, not_false_eq_true, ↓reduceIte]
          exact .inr ⟨l, e, l', e'?, rfl, hold, rfl, hnew, rfl⟩

/-! ## §5 Errors of another kind -/

section Errors

variable {α ε : Type} {x : Files α} {wrap : IoFailure → ε} {t t' : FileTree}

theorem orFail_ok {a : α} (h : x t = .ok a t') : Files.orFail x wrap t = .ok a t' := by
  simp only [Files.orFail, h]

theorem orFail_error {e : IoFailure} (h : x t = .error e t') :
    Files.orFail x wrap t = .error (wrap e) t' := by
  simp only [Files.orFail, h]

theorem orFail_eq_ok {a : α} : Files.orFail x wrap t = .ok a t' ↔ x t = .ok a t' := by
  unfold Files.orFail
  cases x t with
  | ok a t₁ => simp
  | error e t₁ => simp

theorem preserves_orFail {P : FileTree → Prop} (h : Preserves P x) :
    Preserves P (Files.orFail x wrap) := by
  intro t ht
  have hafter := h t ht
  cases hx : x t with
  | ok a t' =>
    rw [hx] at hafter
    rw [orFail_ok hx]
    exact hafter
  | error e t' =>
    rw [hx] at hafter
    rw [orFail_error hx]
    exact hafter

end Errors

end BackupVault.FileTree
