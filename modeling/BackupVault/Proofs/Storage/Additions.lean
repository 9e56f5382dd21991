import BackupVault.Proofs.Storage.Regions

/-!
# Directories that are added

Making directories adds them to a tree and changes nothing else, whether all of them are made or
not.  A path that leads to something still leads there in a tree with more in it, so that whatever
was read or listed before is read and listed as it was.

## Overview

- `FileTree.Grows`: a tree with everything that is in another one
- `FileTree.Grows.resolve`, `FileTree.Grows.resolve_new`: where paths lead in it
- `FileTree.Adds`: a tree with more directories
- `FileTree.makeDirectories_adds`: what making directories does
-/

set_option autoImplicit false

namespace BackupVault.FileTree

variable {t t' t₁ : FileTree} {p q : Path} {l base : Location} {follow : Bool} {links : Nat}
  {e : Entry} {e? : Option Entry} {s : Bytes} {segments : List Bytes}

/-! ## §1 What stands where a path leads -/

theorem lookup_of_walk (h : t.walk follow links base segments = .ok ⟨l, e?⟩) :
    t.lookup l = e? := by
  fun_induction FileTree.walk t follow links base segments with
  | case1 links base =>
    injection h with h
    injection h with hl he
    rw [← hl, he]
  | case5 links base s rest hbase hidle ih => exact ih h
  | case6 links base rest hbase hidle ih => exact ih h
  | case12 base s rest hbase hidle habove hsize next target hnext hlast links ih => exact ih h
  | case13 links base s rest hbase hidle habove hsize next hnext ih => exact ih h
  -- The walk ends one step further down, and says what it finds there.
  | case8 links base s rest hbase hidle habove hsize next hnext
  | case10 links base s rest hbase hidle habove hsize next target hnext
  | case14 links base s rest hbase hidle habove hsize next content hnext =>
    injection h with h
    injection h with hl he
    rw [← hl, hnext, he]
  | case2 | case3 | case4 | case7 | case9 | case11 | case15 => cases h

theorem lookup_of_resolve (h : t.resolve follow p = .ok ⟨l, e?⟩) : t.lookup l = e? := by
  obtain ⟨-, -, -, hwalk⟩ := inv_of_resolve h
  exact lookup_of_walk hwalk

/-! ## §2 Trees with more in them -/

/-- The tree `t'` has everything that is in `t`, and begins paths where `t` does. -/
structure Grows (t t' : FileTree) : Prop where
  entry : ∀ l e, t.lookup l = some e → t'.lookup l = some e
  workingDirectory : t'.workingDirectory = t.workingDirectory

namespace Grows

/-- A walk that finds something only meets what is there. -/
theorem walk (h : t.Grows t') (hwalk : t.walk follow links base segments = .ok ⟨l, some e⟩) :
    t'.walk follow links base segments = .ok ⟨l, some e⟩ := by
  fun_induction FileTree.walk t follow links base segments with
  | case1 links base =>
    injection hwalk with hwalk
    injection hwalk with hl he
    rw [FileTree.walk, h.entry _ _ he, hl]
  | case5 links base s rest hbase hidle ih =>
    exact (walk_idle (h.entry _ _ hbase) hidle follow links).trans (ih hwalk)
  | case6 links base rest hbase hidle ih =>
    exact (walk_above (h.entry _ _ hbase) follow links).trans (ih hwalk)
  | case10 links base s rest hbase hidle habove hsize next target hnext hlast =>
    rw [walk_step (h.entry _ _ hbase) (Bool.eq_false_iff.mpr hidle) habove (Nat.not_lt.mp hsize),
      h.entry _ _ hnext]
    exact (if_pos hlast).trans hwalk
  | case12 base s rest hbase hidle habove hsize next target hnext hlast links ih =>
    rw [walk_step (h.entry _ _ hbase) (Bool.eq_false_iff.mpr hidle) habove (Nat.not_lt.mp hsize),
      h.entry _ _ hnext]
    exact (if_neg hlast).trans (ih hwalk)
  | case13 links base s rest hbase hidle habove hsize next hnext ih =>
    rw [walk_step (h.entry _ _ hbase) (Bool.eq_false_iff.mpr hidle) habove (Nat.not_lt.mp hsize),
      h.entry _ _ hnext]
    exact ih hwalk
  | case14 links base s rest hbase hidle habove hsize next content hnext hlast =>
    rw [walk_step (h.entry _ _ hbase) (Bool.eq_false_iff.mpr hidle) habove (Nat.not_lt.mp hsize),
      h.entry _ _ hnext]
    exact (if_pos hlast).trans hwalk
  | case8 =>
    injection hwalk with hwalk
    injection hwalk with hl he
    cases he
  | case2 | case3 | case4 | case7 | case9 | case11 | case15 => cases hwalk

/-- A walk that ended where nothing was finds the file that is there now.  Its last step is not
empty, since an empty one would ask for a directory. -/
theorem walk_new (h : t.Grows t') {content : Bytes} (hnew : t'.lookup l = some (.file content))
    (hlast : ∀ x ∈ segments.getLast?, x.isEmpty = false)
    (hwalk : t.walk false links base segments = .ok ⟨l, none⟩) :
    t'.walk false links base segments = .ok ⟨l, some (.file content)⟩ := by
  -- The last step is the same after any step but the last.
  have hrest {s : Bytes} {rest : List Bytes} (h : ∀ x ∈ (s :: rest).getLast?, x.isEmpty = false) :
      ∀ x ∈ rest.getLast?, x.isEmpty = false := by
    cases rest with
    | nil => nofun
    | cons s' rest => rwa [List.getLast?_cons_cons] at h
  generalize hfollow : false = follow at hwalk ⊢
  fun_induction FileTree.walk t follow links base segments with
  | case1 links base =>
    injection hwalk with hwalk
    injection hwalk with hl he
    rw [FileTree.walk, hl, hnew]
  | case5 links base s rest hbase hidle ih =>
    exact (walk_idle (h.entry _ _ hbase) hidle _ links).trans (ih (hrest hlast) hwalk)
  | case6 links base rest hbase hidle ih =>
    exact (walk_above (h.entry _ _ hbase) _ links).trans (ih (hrest hlast) hwalk)
  | case8 links base s rest hbase hidle habove hsize next hnext hend =>
    injection hwalk with hwalk
    injection hwalk with hl he
    -- No empty steps come after this one.
    have hnil : rest = [] := by
      cases hrest' : rest.getLast? with
      | none => exact List.getLast?_eq_none_iff.mp hrest'
      | some x =>
        have hempty := List.all_eq_true.mp hend x (List.mem_of_getLast? hrest')
        rw [hrest hlast x hrest'] at hempty
        cases hempty
    have hnew' : t'.lookup (base ++ [s]) = some (.file content) :=
      (congrArg t'.lookup hl).trans hnew
    rw [walk_step (h.entry _ _ hbase) (Bool.eq_false_iff.mpr hidle) habove (Nat.not_lt.mp hsize),
      hnew', hnil, ← hl]
    rfl
  | case12 base s rest hbase hidle habove hsize next target hnext hend links ih =>
    -- The link is followed, so that it is not the last step.
    have hne : rest ≠ [] := by
      rintro rfl
      exact hend (by rw [← hfollow]; rfl)
    have hlast' : ∀ x ∈ (target.segments ++ rest).getLast?, x.isEmpty = false := by
      have hlast := hrest hlast
      rw [List.getLast?_eq_some_getLast hne] at hlast
      rw [List.getLast?_append, List.getLast?_eq_some_getLast hne]
      exact hlast
    rw [walk_step (h.entry _ _ hbase) (Bool.eq_false_iff.mpr hidle) habove (Nat.not_lt.mp hsize),
      h.entry _ _ hnext]
    exact (if_neg hend).trans (ih hlast' hwalk)
  | case13 links base s rest hbase hidle habove hsize next hnext ih =>
    rw [walk_step (h.entry _ _ hbase) (Bool.eq_false_iff.mpr hidle) habove (Nat.not_lt.mp hsize),
      h.entry _ _ hnext]
    exact ih (hrest hlast) hwalk
  | case10 | case14 =>
    injection hwalk with hwalk
    injection hwalk with hl he
    cases he
  | case2 | case3 | case4 | case7 | case9 | case11 | case15 => cases hwalk

/-- A path leads to the same in a tree with more in it. -/
theorem resolve (h : t.Grows t') (hresolve : t.resolve follow p = .ok ⟨l, some e⟩) :
    t'.resolve follow p = .ok ⟨l, some e⟩ := by
  obtain ⟨hne, hzero, hsize, hwalk⟩ := inv_of_resolve hresolve
  rw [resolve_eq_walk hne hzero hsize, h.workingDirectory]
  exact h.walk hwalk

/-- A path that led to where nothing was leads to the file that is there now. -/
theorem resolve_new (h : t.Grows t') {content : Bytes} (hextends : p.Extends s q)
    (hs : Path.IsStep s) (hnew : t'.lookup l = some (.file content))
    (hresolve : t.resolve false q = .ok ⟨l, none⟩) :
    t'.resolve false q = .ok ⟨l, some (.file content)⟩ := by
  obtain ⟨hne, hzero, hsize, hwalk⟩ := inv_of_resolve hresolve
  obtain ⟨S, hS, -⟩ := hextends.segments
  rw [resolve_eq_walk hne hzero hsize, h.workingDirectory]
  refine h.walk_new hnew (fun x hx => ?_) hwalk
  rw [hS, List.getLast?_concat, Option.mem_some_iff] at hx
  exact hx ▸ (Bool.or_eq_false_iff.mp hs.notIdle).1

end Grows

/-- What is put where nothing was is added to the tree. -/
theorem grows_insert (hnone : t.lookup l = none) (e : Entry) : t.Grows (t.insert l e) where
  entry l' e' he' := by
    have hne : l' ≠ l := by
      rintro rfl
      rw [hnone] at he'
      cases he'
    rw [lookup_insert_of_ne t hne, he']
  workingDirectory := rfl

/-- Where nothing is there is nothing to erase. -/
theorem erase_of_lookup (hnone : t.lookup l = none) : t.erase l = t := by
  have hall : t.entries.filter (·.1 != l) = t.entries := by
    refine List.filter_eq_self.mpr fun x hx => ?_
    rw [bne_iff_ne]
    rintro rfl
    exact lookup_ne_none_of_mem hx hnone
  rw [erase, hall]

/-- Putting something where nothing was, and taking it away again. -/
theorem erase_insert (hnone : t.lookup l = none) (e : Entry) : (t.insert l e).erase l = t := by
  have herase : (t.insert l e).erase l = t.erase l := by
    unfold insert erase
    simp [List.filter_append, List.filter_filter]
  rw [herase, erase_of_lookup hnone]

/-! ## §3 Directories that are added -/

/-- The tree `t'` is the tree `t` with directories added behind everything else. -/
structure Adds (t t' : FileTree) : Prop where
  entries : ∃ made : List Location, t'.entries = t.entries ++ made.map fun l => (l, .directory)
  workingDirectory : t'.workingDirectory = t.workingDirectory
  sizeLimit : t'.sizeLimit = t.sizeLimit

theorem Adds.refl (t : FileTree) : t.Adds t := ⟨⟨[], (List.append_nil _).symm⟩, rfl, rfl⟩

theorem Adds.trans (h : t.Adds t₁) (h' : t₁.Adds t') : t.Adds t' := by
  obtain ⟨made, hmade⟩ := h.entries
  obtain ⟨made', hmade'⟩ := h'.entries
  exact ⟨⟨made ++ made', by rw [hmade', hmade, List.map_append, List.append_assoc]⟩,
    h'.workingDirectory.trans h.workingDirectory, h'.sizeLimit.trans h.sizeLimit⟩

theorem adds_insert (hnone : t.lookup l = none) : t.Adds (t.insert l .directory) where
  entries := ⟨[l], by rw [insert, erase_of_lookup hnone]; rfl⟩
  workingDirectory := rfl
  sizeLimit := rfl

namespace Adds

/-- Each location has what it had, or a directory came to where nothing was. -/
theorem lookup (h : t.Adds t') (l : Location) :
    t'.lookup l = t.lookup l ∨ t.lookup l = none ∧ t'.lookup l = some .directory := by
  obtain ⟨made, hmade⟩ := h.entries
  cases l with
  | nil => exact .inl rfl
  | cons x l =>
    rw [lookup_cons, lookup_cons, hmade, List.find?_append]
    cases hfind : t.entries.find? (·.1 == x :: l) with
    | some found => exact .inl rfl
    | none =>
      rw [Option.none_or]
      cases hnew : (made.map fun l => (l, Entry.directory)).find? (·.1 == x :: l) with
      | none => exact .inl rfl
      | some found =>
        obtain ⟨l', -, rfl⟩ := List.mem_map.mp (List.mem_of_find?_eq_some hnew)
        exact .inr ⟨rfl, rfl⟩

theorem grows (h : t.Adds t') : t.Grows t' where
  entry l e he := by
    rcases h.lookup l with hsame | ⟨hnone, -⟩
    · exact hsame.trans he
    · rw [hnone] at he
      cases he
  workingDirectory := h.workingDirectory

/-- The files are the same, and so are their contents. -/
theorem file_iff (h : t.Adds t') (l : Location) (content : Bytes) :
    t'.lookup l = some (.file content) ↔ t.lookup l = some (.file content) := by
  rcases h.lookup l with hsame | ⟨hnone, hdir⟩
  · rw [hsame]
  · rw [hnone, hdir]
    simp

/-- A directory that is added is none of the files that are listed. -/
theorem listed (h : t.Adds t') (l : Location) :
    (t'.children l).filterMap UserDirectory.listed? =
      (t.children l).filterMap UserDirectory.listed? := by
  obtain ⟨made, hmade⟩ := h.entries
  rw [children_eq, children_eq, hmade, List.filterMap_append, List.filterMap_append,
    List.append_right_eq_self, List.filterMap_eq_nil_iff]
  rintro ⟨name, e⟩ hchild
  obtain ⟨x, hx, hchild⟩ := List.mem_filterMap.mp hchild
  obtain ⟨l', -, rfl⟩ := List.mem_map.mp hx
  cases eq_of_childOf hchild
  rfl

end Adds

/-! ## §4 Making directories -/

theorem makeDirectory_adds (t : FileTree) (p : Path) :
    Preserves t.Adds (makeDirectory p) := by
  intro t₁ h
  cases hresolve : t₁.resolve false p with
  | error e =>
    unfold makeDirectory
    rw [bind_run_error (place_error hresolve)]
    exact h
  | ok place =>
    obtain ⟨l, e?⟩ := place
    cases e? with
    | some e =>
      rw [makeDirectory_some hresolve]
      exact h
    | none =>
      rw [makeDirectory_none hresolve]
      exact h.trans (adds_insert (lookup_of_resolve hresolve))

/-- A directory that is there by now will do, and nothing else changes. -/
theorem makeSteps_adds (t : FileTree) (p : Path) (steps : List Bytes) :
    Preserves t.Adds (makeSteps p steps) := by
  induction steps generalizing p with
  | nil => exact Preserves.pure ()
  | cons s up ih =>
    intro t₁ h
    have hmade := makeDirectory_adds t p t₁ h
    unfold makeSteps
    split
    · rename_i t₂ hmake
      rw [hmake] at hmade
      exact hmade
    · -- What is missing above is made first.
      rename_i t₂ hmake
      rw [hmake] at hmade
      have habove := ih (Path.ofSteps p.isAbsolute up.reverse) t₂ hmade
      split
      · rename_i e t₃ hup
        rw [hup] at habove
        exact habove
      · rename_i t₃ hup
        rw [hup] at habove
        have hagain := makeDirectory_adds t p t₃ habove
        split
        · rename_i t₄ hmake'
          rw [hmake'] at hagain
          exact hagain
        · rename_i e t₄ hmake'
          rw [hmake'] at hagain
          split <;> exact hagain
    · rename_i e t₂ hnot hmake
      rw [hmake] at hmade
      split <;> exact hmade

/-- Whatever comes of making directories, nothing changes but that directories are added. -/
theorem makeDirectories_adds (t : FileTree) (p : Path) :
    Preserves t.Adds (makeDirectories p) := makeSteps_adds t p _

end BackupVault.FileTree
