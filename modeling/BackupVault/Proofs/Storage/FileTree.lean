import BackupVault.Proofs.Storage.Path

/-!
# Where paths lead

A file tree is a map from locations to entries, and a walk over a path asks it what stands at the
locations on the way.  A walk over a longer path goes on from where the shorter one leads, and it
ends at the same place in every tree that has the directories and links of the way.

## Overview

- `FileTree.lookup_insert`, `FileTree.lookup_erase`: the map
- `FileTree.Keeps`: a tree with all directories and links of another one
- `FileTree.Leads`: a path leads to a directory
- `FileTree.Leads.resolve_child`, `FileTree.Leads.resolve_missing`: paths one step further down
-/

set_option autoImplicit false

namespace BackupVault.FileTree

/-! ## §1 The map -/

@[simp]
theorem lookup_nil (t : FileTree) : t.lookup [] = some .directory := rfl

theorem lookup_cons (t : FileTree) (x : Bytes) (l : Location) :
    t.lookup (x :: l) = (t.entries.find? (·.1 == x :: l)).map (·.2) := rfl

theorem find_filter {α : Type} (p q : α → Bool) (xs : List α) (h : ∀ x, q x = true → p x = true) :
    (xs.filter p).find? q = xs.find? q := by
  induction xs with
  | nil => rfl
  | cons x xs ih =>
    cases hp : p x with
    | true => rw [List.filter_cons_of_pos hp, List.find?_cons, List.find?_cons, ih]
    | false =>
      -- What is filtered out would not have been found.
      have hq : q x = false := by
        cases hq : q x with
        | false => rfl
        | true => rw [h x hq] at hp; cases hp
      rw [List.filter_cons_of_neg (by rw [hp]; exact Bool.false_ne_true), List.find?_cons, hq, ih]

theorem lookup_erase_self (t : FileTree) {l : Location} (h : l ≠ []) :
    (t.erase l).lookup l = none := by
  cases l with
  | nil => exact absurd rfl h
  | cons x l =>
    rw [lookup_cons, erase, Option.map_eq_none_iff, List.find?_eq_none]
    intro e he
    have hne := (List.mem_filter.mp he).2
    simpa using hne

theorem lookup_erase_of_ne (t : FileTree) {l l' : Location} (h : l' ≠ l) :
    (t.erase l).lookup l' = t.lookup l' := by
  cases l' with
  | nil => rfl
  | cons x l' =>
    rw [lookup_cons, lookup_cons, erase, find_filter]
    intro e he
    simp only [beq_iff_eq] at he
    simp only [bne_iff_ne, ne_eq, he]
    exact h

theorem lookup_insert_self (t : FileTree) {l : Location} (h : l ≠ []) (e : Entry) :
    (t.insert l e).lookup l = some e := by
  cases l with
  | nil => exact absurd rfl h
  | cons x l =>
    have hnone := lookup_erase_self t h
    rw [lookup_cons, Option.map_eq_none_iff] at hnone
    rw [lookup_cons, insert, List.find?_append, hnone, Option.none_or, List.find?_singleton]
    simp

theorem lookup_insert_of_ne (t : FileTree) {l l' : Location} (h : l' ≠ l) (e : Entry) :
    (t.insert l e).lookup l' = t.lookup l' := by
  -- Inserting erases first, which is no matter for another location.
  rw [← lookup_erase_of_ne t h]
  cases l' with
  | nil => rfl
  | cons x l' =>
    rw [lookup_cons, lookup_cons, insert, List.find?_append, List.find?_singleton]
    have hne : (l == x :: l') = false := beq_false_of_ne fun heq => h heq.symm
    simp [hne]

/-- Only the last entry put at a location counts. -/
theorem insert_insert (t : FileTree) (l : Location) (e e' : Entry) :
    (t.insert l e).insert l e' = t.insert l e' := by
  unfold insert erase
  simp [List.filter_filter]

/-- The tree `t'` is the tree `t` with this entry, or none, at one location. -/
structure Sets (t : FileTree) (l : Location) (e : Option Entry) (t' : FileTree) : Prop where
  self : t'.lookup l = e
  others : ∀ l', l' ≠ l → t'.lookup l' = t.lookup l'
  workingDirectory : t'.workingDirectory = t.workingDirectory
  sizeLimit : t'.sizeLimit = t.sizeLimit

theorem sets_insert (t : FileTree) {l : Location} (h : l ≠ []) (e : Entry) :
    t.Sets l (some e) (t.insert l e) where
  self := lookup_insert_self t h e
  others _ hne := lookup_insert_of_ne t hne e
  workingDirectory := rfl
  sizeLimit := rfl

theorem sets_erase (t : FileTree) {l : Location} (h : l ≠ []) : t.Sets l none (t.erase l) where
  self := lookup_erase_self t h
  others _ hne := lookup_erase_of_ne t hne
  workingDirectory := rfl
  sizeLimit := rfl

theorem Sets.refl {t : FileTree} {l : Location} {e : Option Entry} (h : t.lookup l = e) :
    t.Sets l e t where
  self := h
  others _ _ := rfl
  workingDirectory := rfl
  sizeLimit := rfl

/-- Only the last entry set at a location counts. -/
theorem Sets.trans {t t₁ t₂ : FileTree} {l : Location} {e₁ e₂ : Option Entry}
    (h : t.Sets l e₁ t₁) (h' : t₁.Sets l e₂ t₂) : t.Sets l e₂ t₂ where
  self := h'.self
  others l' hne := (h'.others l' hne).trans (h.others l' hne)
  workingDirectory := h'.workingDirectory.trans h.workingDirectory
  sizeLimit := h'.sizeLimit.trans h.sizeLimit

/-! ## §2 Walks to a directory -/

section Steps

variable {t : FileTree} {base : Location} {s : Bytes} {rest : List Bytes}

theorem walk_idle (hbase : t.lookup base = some .directory) (hidle : Path.isIdle s = true)
    (follow : Bool) (links : Nat) :
    t.walk follow links base (s :: rest) = t.walk follow links base rest := by
  rw [FileTree.walk]
  simp only [hbase, hidle, ↓reduceIte]

theorem walk_above (hbase : t.lookup base = some .directory) (follow : Bool) (links : Nat) :
    t.walk follow links base (Path.above :: rest) = t.walk follow links base.dropLast rest := by
  have hidle : Path.isIdle Path.above = false := by decide
  rw [FileTree.walk]
  simp only [hbase, hidle, Bool.false_eq_true, ↓reduceIte]

/-- What comes of a step down is told by what stands there. -/
theorem walk_step (hbase : t.lookup base = some .directory) (hidle : Path.isIdle s = false)
    (habove : s ≠ Path.above) (hsize : s.size ≤ maxSegment) (follow : Bool) (links : Nat) :
    t.walk follow links base (s :: rest) =
      match t.lookup (base ++ [s]) with
      | none =>
        if rest.all (·.isEmpty) then .ok { location := base ++ [s], entry := none }
        else .error .notFound
      | some (.link target) =>
        if rest.isEmpty && !follow then
          .ok { location := base ++ [s], entry := some (.link target) }
        else
          match links with
          | 0 => .error .linkLoop
          | links + 1 =>
            t.walk follow links (if target.isAbsolute then [] else base) (target.segments ++ rest)
      | some .directory => t.walk follow links (base ++ [s]) rest
      | some (.file content) =>
        if rest.isEmpty then .ok { location := base ++ [s], entry := some (.file content) }
        else .error .notADirectory := by
  rw [FileTree.walk, hbase]
  exact (if_neg (Bool.eq_false_iff.mp hidle)).trans
    ((if_neg habove).trans (if_neg (Nat.not_lt.mpr hsize)))

/-- The last step of a walk, where no link stands. -/
theorem walk_last (hbase : t.lookup base = some .directory) (hidle : Path.isIdle s = false)
    (habove : s ≠ Path.above) (hlink : ∀ target, t.lookup (base ++ [s]) ≠ some (.link target))
    (follow : Bool) (links : Nat) :
    t.walk follow links base [s] =
      if s.size ≤ maxSegment then
        .ok { location := base ++ [s], entry := t.lookup (base ++ [s]) }
      else .error .nameTooLong := by
  by_cases hsize : s.size ≤ maxSegment
  · rw [walk_step hbase hidle habove hsize, if_pos hsize]
    cases hnext : t.lookup (base ++ [s]) with
    | none => rfl
    | some e =>
      cases e with
      | file content => rfl
      | directory =>
        simp only
        rw [FileTree.walk, hnext]
      | link target => exact absurd hnext (hlink target)
  · rw [FileTree.walk]
    simp only [hbase, hidle, habove, Nat.lt_of_not_le hsize, hsize, Bool.false_eq_true, ↓reduceIte]

end Steps

/-- A walk that follows all links, from a directory to a directory; the last number says how many
more links may be followed on going on from there. -/
inductive Descends (t : FileTree) : Nat → Location → List Bytes → Nat → Location → Prop where
  | here {links : Nat} {base : Location} (hbase : t.lookup base = some .directory) :
      Descends t links base [] links base
  | idle {links k : Nat} {base l : Location} {s : Bytes} {rest : List Bytes}
      (hbase : t.lookup base = some .directory) (hidle : Path.isIdle s = true)
      (hrest : Descends t links base rest k l) : Descends t links base (s :: rest) k l
  | up {links k : Nat} {base l : Location} {rest : List Bytes}
      (hbase : t.lookup base = some .directory)
      (hrest : Descends t links base.dropLast rest k l) :
      Descends t links base (Path.above :: rest) k l
  | down {links k : Nat} {base l : Location} {s : Bytes} {rest : List Bytes}
      (hbase : t.lookup base = some .directory) (hidle : Path.isIdle s = false)
      (habove : s ≠ Path.above) (hsize : s.size ≤ maxSegment)
      (hnext : t.lookup (base ++ [s]) = some .directory)
      (hrest : Descends t links (base ++ [s]) rest k l) : Descends t links base (s :: rest) k l
  | follow {links k : Nat} {base l : Location} {s : Bytes} {rest : List Bytes} {target : Path}
      (hbase : t.lookup base = some .directory) (hidle : Path.isIdle s = false)
      (habove : s ≠ Path.above) (hsize : s.size ≤ maxSegment)
      (hnext : t.lookup (base ++ [s]) = some (.link target))
      (hrest : Descends t links (if target.isAbsolute then [] else base) (target.segments ++ rest)
        k l) : Descends t (links + 1) base (s :: rest) k l

variable {t t' : FileTree} {l base : Location} {links k : Nat} {s : Bytes}

/-- A walk that finds a directory is one from directory to directory. -/
theorem descends_of_walk {segments : List Bytes}
    (h : t.walk true links base segments = .ok ⟨l, some .directory⟩) :
    ∃ k, t.Descends links base segments k l := by
  fun_induction FileTree.walk t true links base segments with
  | case1 links base =>
    injection h with h
    injection h with hl he
    subst hl
    exact ⟨links, .here he⟩
  | case5 links base s rest hbase hidle ih =>
    obtain ⟨k, hk⟩ := ih h
    exact ⟨k, .idle hbase hidle hk⟩
  | case6 links base rest hbase hidle ih =>
    obtain ⟨k, hk⟩ := ih h
    exact ⟨k, .up hbase hk⟩
  | case12 base s rest hbase hidle habove hsize next target hnext hlast links ih =>
    obtain ⟨k, hk⟩ := ih h
    exact ⟨k, .follow hbase (Bool.eq_false_iff.mpr hidle) habove (Nat.not_lt.mp hsize)
      hnext hk⟩
  | case13 links base s rest hbase hidle habove hsize next hnext ih =>
    obtain ⟨k, hk⟩ := ih h
    exact ⟨k, .down hbase (Bool.eq_false_iff.mpr hidle) habove (Nat.not_lt.mp hsize)
      hnext hk⟩
  -- All other cases end in an error,
  | case2 | case3 | case4 | case7 | case9 | case11 | case15 => cases h
  -- or at something else.
  | case8 | case10 | case14 =>
    injection h with h
    injection h with hl he
    cases he

/-- A walk goes on from the directory it has come to, if there are more steps. -/
theorem Descends.walk_append {segments more : List Bytes}
    (h : t.Descends links base segments k l) (hmore : more ≠ []) (follow : Bool) :
    t.walk follow links base (segments ++ more) = t.walk follow k l more := by
  induction h with
  | here hbase => rfl
  | idle hbase hidle hrest ih => exact (walk_idle hbase hidle follow _).trans ih
  | up hbase hrest ih => exact (walk_above hbase follow _).trans ih
  | down hbase hidle habove hsize hnext hrest ih =>
    rw [List.cons_append, walk_step hbase hidle habove hsize, hnext]
    exact ih
  | @follow links k base l s rest target hbase hidle habove hsize hnext hrest ih =>
    -- The link is not the last step.
    have hlast : (rest ++ more).isEmpty = false := by
      rw [List.isEmpty_eq_false_iff]
      exact List.append_ne_nil_of_right_ne_nil _ hmore
    rw [List.cons_append, walk_step hbase hidle habove hsize, hnext]
    simp only [hlast, Bool.false_and, Bool.false_eq_true, ↓reduceIte]
    rw [← List.append_assoc]
    exact ih

theorem Descends.walk {segments : List Bytes} (h : t.Descends links base segments k l) :
    t.walk true links base segments = .ok ⟨l, some .directory⟩ := by
  induction h with
  | here hbase => rw [FileTree.walk, hbase]
  | idle hbase hidle hrest ih => exact (walk_idle hbase hidle true _).trans ih
  | up hbase hrest ih => exact (walk_above hbase true _).trans ih
  | down hbase hidle habove hsize hnext hrest ih =>
    rw [walk_step hbase hidle habove hsize, hnext]
    exact ih
  | follow hbase hidle habove hsize hnext hrest ih =>
    rw [walk_step hbase hidle habove hsize, hnext]
    simp only [Bool.not_true, Bool.and_false, Bool.false_eq_true, ↓reduceIte]
    exact ih

/-- A walk that does not follow a link at the end comes to something, too. -/
theorem Descends.walk_link {segments : List Bytes} (h : t.Descends links base segments k l) :
    ∃ l' e, t.walk false links base segments = .ok ⟨l', some e⟩ := by
  induction h with
  | here hbase => exact ⟨_, _, by rw [FileTree.walk, hbase]⟩
  | idle hbase hidle hrest ih => rwa [walk_idle hbase hidle]
  | up hbase hrest ih => rwa [walk_above hbase]
  | down hbase hidle habove hsize hnext hrest ih =>
    rw [walk_step hbase hidle habove hsize, hnext]
    exact ih
  | @follow links k base l s rest target hbase hidle habove hsize hnext hrest ih =>
    rw [walk_step hbase hidle habove hsize, hnext]
    simp only [Bool.not_false, Bool.and_true]
    -- The link itself is at the end, or it is followed.
    split
    · exact ⟨_, _, rfl⟩
    · exact ih

theorem Descends.lookup {segments : List Bytes} (h : t.Descends links base segments k l) :
    t.lookup l = some .directory := by
  induction h with
  | here hbase => exact hbase
  | idle _ _ _ ih | up _ _ ih | down _ _ _ _ _ _ ih | follow _ _ _ _ _ _ ih => exact ih

/-- An empty step at the end makes no difference. -/
theorem Descends.of_append_empty {segments : List Bytes}
    (h : t.Descends links base (segments ++ [ByteArray.empty]) k l) :
    t.Descends links base segments k l := by
  -- The steps have to be variables for the induction; each is one of `segments` or the empty one.
  generalize hsegs : segments ++ [ByteArray.empty] = all at h
  induction h generalizing segments with
  | here hbase => cases List.append_ne_nil_of_right_ne_nil _ (List.cons_ne_nil _ _) hsegs
  | idle hbase hidle hrest ih =>
    cases segments with
    | nil => cases hsegs; exact hrest
    | cons s rest => cases hsegs; exact .idle hbase hidle (ih rfl)
  | up hbase hrest ih =>
    cases segments with
    | nil => cases hsegs
    | cons s rest => cases hsegs; exact .up hbase (ih rfl)
  | down hbase hidle habove hsize hnext hrest ih =>
    cases segments with
    | nil => cases hsegs; cases hidle
    | cons s rest => cases hsegs; exact .down hbase hidle habove hsize hnext (ih rfl)
  | follow hbase hidle habove hsize hnext hrest ih =>
    cases segments with
    | nil => cases hsegs; cases hidle
    | cons s rest =>
      cases hsegs
      exact .follow hbase hidle habove hsize hnext (ih (List.append_assoc ..))

/-! ## §3 Keeping directories and links -/

/-- The tree `t'` has the directories and links of `t`, and begins paths where `t` does. -/
structure Keeps (t t' : FileTree) : Prop where
  directory : ∀ l, t.lookup l = some .directory → t'.lookup l = some .directory
  link : ∀ l target, t.lookup l = some (.link target) → t'.lookup l = some (.link target)
  workingDirectory : t'.workingDirectory = t.workingDirectory

theorem Keeps.refl (t : FileTree) : t.Keeps t := ⟨fun _ h => h, fun _ _ h => h, rfl⟩

theorem Keeps.trans {t₂ : FileTree} (h : t.Keeps t') (h' : t'.Keeps t₂) : t.Keeps t₂ where
  directory l hl := h'.directory l (h.directory l hl)
  link l target hl := h'.link l target (h.link l target hl)
  workingDirectory := h'.workingDirectory.trans h.workingDirectory

/-- Where there is no directory and no link, any entry may be set. -/
theorem Sets.keeps {e : Option Entry} (h : t.Sets l e t')
    (hold : ∀ old, t.lookup l = some old → ∃ content, old = .file content) : t.Keeps t' where
  directory l' hl' := by
    -- At the location itself only a file can stand.
    by_cases heq : l' = l
    · obtain ⟨content, hfile⟩ := hold _ (heq ▸ hl')
      cases hfile
    · rw [h.others l' heq, hl']
  link l' target hl' := by
    by_cases heq : l' = l
    · obtain ⟨content, hfile⟩ := hold _ (heq ▸ hl')
      cases hfile
    · rw [h.others l' heq, hl']
  workingDirectory := h.workingDirectory

/-- A walk to a directory meets only directories and links, so that it ends there in every tree
that keeps them. -/
theorem Keeps.descends (h : t.Keeps t') {segments : List Bytes}
    (hd : t.Descends links base segments k l) : t'.Descends links base segments k l := by
  induction hd with
  | here hbase => exact .here (h.directory _ hbase)
  | idle hbase hidle hrest ih => exact .idle (h.directory _ hbase) hidle ih
  | up hbase hrest ih => exact .up (h.directory _ hbase) ih
  | down hbase hidle habove hsize hnext hrest ih =>
    exact .down (h.directory _ hbase) hidle habove hsize (h.directory _ hnext) ih
  | follow hbase hidle habove hsize hnext hrest ih =>
    exact .follow (h.directory _ hbase) hidle habove hsize (h.link _ _ hnext) ih

/-! ## §4 Paths -/

variable {p q r : Path}

/-- The path leads to a directory. -/
def Leads (t : FileTree) (p : Path) (l : Location) : Prop :=
  t.resolve true p = .ok ⟨l, some .directory⟩

/-- A path that can be asked for is walked, unless it is too long. -/
theorem resolve_eq (hne : p.bytes.isEmpty = false) (hzero : ∀ x ∈ p.bytes.data.toList, x ≠ 0)
    (follow : Bool) :
    t.resolve follow p =
      if p.bytes.size ≤ maxPath then
        t.walk follow maxLinks (if p.isAbsolute then [] else t.workingDirectory) p.segments
      else .error .nameTooLong := by
  have hall : Bytes.allFrom p.bytes 0 (· != 0) = true := by
    apply Bytes.allFrom_eq_true_iff.mpr
    intro x hx
    exact bne_iff_ne.mpr (hzero x hx)
  by_cases hsize : p.bytes.size ≤ maxPath
  · simp only [resolve, hne, hall, Nat.not_lt.mpr hsize, hsize, Bool.false_eq_true, Bool.not_true,
      ↓reduceIte]
  · simp only [resolve, hne, hall, Nat.lt_of_not_le hsize, hsize, Bool.false_eq_true,
      Bool.not_true, ↓reduceIte]

theorem resolve_eq_walk (hne : p.bytes.isEmpty = false)
    (hzero : ∀ x ∈ p.bytes.data.toList, x ≠ 0) (hsize : p.bytes.size ≤ maxPath) (follow : Bool) :
    t.resolve follow p =
      t.walk follow maxLinks (if p.isAbsolute then [] else t.workingDirectory) p.segments :=
  (resolve_eq hne hzero follow).trans (if_pos hsize)

/-- A path that leads somewhere could be asked for, and was walked. -/
theorem inv_of_resolve {follow : Bool} {place : Place} (h : t.resolve follow p = .ok place) :
    p.bytes.isEmpty = false ∧ (∀ x ∈ p.bytes.data.toList, x ≠ 0) ∧ p.bytes.size ≤ maxPath ∧
      t.walk follow maxLinks (if p.isAbsolute then [] else t.workingDirectory) p.segments =
        .ok place := by
  unfold resolve at h
  split at h
  · cases h
  · rename_i hne
    split at h
    · cases h
    · rename_i hzero
      split at h
      · cases h
      · rename_i hsize
        rw [Bool.not_eq_true', Bool.not_eq_false, Bytes.allFrom_eq_true_iff] at hzero
        exact ⟨Bool.eq_false_iff.mpr hne, fun x hx => bne_iff_ne.mp (hzero x hx),
          Nat.not_lt.mp hsize, h⟩

theorem Leads.inv (h : t.Leads p l) :
    p.bytes.isEmpty = false ∧ (∀ x ∈ p.bytes.data.toList, x ≠ 0) ∧ p.bytes.size ≤ maxPath ∧
      ∃ k, t.Descends maxLinks (if p.isAbsolute then [] else t.workingDirectory) p.segments k
        l := by
  obtain ⟨hne, hzero, hsize, hwalk⟩ := inv_of_resolve h
  exact ⟨hne, hzero, hsize, descends_of_walk hwalk⟩

theorem Leads.lookup (h : t.Leads p l) : t.lookup l = some .directory := by
  obtain ⟨-, -, -, k, hk⟩ := h.inv
  exact hk.lookup

/-- Something stands where the path leads if a link at the end is not followed. -/
theorem Leads.resolve_link (h : t.Leads p l) : ∃ l' e, t.resolve false p = .ok ⟨l', some e⟩ := by
  obtain ⟨hne, hzero, hsize, k, hk⟩ := h.inv
  rw [resolve_eq_walk hne hzero hsize]
  exact hk.walk_link

theorem Leads.keeps (h : t.Leads p l) (hkeeps : t.Keeps t') : t'.Leads p l := by
  obtain ⟨hne, hzero, hsize, k, hk⟩ := h.inv
  unfold Leads
  rw [resolve_eq_walk hne hzero hsize, hkeeps.workingDirectory]
  exact (hkeeps.descends hk).walk

/-- Both segments of the root path are empty, so that the walk stays at the top. -/
theorem leads_top (t : FileTree) : t.Leads (Path.ofText "/") [] := by
  have hsegments : (Path.ofText "/").segments = [ByteArray.empty, ByteArray.empty] := by
    decide +kernel
  have hidle : Path.isIdle ByteArray.empty = true := rfl
  have habsolute : (Path.ofText "/").isAbsolute = true := by decide +kernel
  have hbytes : ∀ x ∈ (Path.ofText "/").bytes.data.toList, x ≠ 0 := by decide +kernel
  rw [Leads, resolve_eq_walk rfl hbytes (by decide), hsegments, habsolute]
  simp [walk, lookup_nil, hidle]

/-- The walk of a path one step further goes on with this step. -/
theorem Leads.walk_below (h : t.Leads p l) (hq : p.Extends s q) :
    ∃ k, ∀ follow rest,
      t.walk follow maxLinks (if q.isAbsolute then [] else t.workingDirectory)
        (q.segments ++ rest) = t.walk follow k l (s :: rest) := by
  obtain ⟨-, -, -, k, hk⟩ := h.inv
  obtain ⟨S, hS, hp⟩ := hq.segments
  -- An empty segment at the end of `p` is not in `q`, but it makes no difference to the walk.
  have hdescends : t.Descends maxLinks (if p.isAbsolute then [] else t.workingDirectory) S k l := by
    rcases hp with hp | hp
    · rwa [hp] at hk
    · rw [hp] at hk
      exact hk.of_append_empty
  refine ⟨k, fun follow rest => ?_⟩
  rw [hS, hq.isAbsolute, List.append_assoc, List.singleton_append]
  exact hdescends.walk_append (List.cons_ne_nil _ _) follow

/-- A path one step below a directory leads to what stands there, unless it is too long or a link
stands there. -/
theorem Leads.resolve_child (h : t.Leads p l) (hq : p.Extends s q) (hs : Path.IsStep s)
    (hlink : ∀ target, t.lookup (l ++ [s]) ≠ some (.link target)) (follow : Bool) :
    t.resolve follow q =
      if q.bytes.size ≤ maxPath ∧ s.size ≤ maxSegment then
        .ok ⟨l ++ [s], t.lookup (l ++ [s])⟩
      else .error .nameTooLong := by
  obtain ⟨-, hzero, -, -⟩ := h.inv
  obtain ⟨k, hk⟩ := h.walk_below hq
  have hwalk := hk follow []
  rw [List.append_nil] at hwalk
  -- The lengths are checked in this order: the path first, the step when it is taken.
  rw [resolve_eq hq.nonempty (hq.no_zero hs hzero), hwalk,
    walk_last h.lookup hs.notIdle hs.notAbove hlink]
  by_cases hpath : q.bytes.size ≤ maxPath
  · simp only [hpath, ↓reduceIte, true_and]
  · simp only [hpath, ↓reduceIte, false_and]

/-- The last segment of a path that ends in a step is not empty, so that the next step is put behind
all of them. -/
theorem segments_of_extends (hq : p.Extends s q) (hs : Path.IsStep s) {s' : Bytes}
    (hr : q.Extends s' r) : r.segments = q.segments ++ [s'] := by
  obtain ⟨S, hS, hS'⟩ := hr.segments
  obtain ⟨T, hT, -⟩ := hq.segments
  rcases hS' with hS' | hS'
  · rw [hS, hS']
  · -- The last segment of `q` is the step `s`, which is not empty.
    rw [hT] at hS'
    have hlast := (List.append_inj_right' hS' rfl)
    cases hlast
    cases hs.notIdle

/-- A path two steps below a directory is walked from there, unless it is too long. -/
theorem Leads.resolve_two (h : t.Leads p l) (hq : p.Extends s q) (hs : Path.IsStep s) {s' : Bytes}
    (hr : q.Extends s' r) (hs' : Path.IsStep s') (follow : Bool) :
    ∃ k, t.resolve follow r =
      if r.bytes.size ≤ maxPath then t.walk follow k l [s, s'] else .error .nameTooLong := by
  obtain ⟨k, hk⟩ := h.walk_below hq
  obtain ⟨-, hzero, -, -⟩ := h.inv
  refine ⟨k, ?_⟩
  rw [resolve_eq hr.nonempty (hr.no_zero hs' (hq.no_zero hs hzero)), hr.isAbsolute,
    segments_of_extends hq hs hr, hk]

/-- A path two steps below a directory leads to what stands there if a directory stands at the first
of them, and nowhere otherwise. -/
theorem Leads.resolve_grandchild (h : t.Leads p l) (hq : p.Extends s q) (hs : Path.IsStep s)
    (hsize : s.size ≤ maxSegment) {s' : Bytes} (hr : q.Extends s' r) (hs' : Path.IsStep s')
    (hlink : ∀ target, t.lookup (l ++ [s]) ≠ some (.link target))
    (hlink' : ∀ target, t.lookup (l ++ [s] ++ [s']) ≠ some (.link target)) (follow : Bool) :
    t.resolve follow r =
      if r.bytes.size ≤ maxPath then
        match t.lookup (l ++ [s]) with
        | some .directory =>
          if s'.size ≤ maxSegment then
            .ok ⟨l ++ [s] ++ [s'], t.lookup (l ++ [s] ++ [s'])⟩
          else .error .nameTooLong
        | some _ => .error .notADirectory
        | none => .error .notFound
      else .error .nameTooLong := by
  obtain ⟨k, hk⟩ := h.resolve_two hq hs hr hs' follow
  have hempty : s'.isEmpty = false := (Bool.or_eq_false_iff.mp hs'.notIdle).1
  rw [hk, walk_step h.lookup hs.notIdle hs.notAbove hsize]
  congr 1
  cases hnext : t.lookup (l ++ [s]) with
  | none => simp only [List.all_cons, hempty, Bool.false_and, Bool.false_eq_true, ↓reduceIte]
  | some e =>
    cases e with
    | file content => rfl
    | link target => exact absurd hnext (hlink target)
    | directory => exact walk_last hnext hs'.notIdle hs'.notAbove hlink' follow k

/-- A path two steps below a directory leads nowhere if nothing stands at the first of them. -/
theorem Leads.resolve_missing (h : t.Leads p l) (hq : p.Extends s q) (hs : Path.IsStep s)
    {s' : Bytes} (hr : q.Extends s' r) (hs' : Path.IsStep s')
    (hnone : t.lookup (l ++ [s]) = none) (follow : Bool) :
    ∃ e, t.resolve follow r = .error e := by
  obtain ⟨k, hk⟩ := h.resolve_two hq hs hr hs' follow
  have hempty : s'.isEmpty = false := (Bool.or_eq_false_iff.mp hs'.notIdle).1
  rw [hk]
  split
  · rw [FileTree.walk]
    simp only [h.lookup, hs.notIdle, hs.notAbove, hnone, Bool.false_eq_true, ↓reduceIte,
      List.all_cons, List.all_nil, hempty, Bool.false_and]
    split <;> exact ⟨_, rfl⟩
  · exact ⟨_, rfl⟩

/-- A path one step below a directory, where a directory stands. -/
theorem Leads.child (h : t.Leads p l) (hq : p.Extends s q) (hs : Path.IsStep s)
    (hsize : s.size ≤ maxSegment) (hpath : q.bytes.size ≤ maxPath)
    (hnext : t.lookup (l ++ [s]) = some .directory) : t.Leads q (l ++ [s]) := by
  have hlink : ∀ target, t.lookup (l ++ [s]) ≠ some (.link target) := by
    intro target hl
    rw [hnext] at hl
    cases hl
  unfold Leads
  rw [h.resolve_child hq hs hlink, if_pos ⟨hpath, hsize⟩, hnext]

end BackupVault.FileTree
