import BackupVault.Proofs.Storage.Additions

/-!
# Limits on the sizes of files

Where files are limited in size, writing stops at the limit, and the rest of the content is not on
disk.  A file is handed over in pieces, each of which is written while the next one is prepared, so
that a piece that was cut off is noticed with the next piece.  What is cut off from the last piece
is not noticed at all.

## Overview

- `Fits`, `fitting`: contents within a limit, and the part of a content that is
- `UserDirectory.handOver_eq`: what comes of handing over pieces
- `UserDirectory.reportedSize`: how much of a content is in pieces whose failure is noticed
- `UserDirectory.store_eq`: what storing a file comes to, in any tree
- `FileTree.unlimited`: a tree without its limit, in which the same can be found and made
-/

set_option autoImplicit false

namespace BackupVault

open FileTree

/-! ## §1 What is within a limit -/

/-- A file of this size is within the limit. -/
def Fits (limit : Option Nat) (size : Nat) : Prop := ∀ n ∈ limit, size ≤ n

instance (limit : Option Nat) (size : Nat) : Decidable (Fits limit size) :=
  match limit with
  | none => isTrue nofun
  | some n => decidable_of_iff (size ≤ n) (by simp [Fits])

/-- The part of a content that is within the limit. -/
def fitting (limit : Option Nat) (content : Bytes) : Bytes :=
  match limit with
  | none => content
  | some n => content.extract 0 n

section Fits

variable {limit : Option Nat} {size size' : Nat}

@[simp]
theorem fits_none (size : Nat) : Fits none size := nofun

@[simp]
theorem fits_some {n : Nat} : Fits (some n) size ↔ size ≤ n := by simp [Fits]

theorem Fits.mono (h : Fits limit size') (hle : size ≤ size') : Fits limit size :=
  fun n hn => Nat.le_trans hle (h n hn)

theorem fitting_of_fits {content : Bytes} (h : Fits limit content.size) :
    fitting limit content = content := by
  cases limit with
  | none => rfl
  | some n =>
    apply Bytes.ext_toList
    rw [fitting, Bytes.toList_extract, List.drop_zero, List.take_of_length_le (fits_some.mp h)]

/-- A content is cut off if, and only if, it is not within the limit. -/
theorem fitting_eq_iff {content : Bytes} :
    fitting limit content = content ↔ Fits limit content.size := by
  refine ⟨fun h => ?_, fitting_of_fits⟩
  cases limit with
  | none => exact fits_none _
  | some n =>
    have hsize := congrArg ByteArray.size h
    rw [fitting, ByteArray.size_extract] at hsize
    exact fits_some.mpr (by omega)

/-- What comes after the limit is not there. -/
theorem fitting_append {content : Bytes} (h : ¬ Fits limit content.size) (b : Bytes) :
    fitting limit (content ++ b) = fitting limit content := by
  cases limit with
  | none => exact absurd (fits_none _) h
  | some n =>
    have hsize : n ≤ content.data.toList.length := Nat.le_of_lt (Nat.not_le.mp (by simpa using h))
    apply Bytes.ext_toList
    rw [fitting, fitting, Bytes.toList_extract, Bytes.toList_extract,
      ByteArray.toList_data_append, List.take_append_of_le_length hsize]

end Fits

namespace UserDirectory

variable {t t' : FileTree} {l : Location} {old content : Bytes}

/-! ## §2 Handing over pieces -/

/-- At the end of a file that is within the limit, the part that fits is written. -/
theorem append_eq (hl : l ≠ []) (hold : Fits t.sizeLimit old.size) (b : Bytes) :
    append l b (t.insert l (.file old)) =
      if Fits t.sizeLimit (old ++ b).size then
        .ok () (t.insert l (.file (fitting t.sizeLimit (old ++ b))))
      else .error .fileTooLarge (t.insert l (.file (fitting t.sizeLimit (old ++ b)))) := by
  have hget : (get : Files FileTree) (t.insert l (.file old)) =
      .ok (t.insert l (.file old)) (t.insert l (.file old)) := rfl
  have hlimit : (t.insert l (.file old)).sizeLimit = t.sizeLimit := rfl
  have hput (c : Bytes) : (t.insert l (.file old)).insert l (.file c) = t.insert l (.file c) :=
    insert_insert t l _ _
  unfold append
  rw [bind_run_ok hget]
  simp only [lookup_insert_self t hl, hlimit]
  cases hn : t.sizeLimit with
  | none =>
    rw [if_pos (fits_none _)]
    exact congrArg (EStateM.Result.ok ()) (hput _)
  | some n =>
    rw [hn, fits_some] at hold
    simp only [fits_some, ByteArray.size_append]
    by_cases hfits : old.size + b.size ≤ n
    · rw [if_pos hfits, if_pos hfits, fitting_of_fits (by simpa using hfits)]
      exact congrArg (EStateM.Result.ok ()) (hput _)
    · -- The rest of the limit is filled up before the failure.
      have hcut : old ++ b.extract 0 (n - old.size) = fitting (some n) (old ++ b) := by
        apply Bytes.ext_toList
        rw [fitting, Bytes.toList_extract, ByteArray.toList_data_append,
          ByteArray.toList_data_append, Bytes.toList_extract, List.drop_zero, List.drop_zero,
          List.take_append, Bytes.length_toList, List.take_of_length_le hold]
      rw [if_neg hfits, if_neg hfits, ← hcut]
      exact congrArg (EStateM.Result.error IoFailure.fileTooLarge) (hput _)

/-- Byte strings put at the end of one another start with the first. -/
theorem foldl_append (b : Bytes) (pieces : List Bytes) :
    pieces.foldl (· ++ ·) b = b ++ pieces.foldl (· ++ ·) ByteArray.empty := by
  induction pieces generalizing b with
  | nil => exact (ByteArray.append_empty).symm
  | cons piece pieces ih =>
    rw [List.foldl_cons, List.foldl_cons, ih (b ++ piece), ih (ByteArray.empty ++ piece),
      ByteArray.empty_append, ByteArray.append_assoc]

/-- Handing over pieces fails if one of them but the last is cut off; the part that fits is in the
file afterwards, whether it failed or not. -/
theorem handOver_eq (hl : l ≠ []) (hold : Fits t.sizeLimit old.size) (pieces : List Bytes) :
    handOver l none pieces (t.insert l (.file old)) =
      if Fits t.sizeLimit (pieces.dropLast.foldl (· ++ ·) old).size then
        .ok () (t.insert l (.file (fitting t.sizeLimit (pieces.foldl (· ++ ·) old))))
      else
        .error .fileTooLarge
          (t.insert l (.file (fitting t.sizeLimit (pieces.foldl (· ++ ·) old)))) := by
  induction pieces generalizing old with
  | nil =>
    rw [List.dropLast_nil, List.foldl_nil, if_pos hold, fitting_of_fits hold]
    rfl
  | cons b pieces ih =>
    have happend := append_eq hl hold b
    by_cases hfits : Fits t.sizeLimit (old ++ b).size
    · -- A piece that fits leaves a file within the limit for the next ones.
      rw [if_pos hfits, fitting_of_fits hfits] at happend
      simp only [handOver, happend, ih hfits, List.foldl_cons]
      cases pieces with
      | nil =>
        simp only [List.dropLast_nil, List.dropLast_singleton, List.foldl_nil, hold, hfits]
      | cons c pieces => rfl
    · -- After a piece that was cut off, the next one finds its failure.
      rw [if_neg hfits] at happend
      have hcut : fitting t.sizeLimit ((b :: pieces).foldl (· ++ ·) old) =
          fitting t.sizeLimit (old ++ b) := by
        rw [List.foldl_cons, foldl_append, fitting_append hfits]
      rw [hcut]
      simp only [handOver, happend]
      cases pieces with
      | nil =>
        simp only [List.dropLast_singleton, List.foldl_nil, hold, ↓reduceIte, handOver]
        rfl
      | cons c pieces =>
        have hall : ¬ Fits t.sizeLimit ((b :: c :: pieces).dropLast.foldl (· ++ ·) old).size := by
          rw [List.dropLast_cons_cons, List.foldl_cons, foldl_append, ByteArray.size_append]
          exact fun h => hfits (h.mono (Nat.le_add_right _ _))
        rw [if_neg hall, handOver]
        rfl

/-- How much of a content of this size is in its pieces but the last: a failure to write them is
noticed. -/
def reportedSize (size : Nat) : Nat := (size - 1) / pieceSize * pieceSize

theorem reportedSize_le (size : Nat) : reportedSize size ≤ size :=
  Nat.le_trans (Nat.div_mul_le_self _ _) (Nat.sub_le size 1)

/-- The last piece is a piece like the others, or a smaller one. -/
theorem le_reportedSize_add (size : Nat) : size ≤ reportedSize size + pieceSize := by
  have hpos : 0 < pieceSize := by decide
  have hmod := Nat.mod_lt (size - 1) hpos
  have hdiv := Nat.div_add_mod' (size - 1) pieceSize
  unfold reportedSize
  omega

theorem size_dropLast_pieces (content : Bytes) :
    ((pieces content).dropLast.foldl (· ++ ·) ByteArray.empty).size =
      reportedSize content.size := by
  have hpos : 0 < pieceSize := by decide
  have hcount : (content.size + pieceSize - 1) / pieceSize - 1 =
      (content.size - 1) / pieceSize := by
    cases content.size with
    | zero =>
      rw [Nat.zero_add, Nat.div_eq_of_lt (Nat.sub_lt hpos Nat.one_pos), Nat.zero_sub,
        Nat.zero_div]
    | succ n =>
      rw [Nat.add_right_comm, Nat.add_sub_cancel, Nat.add_div_right n hpos, Nat.succ_sub_one,
        Nat.add_sub_cancel]
  rw [pieces, ← List.map_dropLast, List.dropLast_eq_take, List.length_range, List.take_range,
    Nat.min_eq_left (Nat.sub_le _ _), hcount, foldl_pieces, ByteArray.size_extract]
  have hle := reportedSize_le content.size
  unfold reportedSize at hle ⊢
  omega

/-! ## §3 Storing -/

section Storing

variable {p q : Path} {s : Bytes} {filename : String} {d : UserDirectory}

/-- A file that was just made is filled as far as the limit allows, or taken away again, if that is
noticed. -/
theorem fill_eq (hextends : p.Extends s q) (hs : Path.IsStep s)
    (hresolve : t.resolve false q = .ok ⟨l, none⟩) (content : Bytes) :
    fill q content (t.insert l (.file ByteArray.empty)) =
      if Fits t.sizeLimit (reportedSize content.size) then
        .ok () (t.insert l (.file (fitting t.sizeLimit content)))
      else .error (.io q .fileTooLarge) t := by
  have hnone := lookup_of_resolve hresolve
  have hnil : l ≠ [] := by
    rintro rfl
    cases hnone
  -- Whatever is in the file, its path leads to it.
  have hfound (c : Bytes) :
      (t.insert l (.file c)).resolve false q = .ok ⟨l, some (.file c)⟩ :=
    (grows_insert hnone _).resolve_new hextends hs (lookup_insert_self t hnil _) hresolve
  have hplace := bind_run_ok (f := fun place => handOver place.location none (pieces content))
    (place_ok (hfound ByteArray.empty))
  have hempty : Fits t.sizeLimit ByteArray.empty.size := fun _ _ => Nat.zero_le _
  have hrun := handOver_eq hnil hempty (pieces content)
  rw [size_dropLast_pieces, foldl_all_pieces] at hrun
  replace hrun := hplace.trans hrun
  unfold fill
  by_cases hfits : Fits t.sizeLimit (reportedSize content.size)
  · rw [if_pos hfits] at hrun ⊢
    rw [hrun]
  · rw [if_neg hfits] at hrun ⊢
    rw [hrun]
    simp only [remove_file (hfound (fitting t.sizeLimit content)), erase_insert hnone]

/-- Storing a file under a plain name: the directory is made, then the file, with as much of its
content as the limit allows.  It fails if something is in the way, or if what is noticed of the
content is not within the limit. -/
theorem store_eq (hd : d.path.bytes.isEmpty = false) (hplain : isPlainFilename filename = true)
    (content : Bytes) (t : FileTree) :
    d.store filename content t =
      match makeDirectories d.path t with
      | .error e t₁ => .error (.io d.path e) t₁
      | .ok _ t₁ =>
        match t₁.resolve false (d.path.join ⟨Bytes.ofText filename⟩) with
        | .ok ⟨l, none⟩ =>
          if Fits t₁.sizeLimit (reportedSize content.size) then
            .ok (d.path.join ⟨Bytes.ofText filename⟩)
              (t₁.insert l (.file (fitting t₁.sizeLimit content)))
          else .error (.io (d.path.join ⟨Bytes.ofText filename⟩) .fileTooLarge) t₁
        | .ok ⟨_, some _⟩ => .error (.alreadyExists (d.path.join ⟨Bytes.ofText filename⟩)) t₁
        | .error .alreadyExists =>
          .error (.alreadyExists (d.path.join ⟨Bytes.ofText filename⟩)) t₁
        | .error e => .error (.io (d.path.join ⟨Bytes.ofText filename⟩) e) t₁ := by
  have hstep := Registry.isStep_of_plain hplain
  have hextends := Path.join_extends hd hstep
  have hend := hextends.endsWithSeparator
  have hlift : lift (d.filePath filename) t = .ok (d.path.join ⟨Bytes.ofText filename⟩) t := by
    rw [Registry.filePath_plain hplain]
    rfl
  unfold store
  rw [bind_run_ok hlift]
  cases hmake : makeDirectories d.path t with
  | error e t₁ => exact bind_run_error (orFail_error hmake)
  | ok _ t₁ =>
    rw [bind_run_ok (orFail_ok hmake)]
    simp only
    cases hresolve : t₁.resolve false (d.path.join ⟨Bytes.ofText filename⟩) with
    | error e =>
      rw [bind_run_error (orFail_error (createNew_error hend hresolve))]
      cases e <;> rfl
    | ok place =>
      obtain ⟨l, e?⟩ := place
      cases e? with
      | some e => exact bind_run_error (orFail_error (createNew_some hend hresolve))
      | none =>
        have hfill := fill_eq hextends hstep hresolve content
        rw [bind_run_ok (orFail_ok (createNew_none hend hresolve))]
        by_cases hfits : Fits t₁.sizeLimit (reportedSize content.size)
        · rw [if_pos hfits] at hfill
          simp only [hfits, ↓reduceIte]
          exact bind_run_ok hfill
        · rw [if_neg hfits] at hfill
          simp only [hfits, ↓reduceIte]
          exact bind_run_error hfill

/-- A file that was stored is where its path leads now, with as much of its content as the limit
allows. -/
theorem resolve_of_store_ok (hd : d.path.bytes.isEmpty = false)
    (hplain : isPlainFilename filename = true) {target : Path}
    (h : d.store filename content t = .ok target t') :
    target = d.path.join ⟨Bytes.ofText filename⟩ ∧
      ∃ l, t'.resolve false target = .ok ⟨l, some (.file (fitting t.sizeLimit content))⟩ := by
  have hadds := makeDirectories_adds t d.path t (.refl t)
  have hstep := Registry.isStep_of_plain hplain
  rw [store_eq hd hplain] at h
  cases hmake : makeDirectories d.path t with
  | error e t₁ =>
    rw [hmake] at h
    cases h
  | ok _ t₁ =>
    rw [hmake] at h hadds
    have hlimit : t₁.sizeLimit = t.sizeLimit := hadds.sizeLimit
    simp only [hlimit] at h
    cases hresolve : t₁.resolve false (d.path.join ⟨Bytes.ofText filename⟩) with
    | error e =>
      rw [hresolve] at h
      cases e <;> cases h
    | ok place =>
      obtain ⟨l, e?⟩ := place
      rw [hresolve] at h
      cases e? with
      | some e => cases h
      | none =>
        by_cases hfits : Fits t.sizeLimit (reportedSize content.size)
        · simp only [hfits, ↓reduceIte] at h
          cases h
          have hnone := lookup_of_resolve hresolve
          have hnil : l ≠ [] := by
            rintro rfl
            cases hnone
          exact ⟨rfl, l, (grows_insert hnone _).resolve_new (Path.join_extends hd hstep) hstep
            (lookup_insert_self t₁ hnil _) hresolve⟩
        · simp only [hfits, ↓reduceIte] at h
          cases h

end Storing

end UserDirectory

/-! ## §4 Trees without their limit -/

namespace FileTree

variable {t t' : FileTree} {l base : Location} {p : Path} {follow : Bool} {links : Nat}
  {segments : List Bytes}

/-- The same tree, where files may grow without limit. -/
def unlimited (t : FileTree) : FileTree := { t with sizeLimit := none }

/-- What is found depends on what stands where, and on nothing else. -/
theorem walk_congr (h : ∀ l, t'.lookup l = t.lookup l) (follow : Bool) (links : Nat)
    (base : Location) (segments : List Bytes) :
    t'.walk follow links base segments = t.walk follow links base segments := by
  fun_induction FileTree.walk t follow links base segments with
  | case1 links base => rw [walk, h]
  | case2 links base s rest hbase => rw [walk, h, hbase]
  | case3 links base s rest content hbase => rw [walk, h, hbase]
  | case4 links base s rest target hbase => rw [walk, h, hbase]
  | case5 links base s rest hbase hidle ih =>
    exact (walk_idle ((h base).trans hbase) hidle follow links).trans ih
  | case6 links base rest hbase hidle ih =>
    exact (walk_above ((h base).trans hbase) follow links).trans ih
  | case7 links base s rest hbase hidle habove hsize =>
    rw [walk, h, hbase]
    exact (if_neg hidle).trans ((if_neg habove).trans (if_pos hsize))
  -- The other cases go one step down, and differ in what stands there.
  | case8 links base s rest hbase hidle habove hsize next hnext hend
  | case14 links base s rest hbase hidle habove hsize next content hnext hend =>
    rw [walk_step ((h base).trans hbase) (Bool.eq_false_iff.mpr hidle) habove
      (Nat.not_lt.mp hsize), h, hnext]
    exact if_pos hend
  | case9 links base s rest hbase hidle habove hsize next hnext hend
  | case15 links base s rest hbase hidle habove hsize next content hnext hend =>
    rw [walk_step ((h base).trans hbase) (Bool.eq_false_iff.mpr hidle) habove
      (Nat.not_lt.mp hsize), h, hnext]
    exact if_neg hend
  | case10 links base s rest hbase hidle habove hsize next target hnext hend =>
    rw [walk_step ((h base).trans hbase) (Bool.eq_false_iff.mpr hidle) habove
      (Nat.not_lt.mp hsize), h, hnext]
    exact if_pos hend
  | case11 base s rest hbase hidle habove hsize next target hnext hend =>
    rw [walk_step ((h base).trans hbase) (Bool.eq_false_iff.mpr hidle) habove
      (Nat.not_lt.mp hsize), h, hnext]
    exact if_neg hend
  | case12 base s rest hbase hidle habove hsize next target hnext hend links ih =>
    rw [walk_step ((h base).trans hbase) (Bool.eq_false_iff.mpr hidle) habove
      (Nat.not_lt.mp hsize), h, hnext]
    exact (if_neg hend).trans ih
  | case13 links base s rest hbase hidle habove hsize next hnext ih =>
    rw [walk_step ((h base).trans hbase) (Bool.eq_false_iff.mpr hidle) habove
      (Nat.not_lt.mp hsize), h, hnext]
    exact ih

theorem resolve_unlimited (t : FileTree) (follow : Bool) (p : Path) :
    t.unlimited.resolve follow p = t.resolve follow p := by
  have hsame (l : Location) : t.unlimited.lookup l = t.lookup l := rfl
  unfold resolve
  rw [walk_congr hsame]
  rfl

theorem isDirectory_unlimited (t : FileTree) (p : Path) :
    t.unlimited.isDirectory p = t.isDirectory p := by
  unfold isDirectory
  rw [stat_eq, stat_eq, resolve_unlimited]
  cases t.resolve true p with
  | error e => rfl
  | ok place =>
    obtain ⟨l, e?⟩ := place
    cases e? with
    | none => rfl
    | some e => cases e <;> rfl

/-- What came of an operation, and the tree it left without the limit. -/
def lifted {ε α : Type} : EStateM.Result ε FileTree α → EStateM.Result ε FileTree α
  | .ok a t => .ok a t.unlimited
  | .error e t => .error e t.unlimited

/-- The operation does the same whether there is a limit or not. -/
def Limitless {ε α : Type} (x : EStateM ε FileTree α) : Prop :=
  ∀ t, x t.unlimited = lifted (x t)

theorem Limitless.bind {ε α β : Type} {x : EStateM ε FileTree α}
    {f : α → EStateM ε FileTree β} (hx : Limitless x) (hf : ∀ a, Limitless (f a)) :
    Limitless (x >>= f) := by
  intro t
  have hrun := hx t
  cases h : x t with
  | ok a t₁ =>
    rw [h] at hrun
    rw [bind_run_ok h, bind_run_ok hrun, hf]
  | error e t₁ =>
    rw [h] at hrun
    rw [bind_run_error h, bind_run_error hrun]
    rfl

theorem limitless_place (follow : Bool) (p : Path) : Limitless (FileTree.place follow p) := by
  intro t
  unfold FileTree.place
  rw [resolve_unlimited]
  cases t.resolve follow p <;> rfl

theorem limitless_makeDirectory (p : Path) : Limitless (makeDirectory p) := by
  refine (limitless_place false p).bind fun place t => ?_
  cases place.entry <;> rfl

theorem limitless_makeSteps (p : Path) (steps : List Bytes) : Limitless (makeSteps p steps) := by
  induction steps generalizing p with
  | nil => exact fun t => rfl
  | cons s up ih =>
    intro t
    unfold makeSteps
    rw [limitless_makeDirectory]
    cases hmake : makeDirectory p t with
    | ok _ t₁ => rfl
    | error e t₁ =>
      simp only [lifted]
      cases e with
      | notFound =>
        simp only
        rw [ih]
        cases makeSteps (Path.ofSteps p.isAbsolute up.reverse) up t₁ with
        | error e t₂ => rfl
        | ok _ t₂ =>
          simp only [lifted]
          rw [limitless_makeDirectory]
          cases makeDirectory p t₂ with
          | ok _ t₃ => rfl
          | error e t₃ =>
            simp only [lifted, isDirectory_unlimited]
            split <;> rfl
      | _ =>
        simp only [isDirectory_unlimited]
        split <;> rfl

theorem limitless_makeDirectories (p : Path) : Limitless (makeDirectories p) :=
  limitless_makeSteps p _

end FileTree

/-! ## §5 What a limit changes -/

/-- What is told of storing a content of this size, if this would be told without a limit. -/
def noticed (limit : Option Nat) (size : Nat) : Except StorageError Path → Except StorageError Path
  | .ok target =>
    if Fits limit (UserDirectory.reportedSize size) then .ok target
    else .error (.io target .fileTooLarge)
  | .error e => .error e

/-- A limit makes a difference to a store that would succeed, and only if it is noticed. -/
theorem UserDirectory.outcome_store_unlimited {d : UserDirectory} {filename : String}
    (hd : d.path.bytes.isEmpty = false) (hplain : isPlainFilename filename = true)
    (content : Bytes) (t : FileTree) :
    outcome (d.store filename content t) =
      noticed t.sizeLimit content.size (outcome (d.store filename content t.unlimited)) := by
  have hadds := makeDirectories_adds t d.path t (.refl t)
  rw [store_eq hd hplain, store_eq hd hplain, limitless_makeDirectories]
  cases hmake : makeDirectories d.path t with
  | error e t₁ => rfl
  | ok _ t₁ =>
    rw [hmake] at hadds
    have hlimit : t₁.sizeLimit = t.sizeLimit := hadds.sizeLimit
    simp only [lifted, resolve_unlimited]
    cases t₁.resolve false (d.path.join ⟨Bytes.ofText filename⟩) with
    | error e => cases e <;> rfl
    | ok place =>
      obtain ⟨l, e?⟩ := place
      cases e? with
      | some e => rfl
      | none =>
        by_cases hfits : Fits t.sizeLimit (reportedSize content.size)
        · simp only [unlimited, fits_none, ↓reduceIte, hlimit, hfits, outcome, noticed]
        · simp only [unlimited, fits_none, ↓reduceIte, hlimit, hfits, outcome, noticed]

end BackupVault
