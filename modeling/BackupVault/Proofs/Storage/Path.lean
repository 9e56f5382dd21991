import BackupVault.Proofs.Text.Ascii
import BackupVault.Storage.UserDirectory

/-!
# Paths one step further down

Joining a plain step to a path adds exactly that step: the steps of the longer path are those of
the shorter one and the new one, and the longer path begins where the shorter one does.

## Overview

- `Path.IsStep`: a name that is a single step down
- `Path.Extends`: a path that goes one step further than another one
- `Path.join_extends`: joining a step does that
- §3, §4: which texts are steps, and which names files may have
-/

set_option autoImplicit false

namespace BackupVault.Path

/-! ## §1 Splitting -/

theorem splitBytes_ne_nil (l : List UInt8) : splitBytes l ≠ [] := by
  cases l with
  | nil => exact List.cons_ne_nil _ _
  | cons b rest =>
    unfold splitBytes
    split
    · exact List.cons_ne_nil _ _
    · split <;> exact List.cons_ne_nil _ _

theorem splitBytes_append (a b : List UInt8) :
    splitBytes (a ++ separator :: b) = splitBytes a ++ splitBytes b := by
  induction a with
  | nil => simp [splitBytes]
  | cons x a ih =>
    rw [List.cons_append, splitBytes, splitBytes, ih]
    by_cases hx : x = separator
    · simp only [hx, ↓reduceIte, List.cons_append]
    · simp only [hx, ↓reduceIte]
      -- A byte joins the first part, and there always is one.
      cases h : splitBytes a with
      | nil => exact absurd h (splitBytes_ne_nil a)
      | cons first others => rfl

theorem splitBytes_of_not_mem {a : List UInt8} (h : separator ∉ a) : splitBytes a = [a] := by
  induction a with
  | nil => rfl
  | cons x a ih =>
    rw [List.mem_cons, not_or] at h
    rw [splitBytes, if_neg (Ne.symm h.1), ih h.2]

/-! ## §2 One step further -/

/-- A name that is a single step down: it leads somewhere, and not up, and has neither separators
nor zeros. -/
structure IsStep (s : Bytes) : Prop where
  notIdle : isIdle s = false
  notAbove : s ≠ above
  plain : ∀ x ∈ s.data.toList, x ≠ separator ∧ x ≠ 0

namespace IsStep

variable {s : Bytes}

theorem ne_nil (h : IsStep s) : s.data.toList ≠ [] := by
  intro hnil
  have hidle := h.notIdle
  rw [show s = ByteArray.empty from Bytes.ext_toList hnil] at hidle
  cases hidle

theorem size_pos (h : IsStep s) : 0 < s.size := List.length_pos_iff.mpr h.ne_nil

theorem not_mem (h : IsStep s) : separator ∉ s.data.toList := fun hmem => (h.plain _ hmem).1 rfl

theorem segments (h : IsStep s) : segments ⟨s⟩ = [s] := by
  rw [Path.segments, splitBytes_of_not_mem h.not_mem, List.map_singleton, Bytes.ofList_toList]

theorem not_isAbsolute (h : IsStep s) : isAbsolute ⟨s⟩ = false := by
  have hpos : 0 < s.data.toList.length := h.size_pos
  -- A step has a first byte, and it is no separator.
  have hfirst : Bytes.at0 s 0 = s.data.toList[0] := by
    rw [Bytes.at0_eq, List.getD_eq_getElem?_getD, List.getElem?_eq_getElem hpos,
      Option.getD_some]
  have hne := (h.plain _ (List.getElem_mem hpos)).1
  rw [isAbsolute, hfirst, beq_false_of_ne hne, Bool.and_false]

end IsStep

/-- The path `q` goes one step further than `p`.  A separator at the end of `p` is the one before
that step, so that `p` may have an empty segment that `q` does not have. -/
structure Extends (p : Path) (s : Bytes) (q : Path) : Prop where
  segments : ∃ S, q.segments = S ++ [s] ∧
    (p.segments = S ∨ p.segments = S ++ [ByteArray.empty])
  isAbsolute : q.isAbsolute = p.isAbsolute
  nonempty : q.bytes.isEmpty = false
  mem : ∀ x ∈ q.bytes.data.toList, x ∈ p.bytes.data.toList ∨ x = separator ∨ x ∈ s.data.toList
  size_le : q.bytes.size ≤ p.bytes.size + 1 + s.size
  endsWithSeparator : q.endsWithSeparator = false

theorem isEmpty_eq_false {b : Bytes} : b.isEmpty = false ↔ b.data.toList ≠ [] := by
  rw [ByteArray.isEmpty, beq_eq_false_iff_ne, ← Bytes.length_toList, ne_eq,
    List.length_eq_zero_iff]

/-- The last byte of a path tells whether it ends with a separator. -/
theorem endsWithSeparator_iff {p : Path} (hp : p.bytes.isEmpty = false) :
    p.endsWithSeparator = true ↔ p.bytes.data.toList.getLast? = some separator := by
  have hne := isEmpty_eq_false.mp hp
  have hlast : Bytes.at0 p.bytes (p.bytes.size - 1) = p.bytes.data.toList.getLast hne := by
    rw [Bytes.at0_eq, List.getD_eq_getElem?_getD, ← Bytes.length_toList,
      ← List.getLast?_eq_getElem?, List.getLast?_eq_some_getLast hne, Option.getD_some]
  rw [endsWithSeparator, hp, hlast, List.getLast?_eq_some_getLast hne, Option.some.injEq]
  simp only [Bool.not_false, Bool.true_and, beq_iff_eq]

/-- The first byte of a path tells whether it is absolute. -/
theorem isAbsolute_append {p : Path} (hp : p.bytes.isEmpty = false) (b : Bytes) :
    isAbsolute ⟨p.bytes ++ b⟩ = p.isAbsolute := by
  have hne := isEmpty_eq_false.mp hp
  have hne' : (p.bytes ++ b).isEmpty = false := by
    rw [isEmpty_eq_false, ByteArray.toList_data_append]
    exact List.append_ne_nil_of_left_ne_nil hne _
  -- The path is not empty, so that its first byte stays the first.
  have hfirst : Bytes.at0 (p.bytes ++ b) 0 = Bytes.at0 p.bytes 0 := by
    rw [Bytes.at0_eq, Bytes.at0_eq, List.getD_eq_getElem?_getD, List.getD_eq_getElem?_getD,
      ByteArray.toList_data_append,
      List.getElem?_append_left (List.length_pos_iff.mpr hne)]
  rw [isAbsolute, isAbsolute, hne', hp, hfirst]

/-- A path that ends in a step does not end with a separator. -/
theorem endsWithSeparator_append {s : Bytes} (hs : IsStep s) (b : Bytes) :
    endsWithSeparator ⟨b ++ s⟩ = false := by
  have hpos : 0 < s.data.toList.length := hs.size_pos
  have hsize : (b ++ s).size - 1 = b.data.toList.length + (s.data.toList.length - 1) := by
    rw [ByteArray.size_append, Bytes.length_toList, Bytes.length_toList]
    have := hs.size_pos
    omega
  -- The last byte is that of the step.
  have hlast : Bytes.at0 (b ++ s) ((b ++ s).size - 1) =
      s.data.toList[s.data.toList.length - 1] := by
    rw [Bytes.at0_eq, hsize, ByteArray.toList_data_append, List.getD_eq_getElem?_getD,
      List.getElem?_append_right (Nat.le_add_right ..), Nat.add_sub_cancel_left,
      List.getElem?_eq_getElem (by omega), Option.getD_some]
  have hne := (hs.plain _ (List.getElem_mem (show s.data.toList.length - 1 < _ by omega))).1
  rw [endsWithSeparator, hlast, beq_false_of_ne hne, Bool.and_false]

theorem join_extends {p : Path} {s : Bytes} (hp : p.bytes.isEmpty = false) (hs : IsStep s) :
    p.Extends s (p.join ⟨s⟩) := by
  have hpne := isEmpty_eq_false.mp hp
  have hempty (b : Bytes) : (p.bytes ++ b).isEmpty = false := by
    rw [isEmpty_eq_false, ByteArray.toList_data_append]
    exact List.append_ne_nil_of_left_ne_nil hpne _
  have hsegs : [s] = (splitBytes s.data.toList).map Bytes.ofList := hs.segments.symm
  unfold join
  rw [hs.not_isAbsolute, hp, Bool.or_false, if_neg Bool.false_ne_true]
  split
  · -- The separator is there already: it is the last byte.
    rename_i hends
    obtain ⟨front, hfront⟩ :=
      List.getLast?_eq_some_iff.mp ((endsWithSeparator_iff hp).mp hends)
    refine ⟨⟨(splitBytes front).map Bytes.ofList, ?_, .inr ?_⟩, isAbsolute_append hp s, hempty s,
      ?_, ?_, endsWithSeparator_append hs _⟩
    · rw [hsegs, Path.segments, ByteArray.toList_data_append, hfront, List.append_assoc,
        List.singleton_append, splitBytes_append, List.map_append]
    · rw [Path.segments, hfront, splitBytes_append, List.map_append]
      rfl
    · intro x hx
      rw [ByteArray.toList_data_append, List.mem_append] at hx
      exact hx.imp_right .inr
    · rw [ByteArray.size_append]
      exact Nat.add_le_add_right (Nat.le_add_right ..) _
  -- Otherwise a separator goes between the two.
  · have hpush : p.bytes.push separator ++ s = p.bytes ++ (Bytes.ofList [separator] ++ s) := by
      rw [Bytes.push_eq_append, ByteArray.append_assoc]
    refine ⟨⟨p.segments, ?_, .inl rfl⟩, ?_, ?_, ?_, ?_, endsWithSeparator_append hs _⟩
    · rw [hsegs, Path.segments, Path.segments, hpush, ByteArray.toList_data_append,
        ByteArray.toList_data_append, Bytes.toList_ofList, List.singleton_append,
        splitBytes_append, List.map_append]
    · rw [hpush]
      exact isAbsolute_append hp _
    · rw [hpush]
      exact hempty _
    · intro x hx
      rw [ByteArray.toList_data_append, Bytes.toList_push, List.mem_append, List.mem_append,
        List.mem_singleton, or_assoc] at hx
      exact hx
    · exact Nat.le_of_eq (by rw [ByteArray.size_append, ByteArray.size_push])

theorem size_le_join {p : Path} {s : Bytes} (hp : p.bytes.isEmpty = false) (hs : IsStep s) :
    p.bytes.size ≤ (p.join ⟨s⟩).bytes.size := by
  unfold join
  rw [hs.not_isAbsolute, hp, Bool.or_false, if_neg Bool.false_ne_true]
  split
  · rw [ByteArray.size_append]
    exact Nat.le_add_right _ _
  · rw [ByteArray.size_append, ByteArray.size_push]
    omega

/-- A step adds no zeros to a path. -/
theorem Extends.no_zero {p q : Path} {s : Bytes} (h : p.Extends s q) (hs : IsStep s)
    (hp : ∀ x ∈ p.bytes.data.toList, x ≠ 0) : ∀ x ∈ q.bytes.data.toList, x ≠ 0 := by
  intro x hx
  rcases h.mem x hx with hmem | rfl | hmem
  · exact hp x hmem
  · decide
  · exact (hs.plain x hmem).2

/-- The path of a step below another one has a step. -/
theorem Extends.steps_ne_nil {p q : Path} {s : Bytes} (h : p.Extends s q) (hs : IsStep s) :
    q.steps ≠ [] := by
  obtain ⟨S, hS, -⟩ := h.segments
  have hmem : s ∈ q.steps :=
    List.mem_filter.mpr ⟨hS ▸ List.mem_append_right _ List.mem_cons_self, by rw [hs.notIdle]; rfl⟩
  exact List.ne_nil_of_mem hmem

/-! ## §3 Texts that are steps -/

/-- A text without separators and zeros that leads down is a step. -/
theorem isStep_ofText {s : String} (hempty : s ≠ "") (hhere : s ≠ ".") (habove : s ≠ "..")
    (hseparator : '/' ∉ s.toList) (hzero : Char.ofNat 0 ∉ s.toList) : IsStep (Bytes.ofText s) where
  notIdle := by
    rw [isIdle, Bool.or_eq_false_iff]
    constructor
    · cases h : (Bytes.ofText s).isEmpty with
      | false => rfl
      | true => exact absurd (Bytes.ofText_eq_empty h) hempty
    · exact beq_false_of_ne fun h => hhere (Bytes.ofText_injective h)
  notAbove h := habove (Bytes.ofText_injective h)
  plain x hx := by
    constructor <;> rintro rfl
    · exact Bytes.not_mem_ofText (c := '/') (by decide) hseparator hx
    · exact Bytes.not_mem_ofText (c := Char.ofNat 0) (by decide) hzero hx

end BackupVault.Path

/-! ## §4 Names of files -/

namespace BackupVault.Registry

theorem isStep_of_plain {filename : String} (h : isPlainFilename filename = true) :
    Path.IsStep (Bytes.ofText filename) := by
  simp only [isPlainFilename, Bool.and_eq_true, decide_eq_true_eq, List.all_eq_true] at h
  obtain ⟨⟨⟨hempty, hhere⟩, habove⟩, hchars⟩ := h
  exact Path.isStep_ofText hempty hhere habove (fun hmem => (hchars _ hmem).1.1 rfl)
    (fun hmem => (hchars _ hmem).2 rfl)

theorem checkFilename_plain {filename : String} (h : isPlainFilename filename = true) :
    checkFilename filename = .ok () := by
  rw [checkFilename, if_pos h]

theorem filePath_plain {filename : String} (h : isPlainFilename filename = true)
    (d : UserDirectory) : d.filePath filename = .ok (d.path.join ⟨Bytes.ofText filename⟩) := by
  rw [UserDirectory.filePath, checkFilename_plain h]
  rfl

theorem checkFilename_of_not_plain {filename : String} (h : isPlainFilename filename ≠ true) :
    checkFilename filename = .error (.invalidFilename filename) := by
  rw [checkFilename, if_neg h]

theorem filePath_of_not_plain {filename : String} (h : isPlainFilename filename ≠ true)
    (d : UserDirectory) : d.filePath filename = .error (.invalidFilename filename) := by
  rw [UserDirectory.filePath, checkFilename_of_not_plain h]
  rfl

end BackupVault.Registry
