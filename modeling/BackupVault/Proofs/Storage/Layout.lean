import BackupVault.Proofs.Storage.Files
import BackupVault.Storage.Registry

/-!
# The layout of a registry

Under the root of a registry lie the directories of users, named by their numbers, and in them
only files.  The operations of the registry keep this layout, and change nothing outside of it.

## Overview

- `Registry.number`, `Registry.userAt`, `Registry.fileAt`: where the files of a user lie
- `Registry.Layout`: the layout; `Registry.Stays`: nothing outside of it changed
- `Registry.Layout.resolve_user`, `Registry.Layout.resolve_file`: where the paths lead
- `Registry.Layout.set_user`, `Registry.Layout.set_file`: the two changes
-/

set_option autoImplicit false

namespace BackupVault.Registry

open FileTree

/-! ## §1 Names of directories -/

/-- The name of the directory of a user. -/
def number (user : UserId) : Bytes := Bytes.ofText (toString user.toNat)

/-- Where the directory of a user lies, below where the root leads. -/
def userAt (R : Location) (user : UserId) : Location := R ++ [number user]

/-- Where a file of a user lies. -/
def fileAt (R : Location) (user : UserId) (name : Bytes) : Location := userAt R user ++ [name]

theorem toList_toString (n : Nat) : (toString n).toList = Nat.toDigits 10 n := by
  rw [Nat.toString_eq_repr, Nat.toList_repr]

theorem isDigit_of_mem {n : Nat} {c : Char} (h : c ∈ (toString n).toList) : c.isDigit = true := by
  rw [toList_toString] at h
  exact Nat.isDigit_of_mem_toDigits (by decide) (by decide) h

/-- A text with a character that is no digit is no number. -/
theorem number_ne {s : String} {c : Char} (hc : c ∈ s.toList) (hdigit : c.isDigit = false)
    (user : UserId) : number user ≠ Bytes.ofText s := by
  intro h
  have htext := Bytes.ofText_injective h
  rw [isDigit_of_mem (htext ▸ hc)] at hdigit
  cases hdigit

theorem isStep_number (user : UserId) : Path.IsStep (number user) := by
  -- A number has digits only, so that it is neither `.` nor `..` and has no separators.
  have hno {c : Char} (hdigit : c.isDigit = false) : c ∉ (toString user.toNat).toList := by
    intro h
    rw [isDigit_of_mem h] at hdigit
    cases hdigit
  have hne {s : String} (h : '.' ∈ s.toList) : toString user.toNat ≠ s := by
    intro heq
    exact hno (by decide) (heq ▸ h)
  refine Path.isStep_ofText ?_ (hne (by decide)) (hne (by decide)) (hno (by decide))
    (hno (by decide))
  intro hempty
  have hlist := congrArg String.toList hempty
  rw [toList_toString] at hlist
  exact Nat.toDigits_ne_nil hlist

theorem size_number_le (user : UserId) : (number user).size ≤ 10 := by
  -- Each digit takes one byte, and there are at most as many as `2 ^ 32` has.
  have hascii : ∀ c ∈ (toString user.toNat).toList, c.toNat < 128 := by
    intro c hc
    have hdigit := isDigit_of_mem hc
    simp only [Char.isDigit, Bool.and_eq_true, decide_eq_true_eq, UInt32.le_iff_toNat_le] at hdigit
    exact Nat.lt_of_le_of_lt hdigit.2 (by decide)
  rw [number, Bytes.size_ofText_of_ascii hascii, toList_toString,
    Nat.length_toDigits_le_iff (by decide) (by decide)]
  exact Nat.lt_trans user.toNat_lt (by decide)

theorem userAt_ne_nil (R : Location) (user : UserId) : userAt R user ≠ [] :=
  List.append_ne_nil_of_right_ne_nil _ (List.cons_ne_nil _ _)

theorem fileAt_ne_nil (R : Location) (user : UserId) (name : Bytes) : fileAt R user name ≠ [] :=
  List.append_ne_nil_of_right_ne_nil _ (List.cons_ne_nil _ _)

theorem userAt_ne_fileAt (R : Location) (user user' : UserId) (name : Bytes) :
    userAt R user ≠ fileAt R user' name := by
  intro h
  have hlength := congrArg List.length h
  simp [fileAt, userAt] at hlength

theorem fileAt_inj {R : Location} {user user' : UserId} {name name' : Bytes}
    (h : fileAt R user name = fileAt R user' name') : userAt R user = userAt R user' :=
  List.append_inj_left' h rfl

/-! ## §2 The layout -/

/-- The root leads to a directory, with room for the paths below it; under it the users' directories
hold only files, and no file is limited in size. -/
structure Layout (root : Path) (R : Location) (t : FileTree) : Prop where
  leads : t.Leads root R
  room : root.bytes.size + 268 ≤ maxPath
  unlimited : t.sizeLimit = none
  users : ∀ user e, t.lookup (userAt R user) = some e → e = .directory
  files : ∀ user name e, t.lookup (fileAt R user name) = some e →
    t.lookup (userAt R user) = some .directory ∧ ∃ content, e = .file content

/-- The location is that of the directory of a user, or right below one. -/
def InUsers (R l : Location) : Prop := ∃ user, l = userAt R user ∨ ∃ name, l = fileAt R user name

/-- From the first tree to the second, nothing outside the directories of users changed, and no
directory and no link went away. -/
structure Stays (R : Location) (t t' : FileTree) : Prop where
  keeps : t.Keeps t'
  others : ∀ l, ¬ InUsers R l → t'.lookup l = t.lookup l

theorem Stays.refl (R : Location) (t : FileTree) : Stays R t t where
  keeps := .refl t
  others _ _ := rfl

theorem Stays.trans {R : Location} {t t₁ t₂ : FileTree} (h : Stays R t t₁) (h' : Stays R t₁ t₂) :
    Stays R t t₂ where
  keeps := h.keeps.trans h'.keeps
  others l hl := (h'.others l hl).trans (h.others l hl)

namespace Layout

variable {root : Path} {R : Location} {t t' : FileTree}

theorem root_nonempty (h : Layout root R t) : root.bytes.isEmpty = false := h.leads.inv.1

/-- Nothing at the places of users is a link. -/
theorem user_not_link (h : Layout root R t) (user : UserId) (target : Path) :
    t.lookup (R ++ [number user]) ≠ some (.link target) := by
  intro hl
  cases h.users user _ hl

theorem file_not_link (h : Layout root R t) (user : UserId) (name : Bytes) (target : Path) :
    t.lookup (userAt R user ++ [name]) ≠ some (.link target) := by
  intro hl
  obtain ⟨-, content, hfile⟩ := h.files user name _ hl
  cases hfile

theorem extends_user (h : Layout root R t) (user : UserId) :
    root.Extends (number user) (root.join ⟨number user⟩) :=
  Path.join_extends h.root_nonempty (isStep_number user)

theorem size_user_le (h : Layout root R t) (user : UserId) :
    (root.join ⟨number user⟩).bytes.size ≤ root.bytes.size + 11 := by
  have hsize := (h.extends_user user).size_le
  have hnumber := size_number_le user
  omega

/-- The path of the directory of a user leads there. -/
theorem resolve_user (h : Layout root R t) (user : UserId) (follow : Bool) :
    t.resolve follow (root.join ⟨number user⟩) =
      .ok ⟨userAt R user, t.lookup (userAt R user)⟩ := by
  have hroom := h.room
  have hsize := h.size_user_le user
  have hnumber := size_number_le user
  rw [h.leads.resolve_child (h.extends_user user) (isStep_number user) (h.user_not_link user),
    if_pos ⟨by omega, Nat.le_trans hnumber (by decide)⟩]
  rfl

theorem leads_user (h : Layout root R t) {user : UserId}
    (hdir : t.lookup (userAt R user) = some .directory) :
    t.Leads (root.join ⟨number user⟩) (userAt R user) := by
  unfold Leads
  rw [h.resolve_user, hdir]

/-- The path of a file of a user leads there, if the user has a directory and the name is not too
long. -/
theorem resolve_file (h : Layout root R t) {user : UserId}
    (hdir : t.lookup (userAt R user) = some .directory) {name : Bytes} (hname : Path.IsStep name)
    (follow : Bool) :
    t.resolve follow ((root.join ⟨number user⟩).join ⟨name⟩) =
      if name.size ≤ maxSegment then .ok ⟨fileAt R user name, t.lookup (fileAt R user name)⟩
      else .error .nameTooLong := by
  -- The path has at most eleven bytes for the user and 256 for the name more than the root.
  have hextends := Path.join_extends (h.extends_user user).nonempty hname
  have hroom := h.room
  have huser := h.size_user_le user
  have hfile := hextends.size_le
  rw [(h.leads_user hdir).resolve_child hextends hname (h.file_not_link user name)]
  by_cases hsize : name.size ≤ maxSegment
  · have hpath : ((root.join ⟨number user⟩).join ⟨name⟩).bytes.size ≤ maxPath := by
      have : maxSegment = 255 := rfl
      omega
    rw [if_pos ⟨hpath, hsize⟩, if_pos hsize]
    rfl
  · rw [if_neg hsize, if_neg fun hboth => hsize hboth.2]

/-- Without a directory of the user it leads nowhere. -/
theorem resolve_file_missing (h : Layout root R t) {user : UserId}
    (hnone : t.lookup (userAt R user) = none) {name : Bytes} (hname : Path.IsStep name)
    (follow : Bool) :
    ∃ e, t.resolve follow ((root.join ⟨number user⟩).join ⟨name⟩) = .error e :=
  h.leads.resolve_missing (h.extends_user user) (isStep_number user)
    (Path.join_extends (h.extends_user user).nonempty hname) hname hnone follow

/-- A user has a directory, or nothing stands in its place. -/
theorem user_cases (h : Layout root R t) (user : UserId) :
    t.lookup (userAt R user) = none ∨ t.lookup (userAt R user) = some .directory := by
  cases hl : t.lookup (userAt R user) with
  | none => exact .inl rfl
  | some e => exact .inr (by rw [h.users user e hl])

/-! ## §3 Changes -/

theorem set_user (h : Layout root R t) {user : UserId} (hnone : t.lookup (userAt R user) = none)
    (hsets : t.Sets (userAt R user) (some .directory) t') :
    Layout root R t' ∧ Stays R t t' := by
  -- Nothing stood there before, so that no directory and no link is lost.
  have hkeeps : t.Keeps t' := hsets.keeps fun old hold => by rw [hnone] at hold; cases hold
  refine ⟨⟨h.leads.keeps hkeeps, h.room, hsets.sizeLimit.trans h.unlimited, ?_, ?_⟩, hkeeps, ?_⟩
  · intro user' e he
    by_cases heq : userAt R user' = userAt R user
    · rw [heq, hsets.self] at he
      cases he
      rfl
    · rw [hsets.others _ heq] at he
      exact h.users user' e he
  -- The files are where they were, since a file's place is not that of a directory.
  · intro user' name e he
    rw [hsets.others _ (userAt_ne_fileAt R user user' name).symm] at he
    obtain ⟨hdir, hfile⟩ := h.files user' name e he
    exact ⟨hkeeps.directory _ hdir, hfile⟩
  · intro l hl
    exact hsets.others l fun heq => hl ⟨user, .inl heq⟩

theorem set_file (h : Layout root R t) {user : UserId} {name : Bytes} {e? : Option Entry}
    (hdir : t.lookup (userAt R user) = some .directory)
    (he? : ∀ e, e? = some e → ∃ content, e = .file content)
    (hsets : t.Sets (fileAt R user name) e? t') : Layout root R t' ∧ Stays R t t' := by
  -- Only a file can have stood there.
  have hkeeps : t.Keeps t' := hsets.keeps fun old hold => (h.files user name old hold).2
  refine ⟨⟨h.leads.keeps hkeeps, h.room, hsets.sizeLimit.trans h.unlimited, ?_, ?_⟩, hkeeps, ?_⟩
  · intro user' e he
    rw [hsets.others _ (userAt_ne_fileAt R user' user name)] at he
    exact h.users user' e he
  -- The file that changed is in the directory of this user, which is there.
  · intro user' name' e he
    by_cases heq : fileAt R user' name' = fileAt R user name
    · rw [heq, hsets.self] at he
      rw [fileAt_inj heq]
      exact ⟨hkeeps.directory _ hdir, he? e he⟩
    · rw [hsets.others _ heq] at he
      obtain ⟨hdir', hfile⟩ := h.files user' name' e he
      exact ⟨hkeeps.directory _ hdir', hfile⟩
  · intro l hl
    exact hsets.others l fun heq => hl ⟨user, .inr ⟨name, heq⟩⟩

end Layout

end BackupVault.Registry
