import BackupVault.Proofs.Storage.Registry

/-!
# Users' places without links

In a tree with no link at the places of users and of their files, the path of a user leads to the
place of this user and the path of a file to the place of this file, or the path is refused; which
of the two depends only on what stands there.  So what an operation on a user's directory gives,
and what it does to the tree, is told by the entries at these places, whatever they are.

## Overview

- `Registry.Plain`: a root with no links at the places of users
- `Registry.Plain.resolve_user`, `Registry.Plain.resolve_file`: where the paths lead
- `Registry.Plain.makeDirectories_eq`, `Registry.Plain.store_eq`, `Registry.readFile_eq`, …: what
  the operations do
- `Registry.Within`: what they leave
-/

set_option autoImplicit false

namespace BackupVault.Registry

open FileTree

/-! ## §1 Places and paths -/

/-- The path of the directory of a user. -/
def userPath (root : Path) (user : UserId) : Path := root.join ⟨number user⟩

/-- The path of a file of a user. -/
def filePath (root : Path) (user : UserId) (filename : String) : Path :=
  (userPath root user).join ⟨Bytes.ofText filename⟩

/-- Users with the same number are the same. -/
theorem number_injective {user user' : UserId} (h : number user = number user') : user = user' := by
  have hdigits := congrArg String.toList (Bytes.ofText_injective h)
  rw [toList_toString, toList_toString] at hdigits
  -- The digits tell the number.
  have hvalue := congrArg (Nat.ofDigitChars 10 · 0) hdigits
  simp only [Nat.ofDigitChars_toDigits (b := 10) (by decide) (by decide)] at hvalue
  exact UInt32.toNat_inj.mp hvalue

theorem userAt_injective {R : Location} {user user' : UserId} (h : userAt R user = userAt R user') :
    user = user' := by
  have hlast := List.append_inj_right' h rfl
  injection hlast with hnumber
  exact number_injective hnumber

/-- Different files have different places. -/
theorem fileAt_injective {R : Location} {user user' : UserId} {name name' : Bytes}
    (h : fileAt R user name = fileAt R user' name') : user = user' ∧ name = name' := by
  refine ⟨userAt_injective (fileAt_inj h), ?_⟩
  have hlast := List.append_inj_right' h rfl
  injection hlast

/-- The places that an operation on a file of a user may touch: that of the directory of the user,
and that of the file right below it; none, if the name is not plain. -/
def Touched (R : Location) (user : UserId) (filename : String) (l : Location) : Prop :=
  isPlainFilename filename = true ∧
    (l = userAt R user ∨ l = fileAt R user (Bytes.ofText filename))

theorem userAt_prefix_fileAt (R : Location) (user : UserId) (name : Bytes) :
    userAt R user <+: fileAt R user name := List.prefix_append _ _

/-- The places of one user are not below that of another. -/
theorem not_prefix_of_ne {R : Location} {user user' : UserId} (hne : user' ≠ user)
    {filename : String} {l : Location} (hl : Touched R user filename l) :
    ¬ userAt R user' <+: l := by
  intro hprefix
  have hsame : userAt R user' = userAt R user := by
    rcases hl.2 with rfl | rfl
    · exact hprefix.eq_of_length (by simp [userAt])
    · -- Both are the beginning of the place, of the same length.
      refine (List.prefix_of_prefix_length_le hprefix (userAt_prefix_fileAt R user _)
        (by simp [userAt])).eq_of_length (by simp [userAt])
  exact hne (userAt_injective hsame)

theorem size_number (user : UserId) : (number user).size ≤ maxSegment :=
  Nat.le_trans (size_number_le user) (by decide)

section UserPath

variable {root : Path} {R : Location} {t : FileTree} {user : UserId}

theorem extends_userPath (h : t.Leads root R) (user : UserId) :
    root.Extends (number user) (userPath root user) :=
  Path.join_extends h.inv.1 (isStep_number user)

/-- The path of a user leads to the place of the user, unless it is too long or a link stands
there. -/
theorem resolve_userPath (h : t.Leads root R)
    (hlink : ∀ target, t.lookup (userAt R user) ≠ some (.link target)) (follow : Bool) :
    t.resolve follow (userPath root user) =
      if (userPath root user).bytes.size ≤ maxPath then
        .ok ⟨userAt R user, t.lookup (userAt R user)⟩
      else .error .nameTooLong := by
  have hresolve := h.resolve_child (extends_userPath h user) (isStep_number user) hlink follow
  simp only [size_number user, and_true] at hresolve
  exact hresolve

/-- Making the directory of a user: one that is there will do, and anything else that stands in its
place is in the way. -/
theorem makeDirectories_userPath (h : t.Leads root R)
    (hlink : ∀ target, t.lookup (userAt R user) ≠ some (.link target)) :
    makeDirectories (userPath root user) t =
      if (userPath root user).bytes.size ≤ maxPath then
        match t.lookup (userAt R user) with
        | none => .ok () (t.insert (userAt R user) .directory)
        | some .directory => .ok () t
        | some _ => .error .alreadyExists t
      else .error .nameTooLong t := by
  have hmake := h.makeDirectories_child (extends_userPath h user) (isStep_number user) hlink
  simp only [size_number user, and_true] at hmake
  exact hmake

end UserPath

/-! ## §2 Roots without links -/

/-- The root leads to a directory, no link stands at the place of a user or of a file of a user, and
no file is limited in size.  What else stands there is not said. -/
structure Plain (root : Path) (R : Location) (t : FileTree) : Prop where
  leads : t.Leads root R
  users : ∀ user target, t.lookup (userAt R user) ≠ some (.link target)
  files : ∀ user name target, t.lookup (fileAt R user name) ≠ some (.link target)
  unlimited : t.sizeLimit = none

/-- In the layout of a registry there is no link at the place of a user or of a file. -/
theorem Layout.plain {root : Path} {R : Location} {t : FileTree} (h : Layout root R t) :
    Plain root R t := ⟨h.leads, h.user_not_link, h.file_not_link, h.unlimited⟩

theorem lookup_vacant {l : Location} (hl : l ≠ []) : lookup {} l = none := by
  cases l with
  | nil => exact absurd rfl hl
  | cons x l => rfl

/-- The top directory, with nothing in it. -/
theorem layout_vacant : Layout (Path.ofText "/") [] {} where
  leads := leads_top {}
  room := by decide
  unlimited := rfl
  users user e he := by
    rw [lookup_vacant (userAt_ne_nil [] user)] at he
    cases he
  files user name e he := by
    rw [lookup_vacant (fileAt_ne_nil [] user name)] at he
    cases he

theorem plain_vacant : Plain (Path.ofText "/") [] {} := layout_vacant.plain

namespace Plain

variable {root : Path} {R : Location} {t t' : FileTree} {user : UserId} {filename : String}

theorem extends_user (h : Plain root R t) (user : UserId) :
    root.Extends (number user) (userPath root user) := extends_userPath h.leads user

theorem extends_file (h : Plain root R t) (user : UserId)
    (hplain : isPlainFilename filename = true) :
    (userPath root user).Extends (Bytes.ofText filename) (filePath root user filename) :=
  Path.join_extends (h.extends_user user).nonempty (isStep_of_plain hplain)

theorem resolve_user (h : Plain root R t) (user : UserId) (follow : Bool) :
    t.resolve follow (userPath root user) =
      if (userPath root user).bytes.size ≤ maxPath then
        .ok ⟨userAt R user, t.lookup (userAt R user)⟩
      else .error .nameTooLong := resolve_userPath h.leads (h.users user) follow

/-- A user is on disk if a directory stands in its place, and its path is not too long. -/
theorem leads_iff (h : Plain root R t) (user : UserId) :
    t.Leads (userPath root user) (userAt R user) ↔
      (userPath root user).bytes.size ≤ maxPath ∧
        t.lookup (userAt R user) = some .directory := by
  rw [Leads, h.resolve_user]
  constructor
  · intro hleads
    split at hleads
    · exact ⟨‹_›, (Place.mk.inj (Except.ok.inj hleads)).2⟩
    · cases hleads
  · rintro ⟨hsize, hdir⟩
    rw [if_pos hsize, hdir]

/-- A directory that the path of a user leads to is the one in the place of the user. -/
theorem leads_of_directory (h : Plain root R t) {l : Location}
    (hresolve : t.resolve true (userPath root user) = .ok ⟨l, some .directory⟩) :
    t.Leads (userPath root user) (userAt R user) := by
  rw [h.resolve_user] at hresolve
  split at hresolve
  · exact (h.leads_iff user).mpr ⟨‹_›, (Place.mk.inj (Except.ok.inj hresolve)).2⟩
  · cases hresolve

/-- The path of a file of a user leads to the place of the file if the user has a directory, and
neither the path nor the name is too long. -/
theorem resolve_file (h : Plain root R t) (user : UserId)
    (hplain : isPlainFilename filename = true) (follow : Bool) :
    t.resolve follow (filePath root user filename) =
      if (filePath root user filename).bytes.size ≤ maxPath then
        match t.lookup (userAt R user) with
        | some .directory =>
          if (Bytes.ofText filename).size ≤ maxSegment then
            .ok ⟨fileAt R user (Bytes.ofText filename),
              t.lookup (fileAt R user (Bytes.ofText filename))⟩
          else .error .nameTooLong
        | some _ => .error .notADirectory
        | none => .error .notFound
      else .error .nameTooLong :=
  h.leads.resolve_grandchild (h.extends_user user) (isStep_number user) (size_number user)
    (h.extends_file user hplain) (isStep_of_plain hplain) (h.users user) (h.files user _) follow

/-- Wherever the path of a file leads, it is the place of the file. -/
theorem location_of_resolve (h : Plain root R t) (hplain : isPlainFilename filename = true)
    {follow : Bool} {l : Location} {e? : Option Entry}
    (hresolve : t.resolve follow (filePath root user filename) = .ok ⟨l, e?⟩) :
    l = fileAt R user (Bytes.ofText filename) ∧
      t.lookup (fileAt R user (Bytes.ofText filename)) = e? ∧
      t.lookup (userAt R user) = some .directory ∧
      (filePath root user filename).bytes.size ≤ maxPath ∧
      (Bytes.ofText filename).size ≤ maxSegment := by
  rw [h.resolve_file user hplain] at hresolve
  split at hresolve
  · split at hresolve
    · split at hresolve
      · cases hresolve
        exact ⟨rfl, rfl, ‹_›, ‹_›, ‹_›⟩
      · cases hresolve
    · cases hresolve
    · cases hresolve
  · cases hresolve

/-- With the directory of the user in its place, the path of a file that fits leads to the place of
the file. -/
theorem resolve_file_fits (h : Plain root R t) (hplain : isPlainFilename filename = true)
    (hpath : (filePath root user filename).bytes.size ≤ maxPath)
    (hsize : (Bytes.ofText filename).size ≤ maxSegment)
    (hdir : t.lookup (userAt R user) = some .directory) (follow : Bool) :
    t.resolve follow (filePath root user filename) =
      .ok ⟨fileAt R user (Bytes.ofText filename),
        t.lookup (fileAt R user (Bytes.ofText filename))⟩ := by
  rw [h.resolve_file user hplain, if_pos hpath, hdir]
  exact if_pos hsize

/-! ## §3 Changes -/

/-- A directory comes into the place of a user where nothing stood. -/
theorem insert_user (h : Plain root R t) (hnone : t.lookup (userAt R user) = none) :
    Plain root R (t.insert (userAt R user) .directory) ∧
      t.Keeps (t.insert (userAt R user) .directory) := by
  have hsets := sets_insert t (userAt_ne_nil R user) .directory
  have hkeeps := hsets.keeps fun old hold => by rw [hnone] at hold; cases hold
  refine ⟨⟨h.leads.keeps hkeeps, ?_, ?_, h.unlimited⟩, hkeeps⟩
  · intro user' target hl
    by_cases heq : userAt R user' = userAt R user
    · rw [heq, hsets.self] at hl
      cases hl
    · rw [hsets.others _ heq] at hl
      exact h.users user' target hl
  · intro user' name target hl
    rw [hsets.others _ (userAt_ne_fileAt R user user' name).symm] at hl
    exact h.files user' name target hl

/-- Where no directory stands in the place of a file, a file is put there or taken away. -/
theorem sets_file (h : Plain root R t) {name : Bytes} {e? : Option Entry}
    (hold : t.lookup (fileAt R user name) ≠ some .directory)
    (he? : ∀ target, e? ≠ some (.link target)) (hsets : t.Sets (fileAt R user name) e? t') :
    Plain root R t' ∧ t.Keeps t' := by
  have hkeeps : t.Keeps t' := hsets.keeps fun old hl => by
    cases old with
    | file content => exact ⟨content, rfl⟩
    | directory => exact absurd hl hold
    | link target => exact absurd hl (h.files user name target)
  refine ⟨⟨h.leads.keeps hkeeps, ?_, ?_, hsets.sizeLimit.trans h.unlimited⟩, hkeeps⟩
  · intro user' target hl
    rw [hsets.others _ (userAt_ne_fileAt R user' user name)] at hl
    exact h.users user' target hl
  · intro user' name' target hl
    by_cases heq : fileAt R user' name' = fileAt R user name
    · rw [heq, hsets.self] at hl
      exact he? target hl
    · rw [hsets.others _ heq] at hl
      exact h.files user' name' target hl

/-! ## §4 Operations -/

theorem makeDirectories_eq (h : Plain root R t) (user : UserId) :
    makeDirectories (userPath root user) t =
      if (userPath root user).bytes.size ≤ maxPath then
        match t.lookup (userAt R user) with
        | none => .ok () (t.insert (userAt R user) .directory)
        | some .directory => .ok () t
        | some _ => .error .alreadyExists t
      else .error .nameTooLong t := makeDirectories_userPath h.leads (h.users user)

/-- A directory that cannot be made leaves everything as it was. -/
theorem makeDirectories_fails (h : Plain root R t) {e : IoFailure}
    (hmake : makeDirectories (userPath root user) t = .error e t') : t' = t := by
  rw [h.makeDirectories_eq] at hmake
  split at hmake
  · split at hmake
    · cases hmake
    · cases hmake
    · cases hmake
      rfl
  · cases hmake
    rfl

/-- Storing a file under a plain name: the directory of the user is made, and then the file, with
all of its content, unless something is in the way. -/
theorem store_eq (h : Plain root R t) (user : UserId) (hplain : isPlainFilename filename = true)
    (content : Bytes) :
    UserDirectory.store { user, path := userPath root user } filename content t =
      match makeDirectories (userPath root user) t with
      | .error e t₁ => .error (.io (userPath root user) e) t₁
      | .ok _ t₁ =>
        match t₁.resolve false (filePath root user filename) with
        | .ok ⟨l, none⟩ => .ok (filePath root user filename) (t₁.insert l (.file content))
        | .ok ⟨_, some _⟩ => .error (.alreadyExists (filePath root user filename)) t₁
        | .error .alreadyExists => .error (.alreadyExists (filePath root user filename)) t₁
        | .error e => .error (.io (filePath root user filename) e) t₁ := by
  rw [UserDirectory.store_eq (d := { user, path := userPath root user })
    (h.extends_user user).nonempty hplain]
  have hadds := makeDirectories_adds t (userPath root user) t (.refl t)
  cases hmake : makeDirectories (userPath root user) t with
  | error e t₁ => rfl
  | ok _ t₁ =>
    rw [hmake] at hadds
    -- Without a limit all of the content is written.
    have hlimit : t₁.sizeLimit = none := hadds.sizeLimit.trans h.unlimited
    simp only [hlimit, fits_none, ↓reduceIte]
    rfl

/-- Where the directory of the user is on disk already, only the file is made. -/
theorem store_leads (h : Plain root R t) (hleads : t.Leads (userPath root user) (userAt R user))
    (hplain : isPlainFilename filename = true) (content : Bytes) :
    UserDirectory.store { user, path := userPath root user } filename content t =
      match t.resolve false (filePath root user filename) with
      | .ok ⟨l, none⟩ => .ok (filePath root user filename) (t.insert l (.file content))
      | .ok ⟨_, some _⟩ => .error (.alreadyExists (filePath root user filename)) t
      | .error .alreadyExists => .error (.alreadyExists (filePath root user filename)) t
      | .error e => .error (.io (filePath root user filename) e) t := by
  rw [h.store_eq user hplain, makeDirectories_leads hleads]

/-- Making a directory changes no file. -/
theorem makeDirectories_file (h : Plain root R t) (user user' : UserId) (name : Bytes) :
    (after (makeDirectories (userPath root user) t)).lookup (fileAt R user' name) =
      t.lookup (fileAt R user' name) := by
  rw [h.makeDirectories_eq]
  split
  · split
    · exact lookup_insert_of_ne t (userAt_ne_fileAt R user user' name).symm .directory
    · rfl
    · rfl
  · rfl

end Plain

section Files

variable {filename : String}

/-- A name that is not plain is refused by every operation on a directory. -/
theorem store_not_plain (d : UserDirectory) (hplain : isPlainFilename filename ≠ true)
    (content : Bytes) (t : FileTree) :
    d.store filename content t = .error (.invalidFilename filename) t := by
  unfold UserDirectory.store
  rw [filePath_of_not_plain hplain]
  rfl

theorem read_not_plain (d : UserDirectory) (hplain : isPlainFilename filename ≠ true)
    (t : FileTree) : d.read filename t = .error (.invalidFilename filename) t := by
  unfold UserDirectory.read
  rw [filePath_of_not_plain hplain]
  rfl

theorem delete_not_plain (d : UserDirectory) (hplain : isPlainFilename filename ≠ true)
    (t : FileTree) : d.delete filename t = .error (.invalidFilename filename) t := by
  unfold UserDirectory.delete
  rw [filePath_of_not_plain hplain]
  rfl

/-- Reading a file, and what its path leads to. -/
theorem readFile_eq (d : UserDirectory) (hplain : isPlainFilename filename = true) (t : FileTree) :
    d.read filename t = match t.resolve true (d.path.join ⟨Bytes.ofText filename⟩) with
      | .ok ⟨_, some (.file content)⟩ => .ok content t
      | .ok ⟨_, some _⟩ => .error (.io (d.path.join ⟨Bytes.ofText filename⟩) .isADirectory) t
      | .ok ⟨_, none⟩ | .error .notFound =>
        .error (.fileNotFound (d.path.join ⟨Bytes.ofText filename⟩)) t
      | .error e => .error (.io (d.path.join ⟨Bytes.ofText filename⟩) e) t := by
  rw [read_plain hplain, Files.orFail, load_eq]
  cases t.resolve true (d.path.join ⟨Bytes.ofText filename⟩) with
  | error e => cases e <;> rfl
  | ok place =>
    obtain ⟨l, e?⟩ := place
    cases e? with
    | none => rfl
    | some e => cases e <;> rfl

/-- Deleting a file, and what its path leads to. -/
theorem deleteFile_eq (d : UserDirectory) (hplain : isPlainFilename filename = true) (t : FileTree) :
    d.delete filename t = match t.resolve false (d.path.join ⟨Bytes.ofText filename⟩) with
      | .ok ⟨_, some .directory⟩ =>
        .error (.deleteFailed (d.path.join ⟨Bytes.ofText filename⟩) .isADirectory) t
      | .ok ⟨l, some _⟩ => .ok () (t.erase l)
      | .ok ⟨_, none⟩ => .error (.fileNotFound (d.path.join ⟨Bytes.ofText filename⟩)) t
      | .error .notFound => .error (.fileNotFound (d.path.join ⟨Bytes.ofText filename⟩)) t
      | .error e => .error (.deleteFailed (d.path.join ⟨Bytes.ofText filename⟩) e) t := by
  rw [UserDirectory.delete, filePath_plain hplain]
  change Files.orFail (remove (d.path.join ⟨Bytes.ofText filename⟩)) _ t = _
  rw [Files.orFail, remove_eq]
  cases t.resolve false (d.path.join ⟨Bytes.ofText filename⟩) with
  | error e => cases e <;> rfl
  | ok place =>
    obtain ⟨l, e?⟩ := place
    cases e? with
    | none => rfl
    | some e => cases e <;> rfl

/-- The names of the files in a directory, and what its path leads to. -/
theorem listFiles_eq (d : UserDirectory) (t : FileTree) :
    d.list t = match t.resolve true d.path with
      | .ok ⟨l, some .directory⟩ =>
        .ok (((t.children l).filterMap UserDirectory.listed?).mergeSort fun a b => !(b < a)) t
      | .ok ⟨_, some _⟩ => .error (.io d.path .notADirectory) t
      | .ok ⟨_, none⟩ => .error (.io d.path .notFound) t
      | .error e => .error (.io d.path e) t := by
  have hlist := FileTree.list_eq d.path t
  unfold UserDirectory.list
  cases hresolve : t.resolve true d.path with
  | error e =>
    rw [hresolve] at hlist
    exact bind_run_error (orFail_error hlist)
  | ok place =>
    obtain ⟨l, e?⟩ := place
    rw [hresolve] at hlist
    cases e? with
    | none => exact bind_run_error (orFail_error hlist)
    | some e =>
      cases e with
      | directory => exact bind_run_ok (orFail_ok hlist)
      | file content => exact bind_run_error (orFail_error hlist)
      | link target => exact bind_run_error (orFail_error hlist)

end Files

/-! ## §5 What operations leave -/

/-- From the first tree to the second, only the places of this user and this file changed; there is
still no link, and no directory went away. -/
structure Within (root : Path) (R : Location) (user : UserId) (filename : String)
    (t t' : FileTree) : Prop where
  plain : Plain root R t'
  keeps : t.Keeps t'
  changes : Changes (Touched R user filename) t t'

section Within

variable {root : Path} {R : Location} {t t' t₁ : FileTree} {user : UserId} {filename : String}

theorem Within.refl (h : Plain root R t) (user : UserId) (filename : String) :
    Within root R user filename t t := ⟨h, .refl t, .refl _ t⟩

theorem Within.trans (h : Within root R user filename t t₁)
    (h' : Within root R user filename t₁ t') : Within root R user filename t t' :=
  ⟨h'.plain, h.keeps.trans h'.keeps, h.changes.trans h'.changes⟩

namespace Plain

theorem makeDirectories_within (h : Plain root R t) (user : UserId)
    (hplain : isPlainFilename filename = true) :
    Within root R user filename t (after (makeDirectories (userPath root user) t)) := by
  rw [h.makeDirectories_eq]
  split
  · split
    · rename_i hnone
      obtain ⟨hplain', hkeeps⟩ := h.insert_user hnone
      exact ⟨hplain', hkeeps, changes_insert t ⟨hplain, .inl rfl⟩ .directory⟩
    · exact .refl h user filename
    · exact .refl h user filename
  · exact .refl h user filename

theorem store_within (h : Plain root R t) (user : UserId) (filename : String) (content : Bytes) :
    Within root R user filename t
      (after (UserDirectory.store { user, path := userPath root user } filename content t)) := by
  by_cases hplain : isPlainFilename filename = true
  · have hmade := h.makeDirectories_within user hplain
    rw [h.store_eq user hplain]
    cases hmake : makeDirectories (userPath root user) t with
    | error e t₁ =>
      rw [hmake] at hmade
      exact hmade
    | ok _ t₁ =>
      rw [hmake] at hmade
      have h₁ : Plain root R t₁ := hmade.plain
      simp only
      split
      · -- The file comes into its place, where nothing was.
        rename_i l hresolve
        obtain ⟨rfl, hnone, -⟩ := h₁.location_of_resolve hplain hresolve
        obtain ⟨hplain', hkeeps⟩ := h₁.sets_file (by rw [hnone]; simp) (by simp)
          (sets_insert t₁ (fileAt_ne_nil R user _) (.file content))
        exact hmade.trans ⟨hplain', hkeeps, changes_insert t₁ ⟨hplain, .inr rfl⟩ _⟩
      · exact hmade
      · exact hmade
      · exact hmade
  · rw [store_not_plain _ hplain]
    exact .refl h user filename

theorem delete_within (h : Plain root R t) (user : UserId) (filename : String) :
    Within root R user filename t
      (after (UserDirectory.delete { user, path := userPath root user } filename t)) := by
  by_cases hplain : isPlainFilename filename = true
  · rw [deleteFile_eq _ hplain]
    split
    · exact .refl h user filename
    · -- What is erased is no directory.
      rename_i l e hnot hresolve
      obtain ⟨rfl, he, -⟩ := h.location_of_resolve hplain hresolve
      obtain ⟨hplain', hkeeps⟩ := h.sets_file (by rw [he]; simpa using hnot) (by simp)
        (sets_erase t (fileAt_ne_nil R user _))
      exact ⟨hplain', hkeeps, changes_erase t ⟨hplain, .inr rfl⟩⟩
    · exact .refl h user filename
    · exact .refl h user filename
    · exact .refl h user filename
  · rw [delete_not_plain _ hplain]
    exact .refl h user filename

end Plain

/-- A file that cannot be stored, or deleted, changes nothing. -/
theorem Plain.store_fails (h : Plain root R t)
    (hleads : t.Leads (userPath root user) (userAt R user)) {content : Bytes} {e : StorageError}
    (hfail : outcome (UserDirectory.store { user, path := userPath root user } filename content t) =
      .error e) :
    after (UserDirectory.store { user, path := userPath root user } filename content t) = t := by
  by_cases hplain : isPlainFilename filename = true
  · rw [h.store_leads hleads hplain] at hfail ⊢
    split at hfail
    · cases hfail
    · rfl
    · rfl
    · rfl
  · rw [store_not_plain _ hplain]
    rfl

theorem delete_fails {d : UserDirectory} {e : StorageError}
    (hfail : outcome (d.delete filename t) = .error e) : after (d.delete filename t) = t := by
  by_cases hplain : isPlainFilename filename = true
  · rw [deleteFile_eq _ hplain] at hfail ⊢
    split at hfail
    · rfl
    · cases hfail
    · rfl
    · rfl
    · rfl
  · rw [delete_not_plain _ hplain]
    rfl

/-- Reading and listing change nothing. -/
theorem after_read (d : UserDirectory) (filename : String) (t : FileTree) :
    after (d.read filename t) = t :=
  tended_read (· = t) d filename t rfl

theorem after_list (d : UserDirectory) (t : FileTree) : after (d.list t) = t :=
  tended_list (· = t) d t rfl

end Within

end BackupVault.Registry
