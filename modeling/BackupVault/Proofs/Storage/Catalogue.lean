import BackupVault.Proofs.Storage.Results
import BackupVault.Proofs.Text.Order
import BackupVault.Proofs.Wire.Reading
import Mathlib.Data.Finmap
import Mathlib.Data.Finset.Sort

/-!
# The registry as a catalogue

A registry that starts in an empty directory is a map from users to their files by name, whatever
is remembered of it and whatever is on disk: every answer is the one that the map gives, and a
registry that is opened anew goes on with the same map.

## Overview

- `Registry.Act`: what can be asked of a registry
- `Registry.Catalogue`, `Registry.Catalogue.act`: the map, and what it answers
- `Registry.Shows`: the files of a storage are those of a catalogue
- `Registry.Shows.act`: it stays so, and the answers agree
- `Registry.catalogue_told`: all answers to any number of acts
-/

set_option autoImplicit false

namespace BackupVault.Registry

open FileTree

/-! ## §1 Acts -/

/-- What can be asked of a registry. -/
inductive Act where
  | call (c : Call)
  | get (user : UserId)
  | getOrCreate (user : UserId)
  /-- A new registry takes the place of this one, on the same root. -/
  | reopen

namespace Act

def perform : Act → Registered Answer
  | call c => c.perform
  | get user => do return .directory (← Registry.get user)
  | getOrCreate user => do return .directory (← Registry.getOrCreate user)
  | reopen => do
    Registry.reopen
    return .reopened

/-- The name of a file in the act, if there is one, has at most 255 bytes. -/
def Fits : Act → Prop
  | call c => ∀ filename, c.filename? = some filename → (Bytes.ofText filename).size ≤ 255
  | _ => True

end Act

/-- What a registry answers to acts one after another. -/
def answers (s : Storage) : List Act → List Told
  | [] => []
  | a :: as => outcome (a.perform s) :: answers (after (a.perform s)) as

/-! ## §2 Catalogues -/

/-- Files by name. -/
abbrev Shelf := Finmap fun _ : String => Bytes

/-- The users that are known, with their files. -/
abbrev Catalogue := UserId → Option Shelf

namespace Catalogue

def put (m : Catalogue) (user : UserId) (shelf : Shelf) : Catalogue :=
  Function.update m user (some shelf)

/-- The names of files, in ascending order. -/
def names (shelf : Shelf) : List String := shelf.keys.sort (· ≤ ·)

/-- What is answered to a call about the file of a known user, if the name is plain. -/
def find (m : Catalogue) (user : UserId) (filename : String) (missing : StorageError) :
    Except StorageError (Shelf × Bytes) :=
  match m user with
  | none => .error (.userNotFound user)
  | some shelf =>
    if isPlainFilename filename then
      match shelf.lookup filename with
      | some content => .ok (shelf, content)
      | none => .error missing
    else .error (.invalidFilename filename)

/-- What is answered to an act, and the catalogue afterwards.  The root is there for the paths in
the answers. -/
def act (root : Path) (m : Catalogue) : Act → Told × Catalogue
  | .call (.store user filename content) =>
    if isPlainFilename filename then
      match ((m user).getD ∅).lookup filename with
      | some _ => (.error (.alreadyExists (filePath root user filename)), m)
      | none =>
        (.ok (.stored (filePath root user filename)),
          m.put user (((m user).getD ∅).insert filename content))
    else (.error (.invalidFilename filename), m)
  | .call (.read user filename) =>
    match m.find user filename (.fileNotFound (filePath root user filename)) with
    | .ok (_, content) => (.ok (.content content), m)
    | .error e => (.error e, m)
  | .call (.list user) =>
    match m user with
    | some shelf => (.ok (.names (names shelf)), m)
    | none => (.error (.userNotFound user), m)
  | .call (.delete user filename) =>
    match m.find user filename (.fileNotFound (filePath root user filename)) with
    | .ok (shelf, _) => (.ok .deleted, m.put user (shelf.erase filename))
    | .error e => (.error e, m)
  | .get user =>
    match m user with
    | some _ => (.ok (.directory { user, path := userPath root user }), m)
    | none => (.error (.userNotFound user), m)
  | .getOrCreate user =>
    (.ok (.directory { user, path := userPath root user }), m.put user ((m user).getD ∅))
  | .reopen => (.ok .reopened, m)

/-- What a catalogue answers to acts one after another. -/
def answers (root : Path) (m : Catalogue) : List Act → List Told
  | [] => []
  | a :: as => (m.act root a).1 :: answers root (m.act root a).2 as

theorem put_self {m : Catalogue} {user : UserId} {shelf : Shelf} (h : m user = some shelf) :
    m.put user shelf = m := by
  rw [put, ← h, Function.update_eq_self]

theorem put_same (m : Catalogue) (user : UserId) (shelf : Shelf) :
    m.put user shelf user = some shelf := Function.update_self ..

theorem put_other (m : Catalogue) {user user' : UserId} (h : user' ≠ user) (shelf : Shelf) :
    m.put user shelf user' = m user' := Function.update_of_ne h ..

theorem put_put (m : Catalogue) (user : UserId) (shelf shelf' : Shelf) :
    (m.put user shelf).put user shelf' = m.put user shelf' := Function.update_idem ..

/-- The names are in strictly ascending order. -/
theorem pairwise_names (shelf : Shelf) : (names shelf).Pairwise (· < ·) :=
  ((Finset.pairwise_sort shelf.keys (· ≤ ·)).and (Finset.sort_nodup shelf.keys (· ≤ ·))).imp
    fun h => lt_of_le_of_ne h.1 h.2

/-- Only listing answers names. -/
theorem names_of_act {root : Path} {m : Catalogue} {a : Act} {ns : List String}
    (h : (m.act root a).1 = .ok (.names ns)) : ∃ shelf, ns = names shelf := by
  cases a with
  | call c =>
    cases c with
    | store user filename content =>
      simp only [act] at h
      split at h
      · split at h <;> cases h
      · cases h
    | read user filename =>
      simp only [act] at h
      split at h <;> cases h
    | list user =>
      simp only [act] at h
      split at h
      · cases h
        exact ⟨_, rfl⟩
      · cases h
    | delete user filename =>
      simp only [act] at h
      split at h <;> cases h
  | get user =>
    simp only [act] at h
    split at h <;> cases h
  | getOrCreate user => cases h
  | reopen => cases h

theorem pairwise_of_answers {root : Path} {m : Catalogue} {acts : List Act} {ns : List String}
    (h : .ok (.names ns) ∈ answers root m acts) : ns.Pairwise (· < ·) := by
  induction acts generalizing m with
  | nil => cases h
  | cons a acts ih =>
    rcases List.mem_cons.mp h with hfirst | hlater
    · obtain ⟨shelf, rfl⟩ := names_of_act hfirst.symm
      exact pairwise_names shelf
    · exact ih hlater

end Catalogue

/-! ## §3 Storages that show a catalogue -/

/-- The content of a file in a catalogue, by the bytes of its name. -/
def Catalogue.held (m : Catalogue) (user : UserId) (name : Bytes) : Option Bytes :=
  (m user).bind fun shelf => (String.fromUTF8? name).bind shelf.lookup

theorem Catalogue.held_text {m : Catalogue} {user : UserId} {shelf : Shelf}
    (huser : m user = some shelf) (filename : String) :
    m.held user (Bytes.ofText filename) = shelf.lookup filename := by
  rw [held, huser, Option.bind_some, Reader.fromUTF8_ofText, Option.bind_some]

/-- The files below the root are those of the catalogue; nothing else is there. -/
structure Shows (root : Path) (R : Location) (s : Storage) (m : Catalogue) : Prop where
  registry : s.registry.root = root
  layout : Layout root R s.files
  sound : Sound R s
  once : ∀ user, s.files.Once (userAt R user)
  users : ∀ user, s.files.lookup (userAt R user) = (m user).map fun _ => .directory
  files : ∀ user name, s.files.lookup (fileAt R user name) = (m.held user name).map .file

/-- What came of an act is what the catalogue says. -/
structure Follows (root : Path) (R : Location) (r : EStateM.Result StorageError Storage Answer)
    (next : Told × Catalogue) : Prop where
  told : outcome r = next.1
  shows : Shows root R (after r) next.2

namespace Shows

variable {root : Path} {R : Location} {s : Storage} {m : Catalogue} {user : UserId}
  {filename : String} {shelf shelf' : Shelf}

theorem directory (h : Shows root R s m) (huser : m user = some shelf) :
    s.files.lookup (userAt R user) = some .directory := by
  rw [h.users, huser, Option.map_some]

theorem leads (h : Shows root R s m) (huser : m user = some shelf) :
    s.files.Leads (userPath root user) (userAt R user) :=
  h.layout.leads_user (h.directory huser)

theorem file (h : Shows root R s m) (huser : m user = some shelf) (filename : String) :
    s.files.lookup (fileAt R user (Bytes.ofText filename)) = (shelf.lookup filename).map .file := by
  rw [h.files, Catalogue.held_text huser]

theorem resolve_file (h : Shows root R s m) (huser : m user = some shelf)
    (hplain : isPlainFilename filename = true)
    (hsize : (Bytes.ofText filename).size ≤ maxSegment) (follow : Bool) :
    s.files.resolve follow (filePath root user filename) =
      .ok ⟨fileAt R user (Bytes.ofText filename), (shelf.lookup filename).map .file⟩ := by
  have hresolve := h.layout.resolve_file (h.directory huser) (isStep_of_plain hplain) follow
  rw [if_pos hsize, h.file huser] at hresolve
  exact hresolve

/-! ### Changes -/

/-- Remembering a user that is known shows nothing else. -/
theorem meet (h : Shows root R s m) (huser : m user = some shelf) :
    Shows root R (Registry.meet user s) m where
  registry := (root_meet user s).trans h.registry
  layout := files_meet user s ▸ h.layout
  sound := (h.sound.goes_meet (h.registry.symm ▸ h.leads huser)).sound
  once := files_meet user s ▸ h.once
  users := files_meet user s ▸ h.users
  files := files_meet user s ▸ h.files

/-- A directory for a user that was not known. -/
theorem insert_user (h : Shows root R s m) (hnone : m user = none) :
    Shows root R { s with files := s.files.insert (userAt R user) .directory } (m.put user ∅) := by
  obtain rfl := h.registry
  have hvacant : s.files.lookup (userAt R user) = none := by rw [h.users, hnone, Option.map_none]
  have hsets := sets_insert s.files (userAt_ne_nil R user) .directory
  obtain ⟨hlayout, hstays⟩ := h.layout.set_user hvacant hsets
  refine ⟨rfl, hlayout, (h.sound.goes_files hlayout.plain hstays.keeps).sound,
    fun user' => (h.once user').insert _ _, ?_, ?_⟩
  · intro user'
    by_cases heq : user' = user
    · rw [heq, Catalogue.put_same]
      exact hsets.self
    · rw [Catalogue.put_other m heq, ← h.users]
      exact hsets.others _ fun hat => heq (userAt_injective hat)
  · intro user' name
    refine (hsets.others _ (userAt_ne_fileAt R user user' name).symm).trans ?_
    rw [h.files, Catalogue.held, Catalogue.held]
    by_cases heq : user' = user
    · rw [heq, Catalogue.put_same, hnone]
      cases String.fromUTF8? name <;> rfl
    · rw [Catalogue.put_other m heq]

/-- A file of a user is put in its place, or taken away. -/
theorem set_file (h : Shows root R s m) (huser : m user = some shelf) {t : FileTree}
    {content? : Option Bytes}
    (hsets : s.files.Sets (fileAt R user (Bytes.ofText filename)) (content?.map .file) t)
    (honce : ∀ user, t.Once (userAt R user)) (hself : shelf'.lookup filename = content?)
    (hothers : ∀ f, f ≠ filename → shelf'.lookup f = shelf.lookup f) :
    Shows root R { s with files := t } (m.put user shelf') := by
  obtain rfl := h.registry
  have hfile : ∀ e, content?.map Entry.file = some e → ∃ content, e = .file content := by
    intro e he
    obtain ⟨content, -, rfl⟩ := Option.map_eq_some_iff.mp he
    exact ⟨content, rfl⟩
  obtain ⟨hlayout, hstays⟩ := h.layout.set_file (h.directory huser) hfile hsets
  refine ⟨rfl, hlayout, (h.sound.goes_files hlayout.plain hstays.keeps).sound, honce, ?_, ?_⟩
  · intro user'
    refine (hsets.others _ (userAt_ne_fileAt R user' user _)).trans ?_
    rw [h.users]
    by_cases heq : user' = user
    · rw [heq, Catalogue.put_same, huser]
      rfl
    · rw [Catalogue.put_other m heq]
  · intro user' name
    by_cases heq : user' = user ∧ name = Bytes.ofText filename
    · obtain ⟨rfl, rfl⟩ := heq
      rw [Catalogue.held_text (Catalogue.put_same ..), hself]
      exact hsets.self
    · refine (hsets.others _ fun hat => heq (fileAt_injective hat)).trans ?_
      rw [h.files, Catalogue.held, Catalogue.held]
      by_cases hsame : user' = user
      · subst hsame
        rw [Catalogue.put_same, huser, Option.bind_some, Option.bind_some]
        -- The name is another one, if it is text at all.
        cases hname : String.fromUTF8? name with
        | none => rfl
        | some f =>
          have hne : f ≠ filename := by
            rintro rfl
            exact heq ⟨rfl, (Reader.ofText_fromUTF8 hname).symm⟩
          rw [Option.bind_some, Option.bind_some, hothers f hne]
      · rw [Catalogue.put_other m hsame]

end Shows

/-! ## §4 What acts come to -/

section Acts

theorem comesFirst_iff (a b : String) : (!decide (b < a)) = true ↔ a ≤ b := by
  rw [Bool.not_eq_true', decide_eq_false_iff_not, not_lt]

variable {root : Path} {R : Location} {s : Storage} {m m' : Catalogue} {user : UserId}
  {filename : String} {shelf : Shelf}

theorem Follows.of_ok {x : Stored Answer} {a : Answer} {t : FileTree} (hrun : x s.files = .ok a t)
    (h : Shows root R { s with files := t } m') : Follows root R (onFiles x s) (.ok a, m') := by
  rw [onFiles_ok hrun]
  exact ⟨rfl, h⟩

theorem Follows.of_error {x : Stored Answer} {e : StorageError}
    (hrun : x s.files = .error e s.files) (h : Shows root R s m) :
    Follows root R (onFiles x s) (.error e, m) := by
  rw [onFiles_error hrun]
  exact ⟨rfl, h⟩

namespace Shows

/-! ### In the directory of a known user -/

theorem task_store (h : Shows root R s m) (huser : m user = some shelf)
    (hplain : isPlainFilename filename = true) (hsize : (Bytes.ofText filename).size ≤ maxSegment)
    (content : Bytes) :
    Follows root R (onFiles ((Call.store user filename content).task
        { user, path := userPath root user }) s)
      (m.act root (.call (.store user filename content))) := by
  have hstore := h.layout.plain.store_leads (h.leads huser) hplain content
  rw [h.resolve_file huser hplain hsize] at hstore
  have hget : (m user).getD ∅ = shelf := by rw [huser, Option.getD_some]
  simp only [Catalogue.act, hplain, ↓reduceIte, hget]
  cases hfile : shelf.lookup filename with
  | some old =>
    rw [hfile] at hstore
    exact .of_error (bind_run_error hstore) h
  | none =>
    rw [hfile] at hstore
    have hsets : s.files.Sets (fileAt R user (Bytes.ofText filename))
        ((some content).map .file) _ := sets_insert s.files (fileAt_ne_nil R user _) (.file content)
    exact .of_ok (bind_run_ok hstore) (h.set_file huser hsets
      (fun user' => (h.once user').insert _ _) (Finmap.lookup_insert shelf)
      fun f hne => Finmap.lookup_insert_of_ne shelf hne)

theorem task_read (h : Shows root R s m) (huser : m user = some shelf)
    (hsize : (Bytes.ofText filename).size ≤ maxSegment) :
    Follows root R (onFiles ((Call.read user filename).task { user, path := userPath root user }) s)
      (m.act root (.call (.read user filename))) := by
  simp only [Catalogue.act, Catalogue.find, huser]
  by_cases hplain : isPlainFilename filename = true
  · have hread := readFile_eq { user, path := userPath root user } hplain s.files
    have hresolve := h.resolve_file huser hplain hsize true
    rw [filePath] at hresolve
    rw [hresolve] at hread
    simp only [hplain, ↓reduceIte]
    cases hfile : shelf.lookup filename with
    | some content =>
      rw [hfile] at hread
      exact .of_ok (bind_run_ok hread) h
    | none =>
      rw [hfile] at hread
      exact .of_error (bind_run_error hread) h
  · have hread := read_not_plain { user, path := userPath root user } hplain s.files
    simp only [hplain, Bool.false_eq_true, ↓reduceIte]
    exact .of_error (bind_run_error hread) h

theorem task_delete (h : Shows root R s m) (huser : m user = some shelf)
    (hsize : (Bytes.ofText filename).size ≤ maxSegment) :
    Follows root R
      (onFiles ((Call.delete user filename).task { user, path := userPath root user }) s)
      (m.act root (.call (.delete user filename))) := by
  simp only [Catalogue.act, Catalogue.find, huser]
  by_cases hplain : isPlainFilename filename = true
  · have hdelete := deleteFile_eq { user, path := userPath root user } hplain s.files
    have hresolve := h.resolve_file huser hplain hsize false
    rw [filePath] at hresolve
    rw [hresolve] at hdelete
    simp only [hplain, ↓reduceIte]
    cases hfile : shelf.lookup filename with
    | some content =>
      rw [hfile] at hdelete
      have hsets : s.files.Sets (fileAt R user (Bytes.ofText filename))
          ((none : Option Bytes).map .file) _ := sets_erase s.files (fileAt_ne_nil R user _)
      exact .of_ok (bind_run_ok hdelete) (h.set_file huser hsets
        (fun user' => (h.once user').erase _) (Finmap.lookup_erase filename shelf)
        fun f hne => Finmap.lookup_erase_ne hne)
    | none =>
      rw [hfile] at hdelete
      exact .of_error (bind_run_error hdelete) h
  · have hdelete := delete_not_plain { user, path := userPath root user } hplain s.files
    simp only [hplain, Bool.false_eq_true, ↓reduceIte]
    exact .of_error (bind_run_error hdelete) h

/-! ### Names -/

/-- A name is listed if there is a file of this name on the shelf. -/
theorem mem_listed (h : Shows root R s m) (huser : m user = some shelf) (filename : String) :
    filename ∈ (s.files.children (userAt R user)).filterMap UserDirectory.listed? ↔
      filename ∈ shelf.keys := by
  rw [List.mem_filterMap, Finmap.mem_keys, Finmap.mem_iff]
  constructor
  · rintro ⟨⟨name, e⟩, hchild, hlisted⟩
    cases e with
    | file content =>
      have hname := Reader.ofText_fromUTF8 hlisted
      have hfile := (h.once user).lookup_of_mem (List.prefix_append _ _) (fileAt_ne_nil R user name)
        (mem_children.mp hchild)
      change s.files.lookup (fileAt R user name) = _ at hfile
      rw [← hname, h.file huser] at hfile
      obtain ⟨content', hcontent, -⟩ := Option.map_eq_some_iff.mp hfile
      exact ⟨content', hcontent⟩
    | directory => cases hlisted
    | link target => cases hlisted
  · rintro ⟨content, hcontent⟩
    have hfile := h.file huser filename
    rw [hcontent, Option.map_some] at hfile
    exact ⟨_, mem_children.mpr (mem_of_lookup (fileAt_ne_nil R user _) hfile),
      Reader.fromUTF8_ofText filename⟩

/-- No name is listed twice. -/
theorem nodup_listed (h : Shows root R s m) (user : UserId) :
    ((s.files.children (userAt R user)).filterMap UserDirectory.listed?).Nodup := by
  refine List.Pairwise.filterMap _ ?_ (h.once user).children
  rintro ⟨name, e⟩ ⟨name', e'⟩ hne f hf f' hf' rfl
  cases e with
  | file content =>
    cases e' with
    | file content' =>
      exact hne ((Reader.ofText_fromUTF8 hf).symm.trans (Reader.ofText_fromUTF8 hf'))
    | directory => cases hf'
    | link target => cases hf'
  | directory => cases hf
  | link target => cases hf

/-- The names that are listed, in order, are those on the shelf. -/
theorem names_eq (h : Shows root R s m) (huser : m user = some shelf) :
    ((s.files.children (userAt R user)).filterMap UserDirectory.listed?).mergeSort
      (fun a b => !(b < a)) = Catalogue.names shelf := by
  have hsorted : (((s.files.children (userAt R user)).filterMap UserDirectory.listed?).mergeSort
      (fun a b => !(b < a))).Pairwise (· ≤ ·) := by
    refine (List.pairwise_mergeSort (fun a b c hab hbc => ?_) (fun a b => ?_) _).imp
      (comesFirst_iff _ _).mp
    · rw [comesFirst_iff] at hab hbc ⊢
      exact le_trans hab hbc
    · rw [Bool.or_eq_true, comesFirst_iff, comesFirst_iff]
      exact le_total a b
  -- The same names without repetition, in the same order.
  refine List.Perm.eq_of_pairwise (fun a b _ _ => le_antisymm) hsorted
    (Finset.pairwise_sort shelf.keys (· ≤ ·)) ?_
  refine (List.mergeSort_perm _ _).trans ?_
  refine (List.perm_ext_iff_of_nodup (h.nodup_listed user)
    (Finset.sort_nodup shelf.keys (· ≤ ·))).mpr fun f => ?_
  rw [h.mem_listed huser, Finset.mem_sort]

theorem task_list (h : Shows root R s m) (huser : m user = some shelf) :
    Follows root R (onFiles ((Call.list user).task { user, path := userPath root user }) s)
      (m.act root (.call (.list user))) := by
  have hlist := listFiles_eq { user, path := userPath root user } s.files
  have hleads := h.leads huser
  rw [Leads] at hleads
  rw [hleads] at hlist
  simp only [h.names_eq huser] at hlist
  simp only [Catalogue.act, huser]
  exact .of_ok (bind_run_ok hlist) h

/-! ### Getting a directory -/

theorem get_some (h : Shows root R s m) (huser : m user = some shelf) :
    get user s = .ok { user, path := userPath root user } (Registry.meet user s) := by
  obtain rfl := h.registry
  have hleads := h.leads huser
  rw [Leads] at hleads
  rw [h.sound.get_eq, hleads]

theorem get_none (h : Shows root R s m) (hnone : m user = none) :
    get user s = .error (.userNotFound user) s := by
  obtain rfl := h.registry
  have hresolve := h.layout.resolve_user user true
  rw [h.users, hnone] at hresolve
  rw [h.sound.get_eq, userPath, hresolve]
  rfl

theorem getOrCreate_some (h : Shows root R s m) (huser : m user = some shelf) :
    getOrCreate user s = .ok { user, path := userPath root user } (Registry.meet user s) := by
  obtain rfl := h.registry
  rw [h.sound.getOrCreate_eq, makeDirectories_leads (h.leads huser)]

/-- A user that was not known gets a directory first, with nothing in it. -/
theorem getOrCreate_none (h : Shows root R s m) (hnone : m user = none) :
    getOrCreate user s =
      getOrCreate user { s with files := s.files.insert (userAt R user) .directory } := by
  rw [(h.insert_user hnone).getOrCreate_some (Catalogue.put_same ..)]
  obtain rfl := h.registry
  have hresolve := h.layout.resolve_user user false
  rw [h.users, hnone] at hresolve
  have hmake := makeDirectories_none
    ((h.layout.extends_user user).steps_ne_nil (isStep_number user)) hresolve
  rw [h.sound.getOrCreate_eq, userPath, hmake]

/-! ### Any act -/

/-- Anything but a refused call is done in the directory of a user that is known. -/
theorem call_known (h : Shows root R s m) {c : Call} (hfits : (Act.call c).Fits)
    (hrefused : c.isRefused = false) (huser : m c.user = some shelf) :
    Follows root R (c.perform s) (m.act root (.call c)) := by
  have hperform := h.sound.perform_leads c.user rfl hrefused (h.registry.symm ▸ h.leads huser)
  rw [h.registry] at hperform
  rw [hperform]
  have hmeet := h.meet huser
  cases c with
  | store user filename content =>
    exact hmeet.task_store huser (by simpa [Call.isRefused] using hrefused) (hfits _ rfl) content
  | read user filename => exact hmeet.task_read huser (hfits _ rfl)
  | list user => exact hmeet.task_list huser
  | delete user filename => exact hmeet.task_delete huser (hfits _ rfl)

/-- Without a directory there is nothing to read, to list or to delete. -/
theorem call_missing (h : Shows root R s m) {c : Call} (henter : c.enter = get user)
    (hnone : m user = none) : c.perform s = .error (.userNotFound user) s := by
  rw [c.perform_eq, henter]
  exact bind_run_error (h.get_none hnone)

/-- Storing makes the user known first. -/
theorem store_unknown (h : Shows root R s m) (hnone : m user = none)
    (hplain : isPlainFilename filename = true) (content : Bytes) :
    (Call.store user filename content).perform s = (Call.store user filename content).perform
      { s with files := s.files.insert (userAt R user) .directory } := by
  have henter (s : Storage) : (Call.store user filename content).enter s = getOrCreate user s :=
    bind_run_ok (check_plain hplain s)
  rw [Call.perform_eq]
  refine bind_run_congr ?_
  rw [henter, henter, h.getOrCreate_none hnone]

theorem call_unknown (h : Shows root R s m) {c : Call} (hfits : (Act.call c).Fits)
    (hrefused : c.isRefused = false) (hnone : m c.user = none) :
    Follows root R (c.perform s) (m.act root (.call c)) := by
  cases c with
  | store user filename content =>
    change m user = none at hnone
    have hplain : isPlainFilename filename = true := by simpa [Call.isRefused] using hrefused
    have hsame : m.put user ∅ user = some ∅ := Catalogue.put_same ..
    have hknown := (h.insert_user hnone).call_known hfits hrefused hsame
    -- To storing, a user without files is like one that is not known.
    have hact : (m.put user ∅).act root (.call (.store user filename content)) =
        m.act root (.call (.store user filename content)) := by
      simp [Catalogue.act, hplain, hnone, hsame, Catalogue.put_put]
    rw [h.store_unknown hnone hplain]
    exact hact ▸ hknown
  | read user filename =>
    change m user = none at hnone
    rw [h.call_missing (c := .read user filename) rfl hnone]
    simp only [Catalogue.act, Catalogue.find, hnone]
    exact ⟨rfl, h⟩
  | list user =>
    change m user = none at hnone
    rw [h.call_missing (c := .list user) rfl hnone]
    simp only [Catalogue.act, hnone]
    exact ⟨rfl, h⟩
  | delete user filename =>
    change m user = none at hnone
    rw [h.call_missing (c := .delete user filename) rfl hnone]
    simp only [Catalogue.act, Catalogue.find, hnone]
    exact ⟨rfl, h⟩

/-- Nothing is stored under a name that is not plain. -/
theorem call_refused (h : Shows root R s m) {c : Call} (hrefused : c.isRefused = true) :
    Follows root R (c.perform s) (m.act root (.call c)) := by
  cases c with
  | store user filename content =>
    have hplain : isPlainFilename filename ≠ true := by simpa [Call.isRefused] using hrefused
    rw [perform_refused hplain]
    simp only [Catalogue.act, hplain, Bool.false_eq_true, ↓reduceIte]
    exact ⟨rfl, h⟩
  | read | list | delete => cases hrefused

theorem call (h : Shows root R s m) (c : Call) (hfits : (Act.call c).Fits) :
    Follows root R (c.perform s) (m.act root (.call c)) := by
  cases hrefused : c.isRefused with
  | true => exact h.call_refused hrefused
  | false =>
    cases huser : m c.user with
    | some shelf => exact h.call_known hfits hrefused huser
    | none => exact h.call_unknown hfits hrefused huser

theorem reopen_eq (h : Shows root R s m) :
    reopen s = .ok () { registry := { root }, files := s.files } := by
  obtain rfl := h.registry
  have hcreate : create s.registry.root s.files = .ok { root := s.registry.root } s.files :=
    bind_run_ok (orFail_ok (makeDirectories_leads h.layout.leads))
  exact bind_run_ok (onFiles_ok hcreate)

theorem act (h : Shows root R s m) (a : Act) (hfits : a.Fits) :
    Follows root R (a.perform s) (m.act root a) := by
  cases a with
  | call c => exact h.call c hfits
  | get user =>
    cases huser : m user with
    | some shelf =>
      simp only [Act.perform, bind_run_ok (h.get_some huser), Catalogue.act, huser]
      exact ⟨rfl, h.meet huser⟩
    | none =>
      simp only [Act.perform, bind_run_error (h.get_none huser), Catalogue.act, huser]
      exact ⟨rfl, h⟩
  | getOrCreate user =>
    cases huser : m user with
    | some shelf =>
      simp only [Act.perform, bind_run_ok (h.getOrCreate_some huser), Catalogue.act, huser,
        Option.getD_some, Catalogue.put_self huser]
      exact ⟨rfl, h.meet huser⟩
    | none =>
      have hnew := h.insert_user huser
      have hrun := (h.getOrCreate_none huser).trans (hnew.getOrCreate_some (Catalogue.put_same ..))
      simp only [Act.perform, bind_run_ok hrun, Catalogue.act, huser, Option.getD_none]
      exact ⟨rfl, hnew.meet (Catalogue.put_same ..)⟩
  | reopen =>
    have hrun : Act.reopen.perform s = .ok .reopened { registry := { root }, files := s.files } :=
      bind_run_ok h.reopen_eq
    rw [hrun]
    have hsound : Sound R { registry := { root }, files := s.files } :=
      ⟨h.layout.plain, fun user hu => absurd hu List.not_mem_nil, .nil⟩
    exact ⟨rfl, rfl, h.layout, hsound, h.once, h.users, h.files⟩

theorem answers (h : Shows root R s m) {acts : List Act} (hfits : ∀ a ∈ acts, a.Fits) :
    Registry.answers s acts = m.answers root acts := by
  induction acts generalizing s m with
  | nil => rfl
  | cons a acts ih =>
    have hnext := h.act a (hfits a List.mem_cons_self)
    rw [Registry.answers, Catalogue.answers, hnext.told,
      ih hnext.shows fun a ha => hfits a (List.mem_cons_of_mem _ ha)]

end Shows

end Acts

/-! ## §5 Starting in an empty directory -/

/-- An empty directory, with room for the paths below it, shows the catalogue without users. -/
theorem shows_empty {root : Path} {R : Location} {files : FileTree} (hroot : files.Leads root R)
    (hempty : ∀ l, R <+: l → l ≠ R → files.lookup l = none) (hlimit : files.sizeLimit = none)
    (hroom : root.bytes.size + 268 ≤ maxPath) :
    Shows root R { registry := { root }, files } fun _ => none := by
  have huser (user : UserId) : files.lookup (userAt R user) = none := by
    refine hempty _ (List.prefix_append _ _) fun heq => ?_
    simpa [userAt] using congrArg List.length heq
  have hfile (user : UserId) (name : Bytes) : files.lookup (fileAt R user name) = none := by
    refine hempty _ ((List.prefix_append _ _).trans (userAt_prefix_fileAt R user name))
      fun heq => ?_
    simpa [fileAt, userAt] using congrArg List.length heq
  have hlayout : Layout root R files := by
    refine ⟨hroot, hroom, hlimit, fun user e he => ?_, fun user name e he => ?_⟩
    · rw [huser] at he
      cases he
    · rw [hfile] at he
      cases he
  have honce (user : UserId) : files.Once (userAt R user) := by
    refine once_of_lookup fun l hl => hempty l ((List.prefix_append _ _).trans hl) ?_
    rintro rfl
    simpa [userAt] using hl.length_le
  exact ⟨rfl, hlayout, ⟨hlayout.plain, fun user hu => absurd hu List.not_mem_nil, .nil⟩, honce,
    huser, hfile⟩

/-- A registry on an empty directory answers to any acts one after another, new registries on the
same root among them, what the catalogue answers; and whenever names are listed, they are in
strictly ascending order of their bytes. -/
theorem catalogue_told {root : Path} {R : Location} {files : FileTree} {acts : List Act}
    (hroot : files.Leads root R) (hempty : ∀ l, R <+: l → l ≠ R → files.lookup l = none)
    (hlimit : files.sizeLimit = none) (hroom : root.bytes.size + 268 ≤ maxPath)
    (hfits : ∀ a ∈ acts, a.Fits) :
    answers { registry := { root }, files } acts = Catalogue.answers root (fun _ => none) acts ∧
      ∀ names, .ok (.names names) ∈ answers { registry := { root }, files } acts →
        names.Pairwise fun a b =>
          Bytes.lexLt (Bytes.ofText a).data.toList (Bytes.ofText b).data.toList = true := by
  have htold := (shows_empty hroot hempty hlimit hroom).answers hfits
  refine ⟨htold, fun names hmem => ?_⟩
  rw [htold] at hmem
  exact (Catalogue.pairwise_of_answers hmem).imp (Bytes.lexLt_ofText _ _).mpr

/-- One file comes and goes, and its user stays. -/
theorem catalogue_told_vacant :
    answers vacant [.call (.store 7 "a" (Bytes.ofList [1])),
        .call (.store 7 "a" (Bytes.ofList [2])), .call (.store 7 ".." (Bytes.ofList [3])), .reopen,
        .call (.read 7 "a"), .call (.delete 7 "a"), .call (.read 7 "a"), .call (.list 7),
        .call (.list 8)] =
      [.ok (.stored (filePath vacant.registry.root 7 "a")),
        .error (.alreadyExists (filePath vacant.registry.root 7 "a")),
        .error (.invalidFilename ".."), .ok .reopened, .ok (.content (Bytes.ofList [1])),
        .ok .deleted, .error (.fileNotFound (filePath vacant.registry.root 7 "a")),
        .ok (.names []), .error (.userNotFound 8)] := by
  have ha : (Bytes.ofText "a").size ≤ 255 := by decide
  have hup : (Bytes.ofText "..").size ≤ 255 := by decide
  refine (catalogue_told (leads_top _) (fun l _ hne => lookup_vacant hne) rfl (by decide)
    ?_).1.trans ?_
  · simp [Act.Fits, Call.filename?, ha, hup]
  · have ha : isPlainFilename "a" = true := by decide
    have hup : isPlainFilename ".." = false := by decide
    have hempty : (Finmap.insert "a" (Bytes.ofList [1]) ∅ : Shelf).keys.erase "a" = ∅ := by decide
    simp [Catalogue.answers, Catalogue.act, Catalogue.find, Catalogue.put, Catalogue.names, vacant,
      Function.update, ha, hup, hempty]

end BackupVault.Registry
