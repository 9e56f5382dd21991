import BackupVault.Proofs.Storage.Files
import BackupVault.Upload.ClientDirectory

/-!
# The directory of clients

A record that was put into the directory is found under its identity.  There is an identity for a
new client as long as some number is not taken, since of two candidates more than there are
clients, at most one has the number zero.  The document is written wherever its place holds no
directory and no link.

## Overview

- `ClientDirectory.find_insert`: a record is found under its identity
- `ClientDirectory.exists_isFree`: there is a free identity
- `ClientDirectory.save_cases`, `register_cases`, `setKeys_cases`: what the operations come to, on
  any disk
- `ClientDirectory.Desk`: where documents are kept; `Desk.write`: writing one
-/

set_option autoImplicit false

namespace BackupVault.ClientDirectory

/-! ## §1 Records -/

theorem find_insert (d : ClientDirectory) (r : ClientRecord) :
    (d.insert r).find? r.id = some r := by
  have hnone : (d.erase r.id).records.find? (·.id == r.id) = none := by
    rw [List.find?_eq_none]
    intro x hx
    have hne := (List.mem_filter.mp hx).2
    simpa using hne
  rw [find?, insert, List.find?_append, hnone, Option.none_or, List.find?_singleton]
  simp

/-! ## §2 Free identities -/

theorem storageId_shifted (id : ClientId) (k : Nat) :
    (id.shifted k).storageId = UInt32.ofNat (id.storageId.toNat + k) := by
  have hsize : (Bytes.ofNatLE 4 (id.storageId.toNat + k) ++ id.bytes.extract 4 16).size = 16 := by
    rw [ByteArray.size_append, Bytes.size_ofNatLE, ByteArray.size_extract, id.size_eq,
      Nat.min_self]
  have hbytes : (id.shifted k).bytes =
      Bytes.ofNatLE 4 (id.storageId.toNat + k) ++ id.bytes.extract 4 16 :=
    Bytes.fit_eq_self hsize
  -- The number is in the first four bytes, least significant first, and only they were shifted.
  have htake : (id.shifted k).bytes.data.toList.take 4 =
      Bytes.listOfNatLE 4 (id.storageId.toNat + k) := by
    rw [hbytes, ByteArray.toList_data_append, Bytes.ofNatLE, Bytes.toList_ofList]
    exact List.take_left' (Bytes.length_listOfNatLE _ _)
  rw [ClientId.storageId, htake, Bytes.natOfListLE_listOfNatLE]
  apply UInt32.toNat_inj.mp
  rw [UInt32.toNat_ofNat', UInt32.toNat_ofNat']
  omega

/-- Some number, which is not zero, is that of no client. -/
def HasRoom (d : ClientDirectory) : Prop :=
  ∃ n : UserId, n ≠ 0 ∧ ∀ r ∈ d.records, r.id.storageId ≠ n

/-- The numbers that a new client cannot get. -/
def taken (d : ClientDirectory) : List UserId := 0 :: d.records.map (·.id.storageId)

theorem isFree_of_not_mem {d : ClientDirectory} {id : ClientId} (h : id.storageId ∉ d.taken) :
    d.isFree id = true := by
  rw [taken, List.mem_cons, not_or, List.mem_map] at h
  rw [isFree, Bool.and_eq_true, bne_iff_ne, List.all_eq_true]
  exact ⟨h.1, fun r hr => bne_iff_ne.mpr fun heq => h.2 ⟨r, hr, heq⟩⟩

/-- Candidates close to each other have different numbers. -/
theorem shifted_injective (id : ClientId) {j k : Nat} (hj : j < 2 ^ 32) (hk : k < 2 ^ 32)
    (h : (id.shifted j).storageId = (id.shifted k).storageId) : j = k := by
  rw [storageId_shifted, storageId_shifted] at h
  have hmod := congrArg UInt32.toNat h
  rw [UInt32.toNat_ofNat', UInt32.toNat_ofNat'] at hmod
  omega

/-- Every number is that of some candidate. -/
theorem shifted_surjective (id : ClientId) (n : UserId) :
    ∃ k < 2 ^ 32, (id.shifted k).storageId = n := by
  refine ⟨(n.toNat + 2 ^ 32 - id.storageId.toNat) % 2 ^ 32, Nat.mod_lt _ (by decide), ?_⟩
  have hlt := n.toNat_lt
  have hlt' := id.storageId.toNat_lt
  rw [storageId_shifted]
  apply UInt32.toNat_inj.mp
  rw [UInt32.toNat_ofNat']
  omega

/-- The candidates are two more than there are clients.  If all their numbers were taken, they
would not all be different, so that every number would be among them. -/
theorem exists_candidate {d : ClientDirectory} (h : d.HasRoom) (drawn : ClientId) :
    ∃ k < d.records.length + 2, (drawn.shifted k).storageId ∉ d.taken := by
  apply Classical.byContradiction
  intro hno
  have hall : ∀ k < d.records.length + 2, (drawn.shifted k).storageId ∈ d.taken :=
    fun k hk => Classical.byContradiction fun hnot => hno ⟨k, hk, hnot⟩
  -- With more candidates than there are numbers, one of them has the free number.
  by_cases hlarge : 2 ^ 32 ≤ d.records.length + 2
  · obtain ⟨n, hzero, hfree⟩ := h
    obtain ⟨k, hk, hn⟩ := shifted_surjective drawn n
    have hmem := hall k (Nat.lt_of_lt_of_le hk hlarge)
    rw [hn, taken, List.mem_cons, List.mem_map] at hmem
    rcases hmem with heq | ⟨r, hr, heq⟩
    · exact hzero heq
    · exact hfree r hr heq
  -- With fewer, they all have different numbers, too many to be taken.
  · let numbers := (List.range (d.records.length + 2)).map fun k => (drawn.shifted k).storageId
    have hnodup : numbers.Nodup := by
      apply List.pairwise_map.mpr
      refine List.pairwise_lt_range.imp_of_mem fun {j k} hj hk hlt heq => ?_
      rw [List.mem_range] at hj hk
      exact Nat.ne_of_lt hlt (shifted_injective drawn (by omega) (by omega) heq)
    have hsubset : numbers ⊆ d.taken := by
      intro n hn
      obtain ⟨k, hk, rfl⟩ := List.mem_map.mp hn
      exact hall k (List.mem_range.mp hk)
    have hlength := hnodup.length_le_of_subset hsubset
    simp [numbers, taken] at hlength

theorem exists_isFree {d : ClientDirectory} (h : d.HasRoom) (drawn : ClientId) :
    ∃ id ∈ (List.range (d.size + 2)).map drawn.shifted, d.isFree id = true := by
  obtain ⟨k, hk, hnot⟩ := exists_candidate h drawn
  exact ⟨_, List.mem_map_of_mem (List.mem_range.mpr hk), isFree_of_not_mem hnot⟩

/-! ## §3 What the operations come to -/

section Operations

variable (disk : Disk)

/-- Saving changes files only, whether it succeeds or not. -/
theorem save_cases (d : ClientDirectory) (t : FileTree) :
    ∃ files, save disk { directory := d, files := t } = .ok () { directory := d, files } ∨
      ∃ e, save disk { directory := d, files := t } = .error e { directory := d, files } := by
  cases hroot : d.root with
  | none => exact ⟨t, .inl (by simp only [save, hroot])⟩
  | some root =>
    cases hwrite : disk.write d root t with
    | ok _ files => exact ⟨files, .inl (by simp only [save, hroot, hwrite])⟩
    | error e files => exact ⟨files, .inr ⟨e, by simp only [save, hroot, hwrite]⟩⟩

/-- A registration is refused, or the record of a new client is saved, and taken back if it cannot
be. -/
theorem register_cases (name : String) (candidates : List ClientId) (now : Timestamp)
    (s : ClientStore) :
    register disk name candidates now s = .ok none s ∧
        (name ≠ "" → s.directory.hasName name = false →
          candidates.find? s.directory.isFree = none) ∨
      ∃ (id : ClientId) (r : ClientRecord) (files : FileTree),
        (name = "" || s.directory.hasName name) = false ∧
        candidates.find? s.directory.isFree = some id ∧
        r = { id, name, publicKey := none, sessionKey := none, lastSeen := now } ∧
        (save disk { s with directory := s.directory.insert r } =
              .ok () { directory := s.directory.insert r, files } ∧
            register disk name candidates now s =
              .ok (some id) { directory := s.directory.insert r, files } ∨
          ∃ e, save disk { s with directory := s.directory.insert r } =
              .error e { directory := s.directory.insert r, files } ∧
            register disk name candidates now s =
              .error e { directory := (s.directory.insert r).erase id, files }) := by
  by_cases hname : (name = "" || s.directory.hasName name) = true
  · refine .inl ⟨by simp only [register, hname, ↓reduceIte], fun hne hnew => ?_⟩
    simp [hne, hnew] at hname
  · rw [Bool.not_eq_true] at hname
    cases hid : candidates.find? s.directory.isFree with
    | none =>
      exact .inl ⟨by simp only [register, hname, hid, Bool.false_eq_true, ↓reduceIte],
        fun _ _ => rfl⟩
    | some id =>
      let r : ClientRecord := { id, name, publicKey := none, sessionKey := none, lastSeen := now }
      obtain ⟨files, hsave⟩ := save_cases disk (s.directory.insert r) s.files
      refine .inr ⟨id, r, files, hname, rfl, rfl, hsave.imp (fun hsave => ⟨hsave, ?_⟩) ?_⟩
      · simp only [register, hname, hid, Bool.false_eq_true, ↓reduceIte]
        simp only [r] at hsave
        rw [hsave]
      · rintro ⟨e, hsave⟩
        refine ⟨e, hsave, ?_⟩
        simp only [register, hname, hid, Bool.false_eq_true, ↓reduceIte]
        simp only [r] at hsave
        rw [hsave]

/-- Keys are set for a client that is there, even if they cannot be saved. -/
theorem setKeys_cases (id : ClientId) (publicKey : PublicKey) (key : SessionKey) (now : Timestamp)
    (s : ClientStore) :
    s.directory.find? id = none ∧ setKeys disk id publicKey key now s = .ok false s ∨
      ∃ (r : ClientRecord) (files : FileTree),
        s.directory.find? id = some r ∧
        (save disk { s with directory := s.directory.insert (withKeys r publicKey key now) } =
              .ok () { directory := s.directory.insert (withKeys r publicKey key now), files } ∧
            setKeys disk id publicKey key now s =
              .ok true { directory := s.directory.insert (withKeys r publicKey key now), files } ∨
          ∃ e, save disk { s with directory := s.directory.insert (withKeys r publicKey key now) } =
              .error e { directory := s.directory.insert (withKeys r publicKey key now), files } ∧
            setKeys disk id publicKey key now s =
              .error e
                { directory := s.directory.insert (withKeys r publicKey key now), files }) := by
  cases hr : s.directory.find? id with
  | none => exact .inl ⟨rfl, by simp only [setKeys, hr]⟩
  | some r =>
    obtain ⟨files, hsave⟩ := save_cases disk (s.directory.insert (withKeys r publicKey key now))
      s.files
    refine .inr ⟨r, files, rfl, hsave.imp (fun hsave => ⟨hsave, ?_⟩) ?_⟩
    · simp only [setKeys, hr, hsave]
    · rintro ⟨e, hsave⟩
      exact ⟨e, hsave, by simp only [setKeys, hr, hsave]⟩

end Operations

/-! ## §4 The document -/

section Names

open FileTree

variable {root : Path} {R : Location} {t : FileTree} {name : String}

/-- Where the document lies, below where the root leads. -/
def documentAt (R : Location) : Location := R ++ [Bytes.ofText documentName]

/-- Where the draft of a document lies. -/
def draftAt (R : Location) : Location := R ++ [Bytes.ofText draftName]

theorem isStep_name (h : name = draftName ∨ name = documentName) :
    Path.IsStep (Bytes.ofText name) := by
  rcases h with rfl | rfl <;>
    exact Path.isStep_ofText (by decide) (by decide) (by decide) (by decide) (by decide)

theorem size_name_le (h : name = draftName ∨ name = documentName) :
    (Bytes.ofText name).size ≤ 12 := by
  rcases h with rfl | rfl <;> decide

theorem location_ne_nil (R : Location) (name : String) : R ++ [Bytes.ofText name] ≠ [] :=
  List.append_ne_nil_of_right_ne_nil _ (List.cons_ne_nil _ _)

theorem draftAt_ne_documentAt (R : Location) : draftAt R ≠ documentAt R := by
  intro heq
  have hlast := List.append_inj_right' heq rfl
  injection hlast with hbytes
  exact absurd (Bytes.ofText_injective hbytes) (by decide)

theorem extends_name (h : t.Leads root R) (hname : name = draftName ∨ name = documentName) :
    root.Extends (Bytes.ofText name) (root.join (Path.ofText name)) :=
  Path.join_extends h.inv.1 (isStep_name hname)

/-- With room for the path, and no link in the place, the path leads there. -/
theorem resolve_name (h : t.Leads root R) (hroom : root.bytes.size + 13 ≤ maxPath)
    (hname : name = draftName ∨ name = documentName)
    (hlink : ∀ target, t.lookup (R ++ [Bytes.ofText name]) ≠ some (.link target)) (follow : Bool) :
    t.resolve follow (root.join (Path.ofText name)) =
      .ok ⟨R ++ [Bytes.ofText name], t.lookup (R ++ [Bytes.ofText name])⟩ := by
  have hsize := size_name_le hname
  have hpath := (extends_name h hname).size_le
  rw [h.resolve_child (extends_name h hname) (isStep_name hname) hlink,
    if_pos ⟨by omega, Nat.le_trans hsize (by decide)⟩]

end Names

/-- The root leads to a directory in which documents can be kept: there is room for their paths,
no file is limited in size, and nothing but a file stands in their places. -/
structure Desk (root : Path) (R : Location) (t : FileTree) : Prop where
  leads : t.Leads root R
  room : root.bytes.size + 13 ≤ FileTree.maxPath
  unlimited : t.sizeLimit = none
  documents : ∀ name, name = draftName ∨ name = documentName →
    ∀ e, t.lookup (R ++ [Bytes.ofText name]) = some e → ∃ content, e = .file content

namespace Desk

open FileTree

variable {root : Path} {R : Location} {t t' : FileTree} {name : String}

theorem resolve (h : Desk root R t) (hname : name = draftName ∨ name = documentName)
    (follow : Bool) :
    t.resolve follow (root.join (Path.ofText name)) =
      .ok ⟨R ++ [Bytes.ofText name], t.lookup (R ++ [Bytes.ofText name])⟩ := by
  refine resolve_name h.leads h.room hname ?_ follow
  -- Only a file can stand there, so that no link is followed.
  intro target hl
  obtain ⟨content, hfile⟩ := h.documents name hname _ hl
  cases hfile

theorem not_directory (h : Desk root R t) (hname : name = draftName ∨ name = documentName) :
    t.lookup (R ++ [Bytes.ofText name]) ≠ some .directory := by
  intro hl
  obtain ⟨content, hfile⟩ := h.documents name hname _ hl
  cases hfile

/-- A document comes into its place, or goes away. -/
theorem sets (h : Desk root R t) (hname : name = draftName ∨ name = documentName)
    {e? : Option Entry} (he? : ∀ e, e? = some e → ∃ content, e = .file content)
    (hsets : t.Sets (R ++ [Bytes.ofText name]) e? t') : Desk root R t' ∧ t.Keeps t' := by
  have hkeeps : t.Keeps t' := hsets.keeps (h.documents name hname)
  refine ⟨⟨h.leads.keeps hkeeps, h.room, hsets.sizeLimit.trans h.unlimited, ?_⟩, hkeeps⟩
  intro name' hname' e he
  by_cases heq : R ++ [Bytes.ofText name'] = R ++ [Bytes.ofText name]
  · rw [heq, hsets.self] at he
    exact he? e he
  · rw [hsets.others _ heq] at he
    exact h.documents name' hname' e he

/-- Where a document stands, or nothing, a document can be written. -/
theorem admitsFile (h : Desk root R t) (hname : name = draftName ∨ name = documentName) :
    t.admitsFile (root.join (Path.ofText name))
      ⟨R ++ [Bytes.ofText name], t.lookup (R ++ [Bytes.ofText name])⟩ = true := by
  have hsets := sets_insert t (location_ne_nil R name) (.file ByteArray.empty)
  obtain ⟨hdesk, -⟩ := h.sets hname (by rintro e ⟨⟩; exact ⟨_, rfl⟩) hsets
  exact admitsFile_iff.mpr ⟨h.not_directory hname, _, hdesk.resolve hname true⟩

/-- The document is written, and nothing else changes but its draft. -/
theorem write (h : Desk root R t) (d : ClientDirectory) :
    ∃ t', d.write root t = .ok () t' ∧ Desk root R t' ∧ t.Keeps t' ∧
      ∀ l, (∀ name, name = draftName ∨ name = documentName → l ≠ R ++ [Bytes.ofText name]) →
        t'.lookup l = t.lookup l := by
  have hdraft : draftName = draftName ∨ draftName = documentName := .inl rfl
  have hdocument : documentName = draftName ∨ documentName = documentName := .inr rfl
  -- The draft is written,
  obtain ⟨t₁, hsave, hsets₁⟩ := save_unlimited (location_ne_nil R draftName) h.unlimited
    (extends_name h.leads hdraft).endsWithSeparator (h.resolve hdraft true) (h.admitsFile hdraft)
    (Bytes.ofText d.document)
  obtain ⟨h₁, hkeeps₁⟩ := h.sets hdraft (by rintro e ⟨⟩; exact ⟨_, rfl⟩) hsets₁
  -- and then moved: it goes away, and the document comes into its place.
  have hresolve := h₁.resolve hdraft false
  rw [hsets₁.self] at hresolve
  have hmove := move_file hresolve (h₁.resolve hdocument false) (h₁.not_directory hdocument)
    (draftAt_ne_documentAt R)
  have hsets₂ := sets_erase t₁ (location_ne_nil R draftName)
  obtain ⟨h₂, hkeeps₂⟩ := h₁.sets hdraft (by rintro e ⟨⟩) hsets₂
  have hsets₃ := sets_insert (t₁.erase (R ++ [Bytes.ofText draftName]))
    (location_ne_nil R documentName) (.file (Bytes.ofText d.document))
  obtain ⟨h₃, hkeeps₃⟩ := h₂.sets hdocument (by rintro e ⟨⟩; exact ⟨_, rfl⟩) hsets₃
  refine ⟨_, ?_, h₃, (hkeeps₁.trans hkeeps₂).trans hkeeps₃, ?_⟩
  · unfold ClientDirectory.write
    rw [bind_run_ok (orFail_ok hsave)]
    exact orFail_ok hmove
  · intro l hl
    rw [hsets₃.others l (hl _ hdocument), hsets₂.others l (hl _ hdraft),
      hsets₁.others l (hl _ hdraft)]

end Desk

end BackupVault.ClientDirectory
