import BackupVault.Proofs.Upload.Saving

/-!
# Calls on the directory of clients

A session registers a client or sets its keys.  Unless it is refused, such a call puts one record
into the directory: that of a new client, or a further one of a client who is there, with the same
identity and the same name.  What else a call does is the same for both: the directory is saved
with this record, and the two differ in what they undo when saving fails.

## Overview

- `Call`, `Answer`: calls and what is answered
- `Call.run_none`, `Call.run_some`: what a call does
- `Call.fresh_or_same`: the record that it puts in
-/

set_option autoImplicit false

namespace BackupVault.ClientDirectory

/-! ## §1 Calls -/

inductive Call where
  /-- The identities are those that are drawn for the name, up to the first free one. -/
  | register (name : String) (candidates : List ClientId) (now : Timestamp)
  | setKeys (id : ClientId) (publicKey : PublicKey) (sessionKey : SessionKey) (now : Timestamp)

/-- The time is one that a clock can give, and the key one that was accepted. -/
def Call.IsProper : Call → Prop
  | register _ _ now => now.IsValid
  | setKeys _ publicKey _ now => publicKey.isAcceptable = true ∧ now.IsValid

/-- What a caller, or whoever starts the server, is told. -/
inductive Answer where
  | issued (name : String) (id : ClientId)
  | refused
  | recorded
  | unknown
  | failed (e : StorageError)
  | opened
  | unopened (e : StorageError)

/-- What is given out with an answer. -/
def Answer.issued? : Answer → Option (ClientId × String)
  | issued name id => some (id, name)
  | _ => none

namespace Call

/-- The record that a call puts into the directory, if it does not refuse. -/
def record? (d : ClientDirectory) : Call → Option ClientRecord
  | register name candidates now =>
    if name = "" || d.hasName name then none
    else (candidates.find? d.isFree).map fun id =>
      { id, name, publicKey := none, sessionKey := none, lastSeen := now }
  | setKeys id publicKey sessionKey now =>
    (d.find? id).map fun r => withKeys r publicKey sessionKey now

/-- A call on a disk, and what is answered. -/
def run (disk : Disk) : Call → Enrolled Answer
  | register name candidates now => fun s =>
    match ClientDirectory.register disk name candidates now s with
    | .ok (some id) s => .ok (.issued name id) s
    | .ok none s => .ok .refused s
    | .error e s => .error e s
  | setKeys id publicKey sessionKey now => fun s =>
    match ClientDirectory.setKeys disk id publicKey sessionKey now s with
    | .ok true s => .ok .recorded s
    | .ok false s => .ok .unknown s
    | .error e s => .error e s

/-- The answer to a call that puts a record into the directory, or none. -/
def answer (r? : Option ClientRecord) : Call → Answer
  | register .. =>
    match r? with
    | some r => .issued r.name r.id
    | none => .refused
  | setKeys .. => if r?.isSome then .recorded else .unknown

/-- The directory after a save that failed: a registration is undone, but new keys stay. -/
def undone (d : ClientDirectory) (r : ClientRecord) : Call → ClientDirectory
  | register .. => (d.insert r).erase r.id
  | setKeys .. => d.insert r

variable {s : ClientStore} {root : Path} {call : Call} {r : ClientRecord}

/-- A call that is refused changes nothing. -/
theorem run_none (h : call.record? s.directory = none) (disk : Disk) :
    call.run disk s = .ok (call.answer none) s := by
  cases call with
  | register name candidates now =>
    by_cases hname : (name = "" || s.directory.hasName name) = true
    · simp only [run, ClientDirectory.register, hname, ↓reduceIte, answer]
    · simp only [record?, hname, Bool.false_eq_true, ↓reduceIte, Option.map_eq_none_iff] at h
      simp only [run, ClientDirectory.register, hname, h, Bool.false_eq_true, ↓reduceIte, answer]
  | setKeys id publicKey sessionKey now =>
    rw [record?, Option.map_eq_none_iff] at h
    simp only [run, ClientDirectory.setKeys, h, answer, Option.isSome_none, Bool.false_eq_true,
      ↓reduceIte]

/-- Any other call saves the directory with its record. -/
theorem run_some (h : call.record? s.directory = some r) (hroot : s.directory.root = some root)
    (disk : Disk) :
    call.run disk s =
      match disk.write (s.directory.insert r) root s.files with
      | .ok _ files => .ok (call.answer (some r)) { directory := s.directory.insert r, files }
      | .error e files => .error e { directory := call.undone s.directory r, files } := by
  cases call with
  | register name candidates now =>
    by_cases hname : (name = "" || s.directory.hasName name) = true
    · simp only [record?, hname, ↓reduceIte, reduceCtorEq] at h
    · simp only [record?, hname, Bool.false_eq_true, ↓reduceIte, Option.map_eq_some_iff] at h
      obtain ⟨id, hid, rfl⟩ := h
      simp only [run, ClientDirectory.register, save, hname, hid, root_insert, hroot,
        Bool.false_eq_true, ↓reduceIte, answer, undone]
      cases disk.write _ root s.files <;> rfl
  | setKeys id publicKey sessionKey now =>
    rw [record?, Option.map_eq_some_iff] at h
    obtain ⟨old, hold, rfl⟩ := h
    simp only [run, ClientDirectory.setKeys, save, hold, root_insert, hroot, answer, undone,
      Option.isSome_some, ↓reduceIte]
    cases disk.write _ root s.files <;> rfl

end Call

/-! ## §2 Records that calls put in -/

/-- The record is that of a new client: its name is not empty, its number not zero, and nobody else
has the name or the number. -/
structure Fresh (d : ClientDirectory) (r : ClientRecord) : Prop where
  name : r.name ≠ ""
  number : r.id.storageId ≠ 0
  names : ∀ x ∈ d.records, x.name ≠ r.name
  numbers : ∀ x ∈ d.records, x.id.storageId ≠ r.id.storageId

namespace Fresh

variable {d : ClientDirectory} {r : ClientRecord}

theorem ids (h : Fresh d r) : ∀ x ∈ d.records, x.id ≠ r.id :=
  fun x hx heq => h.numbers x hx (congrArg ClientId.storageId heq)

/-- A client that has not registered has the number zero. -/
theorem isRegistered (h : Fresh d r) : r.id.isRegistered = true := by
  have hzero : ClientId.unregistered.storageId = 0 := by decide
  exact bne_iff_ne.mpr fun heq => h.number (heq ▸ hzero)

end Fresh

/-- Identity and name of a record. -/
def key (r : ClientRecord) : ClientId × String := (r.id, r.name)

namespace Call

variable {d : ClientDirectory} {r : ClientRecord}

theorem record_register {name : String} {candidates : List ClientId} {now : Timestamp}
    (h : (register name candidates now).record? d = some r) :
    r = { id := r.id, name, publicKey := none, sessionKey := none, lastSeen := now } ∧
      Fresh d r := by
  by_cases hname : (name = "" || d.hasName name) = true
  · simp only [record?, hname, ↓reduceIte, reduceCtorEq] at h
  · simp only [record?, hname, Bool.false_eq_true, ↓reduceIte, Option.map_eq_some_iff] at h
    obtain ⟨id, hid, rfl⟩ := h
    rw [Bool.not_eq_true, Bool.or_eq_false_iff, decide_eq_false_iff_not] at hname
    have hfree := List.find?_some hid
    rw [isFree, Bool.and_eq_true, bne_iff_ne, List.all_eq_true] at hfree
    exact ⟨rfl, hname.1, hfree.1, hasName_eq_false.mp hname.2,
      fun x hx => bne_iff_ne.mp (hfree.2 x hx)⟩

theorem record_setKeys {id : ClientId} {publicKey : PublicKey} {sessionKey : SessionKey}
    {now : Timestamp} (h : (setKeys id publicKey sessionKey now).record? d = some r) :
    ∃ old ∈ d.records, r = withKeys old publicKey sessionKey now := by
  rw [record?, Option.map_eq_some_iff] at h
  obtain ⟨old, hold, rfl⟩ := h
  exact ⟨old, (mem_of_find hold).1, rfl⟩

/-- A call puts in the record of a new client, or another one with the identity and the name of a
client who is there. -/
theorem fresh_or_same {call : Call} (h : call.record? d = some r) :
    Fresh d r ∨ ∃ old ∈ d.records, key old = key r := by
  cases call with
  | register name candidates now => exact .inl (record_register h).2
  | setKeys id publicKey sessionKey now =>
    obtain ⟨old, hold, rfl⟩ := record_setKeys h
    exact .inr ⟨old, hold, rfl⟩

/-- The record that a call puts in can be read back. -/
theorem isReadable {call : Call} (hcall : call.IsProper) (hd : Listable d.records)
    (h : call.record? d = some r) : r.IsReadable := by
  cases call with
  | register name candidates now =>
    obtain ⟨heq, hfresh⟩ := record_register h
    refine ⟨hfresh.isRegistered, ?_, ?_⟩
    · rw [heq]
      nofun
    · rw [heq]
      exact hcall
  | setKeys id publicKey sessionKey now =>
    obtain ⟨old, hold, rfl⟩ := record_setKeys h
    refine ⟨(hd.readable old hold).registered, ?_, hcall.2⟩
    rintro k ⟨⟩
    exact hcall.1

end Call

variable {d : ClientDirectory} {r old : ClientRecord}

/-- No two records of a directory agree with a third one in identity or name but not in both. -/
theorem Listable.name_ne (h : Listable d.records)
    (hr : Fresh d r ∨ ∃ old ∈ d.records, key old = key r) :
    ∀ x ∈ d.records, x.id ≠ r.id → x.name ≠ r.name := by
  intro x hx hid hname
  rcases hr with hfresh | ⟨old, hold, hkey⟩
  · exact hfresh.names x hx hname
  · injection hkey with hid' hname'
    have heq := List.inj_on_of_nodup_map h.names hx hold (hname.trans hname'.symm)
    exact hid (heq ▸ hid')

theorem Listable.insert (h : Listable d.records) (hreadable : r.IsReadable)
    (hr : Fresh d r ∨ ∃ old ∈ d.records, key old = key r) : Listable (d.insert r).records where
  names := names_insert h.names (h.name_ne hr)
  ids := ids_insert h.ids r
  readable x hx := by
    rcases mem_insert.mp hx with ⟨hmem, -⟩ | rfl
    · exact h.readable x hmem
    · exact hreadable

/-- The record of a new client comes behind the others. -/
theorem Fresh.keys_insert (h : Fresh d r) :
    (d.insert r).records.map key = d.records.map key ++ [key r] := by
  rw [insert_of_new h.ids, List.map_append, List.map_singleton]

/-- The record of a new client can be taken back. -/
theorem Fresh.erase_insert (h : Fresh d r) : (d.insert r).erase r.id = d := by
  have hfilter : d.records.filter (·.id != r.id) = d.records :=
    List.filter_eq_self.mpr fun x hx => bne_iff_ne.mpr (h.ids x hx)
  rw [insert_of_new h.ids, erase, List.filter_append, hfilter]
  simp

theorem nodup_keys {rs : List ClientRecord} (h : (rs.map (·.id)).Nodup) : (rs.map key).Nodup := by
  refine List.Nodup.of_map Prod.fst ?_
  rw [List.map_map]
  exact h

/-- A record in place of another one with its identity and its name. -/
theorem keys_insert_same (h : (d.records.map (·.id)).Nodup) (hold : old ∈ d.records)
    (hkey : key old = key r) : ((d.insert r).records.map key).Perm (d.records.map key) := by
  refine (List.perm_ext_iff_of_nodup (nodup_keys (ids_insert h r)) (nodup_keys h)).mpr fun k => ?_
  rw [List.mem_map, List.mem_map]
  constructor
  · rintro ⟨x, hx, rfl⟩
    rcases mem_insert.mp hx with ⟨hmem, -⟩ | rfl
    · exact ⟨x, hmem, rfl⟩
    · exact ⟨old, hold, hkey⟩
  · rintro ⟨x, hx, rfl⟩
    by_cases hid : x.id = r.id
    · -- It is the old record, since no other one has its identity.
      have heq := List.inj_on_of_nodup_map h hx hold (hid.trans (congrArg Prod.fst hkey).symm)
      exact ⟨r, mem_insert.mpr (.inr rfl), heq ▸ hkey.symm⟩
    · exact ⟨x, mem_insert.mpr (.inl ⟨hx, hid⟩), rfl⟩

end BackupVault.ClientDirectory
