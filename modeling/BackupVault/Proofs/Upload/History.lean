import BackupVault.Proofs.Upload.Calls

/-!
# Histories of the directory of clients

Sessions register clients and set their keys one after another, since each call has the directory
for itself.  Saves may fail, the process may stop at any step of a save and be started again, and
whatever else is kept below the root may change.

A course remembers what callers were told, and which records were in the last directory that was
saved or opened.  What every step preserves is that the document holds just these records, and that
they have the identities and names of the records in memory.

## Overview

- `Course`, `Reaches`: what happens to a directory, and every way that it can happen
- `Kept`: the invariant on the document; `Reaches.kept`
- `Enrolment`: identities and names are given out once and for all; `Reaches.clients_kept`
- `Reaches.reopened_whole`: a restart at any point
- `Reaches.failed_call`: what a failed call leaves behind
-/

set_option autoImplicit false

namespace BackupVault.ClientDirectory

/-! ## §1 Courses -/

/-- How a directory and its files came along so far. -/
structure Course where
  store : ClientStore
  /-- The records of the directory that was saved or opened last. -/
  saved : List ClientRecord
  answers : List Answer

namespace Course

/-- A call of a session on a disk. -/
def call (c : Course) (call : Call) (disk : Disk) : Course :=
  match call.run disk c.store with
  | .ok a store =>
    { store
      saved := if (call.record? c.store.directory).isSome then store.directory.records else c.saved
      answers := c.answers ++ [a] }
  | .error e store => { store, saved := c.saved, answers := c.answers ++ [.failed e] }

/-- The process comes to its end and is started again. -/
def restart (c : Course) : Course :=
  match c.store.directory.reopened c.store.files with
  | .ok d files =>
    { store := { directory := d, files }, saved := d.records, answers := c.answers ++ [.opened] }
  | .error e files =>
    { c with store := { c.store with files }, answers := c.answers ++ [.unopened e] }

/-- The identities that were given out, with the names of the clients. -/
def issued (c : Course) : List (ClientId × String) := c.answers.filterMap Answer.issued?

/-- The identities and names of the clients in memory. -/
def keys (c : Course) : List (ClientId × String) := c.store.directory.records.map key

variable {c : Course} {call : Call} {disk : Disk} {r : ClientRecord} {root : Path}

/-- A call that is refused. -/
theorem call_none (h : call.record? c.store.directory = none) :
    c.call call disk = { c with answers := c.answers ++ [call.answer none] } := by
  simp only [Course.call, Call.run_none h, h, Option.isSome_none, Bool.false_eq_true, ↓reduceIte]

/-- A call that is saved. -/
theorem call_ok (h : call.record? c.store.directory = some r)
    (hroot : c.store.directory.root = some root) {files : FileTree}
    (hwrite : disk.write (c.store.directory.insert r) root c.store.files = .ok () files) :
    c.call call disk =
      { store := { directory := c.store.directory.insert r, files }
        saved := (c.store.directory.insert r).records
        answers := c.answers ++ [call.answer (some r)] } := by
  simp only [Course.call, Call.run_some h hroot, hwrite, h, Option.isSome_some, ↓reduceIte]

/-- A call that fails. -/
theorem call_error (h : call.record? c.store.directory = some r)
    (hroot : c.store.directory.root = some root) {files : FileTree} {e : StorageError}
    (hwrite : disk.write (c.store.directory.insert r) root c.store.files = .error e files) :
    c.call call disk =
      { store := { directory := call.undone c.store.directory r, files }
        saved := c.saved
        answers := c.answers ++ [.failed e] } := by
  simp only [Course.call, Call.run_some h hroot, hwrite]

theorem restart_ok (hroot : c.store.directory.root = some root) {d : ClientDirectory}
    {files : FileTree} (h : openAt root c.store.files = .ok d files) :
    c.restart = { store := { directory := d, files }, saved := d.records,
                  answers := c.answers ++ [.opened] } := by
  simp only [restart, reopened, hroot, h]

end Course

/-- The courses of a directory that was opened on a root: calls of any sessions on disks that may
fail, restarts, and changes to anything else below the root, in any order.  A process that stops in
the middle of a save is a call on a failing disk, and a restart. -/
inductive Reaches (root : Path) (R : Location) (t₀ : FileTree) : Course → Prop where
  | start {d : ClientDirectory} {t : FileTree} (h : openAt root t₀ = .ok d t) :
      Reaches root R t₀
        { store := { directory := d, files := t }, saved := d.records, answers := [.opened] }
  | call {c : Course} (h : Reaches root R t₀ c) (call : Call) (hcall : call.IsProper)
      (disk : Disk) : Reaches root R t₀ (c.call call disk)
  | restart {c : Course} (h : Reaches root R t₀ c) : Reaches root R t₀ c.restart
  | elsewhere {c : Course} (h : Reaches root R t₀ c) (t : FileTree) (hseat : Seat root R t)
      (hdocument : t.lookup (documentAt R) = c.store.files.lookup (documentAt R)) :
      Reaches root R t₀ { c with store := { c.store with files := t } }

/-! ## §2 What every step preserves -/

/-- The directory can be written to a document again, and the document holds the records that were
saved last; these have the identities and names of the records in memory. -/
structure Kept (root : Path) (R : Location) (c : Course) : Prop where
  rooted : c.store.directory.root = some root
  seat : Seat root R c.store.files
  listable : Listable c.store.directory.records
  document : ∃ d, openAt root c.store.files = .ok d c.store.files ∧ d.records.Perm c.saved
  keys : c.keys.Perm (c.saved.map key)
  opened : ∀ e, Answer.unopened e ∉ c.answers

namespace Kept

variable {root : Path} {R : Location} {c : Course}

/-- A directory that was just opened. -/
theorem of_openAt {t : FileTree} {d : ClientDirectory} {answers : List Answer}
    (hseat : Seat root R t) (h : openAt root t = .ok d t) (hanswers : ∀ e, .unopened e ∉ answers) :
    Kept root R { store := { directory := d, files := t }, saved := d.records, answers } := by
  obtain ⟨-, hroot, hlistable⟩ := listable_of_openAt h
  exact ⟨hroot, hseat, hlistable, ⟨d, h, .refl _⟩, .refl _, hanswers⟩

/-- What else is kept below the root does not matter. -/
theorem elsewhere (h : Kept root R c) {t : FileTree} (hseat : Seat root R t)
    (hdocument : t.lookup (documentAt R) = c.store.files.lookup (documentAt R)) :
    Kept root R { c with store := { c.store with files := t } } := by
  obtain ⟨d, hopen, hperm⟩ := h.document
  exact ⟨h.rooted, hseat, h.listable, ⟨d, h.seat.openAt_congr hseat hdocument hopen, hperm⟩, h.keys,
    h.opened⟩

/-- After a restart the directory has the records that were saved last. -/
theorem restart (h : Kept root R c) :
    Kept root R c.restart ∧ c.restart.store.directory.records.Perm c.saved := by
  obtain ⟨d, hopen, hperm⟩ := h.document
  rw [Course.restart_ok h.rooted hopen]
  refine ⟨of_openAt h.seat hopen fun e he => ?_, hperm⟩
  rcases List.mem_append.mp he with hmem | hmem
  · exact h.opened e hmem
  · cases List.mem_singleton.mp hmem

/-- What a call comes to: it is refused, or its record is put in and the document is the new one, or
saving fails and the document is the old one. -/
theorem call_cases (h : Kept root R c) (call : Call) (disk : Disk) :
    call.record? c.store.directory = none ∧
      c.call call disk = { c with answers := c.answers ++ [call.answer none] } ∨
    ∃ r, call.record? c.store.directory = some r ∧
      ((∃ files, Seat root R files ∧
          files.lookup (documentAt R) =
            some (.file (Bytes.ofText (c.store.directory.insert r).document)) ∧
          c.call call disk =
            { store := { directory := c.store.directory.insert r, files }
              saved := (c.store.directory.insert r).records
              answers := c.answers ++ [call.answer (some r)] }) ∨
        ∃ e files, Seat root R files ∧
          files.lookup (documentAt R) = c.store.files.lookup (documentAt R) ∧
          c.call call disk =
            { store := { directory := call.undone c.store.directory r, files }
              saved := c.saved
              answers := c.answers ++ [.failed e] }) := by
  cases hr : call.record? c.store.directory with
  | none => exact .inl ⟨rfl, Course.call_none hr⟩
  | some r =>
    refine .inr ⟨r, rfl, ?_⟩
    rcases disk.write_cases (c.store.directory.insert r) h.seat with
      ⟨files, hwrite, hseat, hdocument⟩ | ⟨e, files, hwrite, hseat, hsame⟩
    · exact .inl ⟨files, hseat, hdocument, Course.call_ok hr h.rooted hwrite⟩
    · exact .inr ⟨e, files, hseat, hsame, Course.call_error hr h.rooted hwrite⟩

end Kept

/-- A call that fails leaves the identities and names as they were. -/
theorem Call.undone_spec {call : Call} {d : ClientDirectory} {r : ClientRecord}
    (hcall : call.IsProper) (hd : Listable d.records) (h : call.record? d = some r) :
    (call.undone d r).root = d.root ∧ Listable (call.undone d r).records ∧
      ((call.undone d r).records.map key).Perm (d.records.map key) := by
  cases call with
  | register name candidates now =>
    rw [undone, (record_register h).2.erase_insert]
    exact ⟨rfl, hd, .refl _⟩
  | setKeys id publicKey sessionKey now =>
    obtain ⟨old, hold, heq⟩ := record_setKeys h
    have hkey : key old = key r := heq ▸ rfl
    exact ⟨rfl, hd.insert (isReadable hcall hd h) (.inr ⟨old, hold, hkey⟩),
      keys_insert_same hd.ids hold hkey⟩

theorem Kept.call {root : Path} {R : Location} {c : Course} (h : Kept root R c) {call : Call}
    (hcall : call.IsProper) (disk : Disk) : Kept root R (c.call call disk) := by
  have hanswers {a : Answer} (ha : ∀ e, a ≠ .unopened e) : ∀ e, .unopened e ∉ c.answers ++ [a] := by
    intro e he
    rcases List.mem_append.mp he with hmem | hmem
    · exact h.opened e hmem
    · exact ha e (List.mem_singleton.mp hmem).symm
  rcases h.call_cases call disk with ⟨-, heq⟩ | ⟨r, hr, ⟨files, hseat, hdocument, heq⟩ |
      ⟨e, files, hseat, hsame, heq⟩⟩ <;> rw [heq]
  · refine ⟨h.rooted, h.seat, h.listable, h.document, h.keys, hanswers fun e => ?_⟩
    cases call <;> nofun
  -- The new document gives back the records that were saved.
  · have hreadable := Call.isReadable hcall h.listable hr
    have hlistable := h.listable.insert hreadable (Call.fresh_or_same hr)
    refine ⟨h.rooted, hseat, hlistable, ⟨_, hseat.openAt_file hdocument
      (ofText_document hlistable root), perm_sorted _⟩, .refl _, hanswers fun e => ?_⟩
    cases call <;> nofun
  -- The old document is still that of the records that were saved before.
  · obtain ⟨hroot, hlistable, hkeys⟩ := Call.undone_spec hcall h.listable hr
    obtain ⟨d, hopen, hperm⟩ := h.document
    exact ⟨hroot.trans h.rooted, hseat, hlistable,
      ⟨d, h.seat.openAt_congr hseat hsame hopen, hperm⟩, hkeys.trans h.keys, hanswers nofun⟩

/-- What every course keeps, by induction on the way there. -/
theorem Reaches.kept {root : Path} {R : Location} {t₀ : FileTree} {c : Course}
    (hseat : Seat root R t₀) (h : Reaches root R t₀ c) : Kept root R c := by
  induction h with
  | start hopen =>
    obtain ⟨rfl, -⟩ := listable_of_openAt hopen
    exact Kept.of_openAt hseat hopen fun e he => nomatch List.mem_singleton.mp he
  | call _ call hcall disk ih => exact ih.call hcall disk
  | restart _ ih => exact ih.restart.1
  | elsewhere _ t hseat hdocument ih => exact ih.elsewhere hseat hdocument

variable {root : Path} {R : Location} {t₀ : FileTree} {c : Course}

/-- Where nothing is in the way, a call that is not refused is saved. -/
theorem Course.call_on_desk (hdesk : Desk root R c.store.files)
    (hroot : c.store.directory.root = some root) {call : Call} {r : ClientRecord}
    (hr : call.record? c.store.directory = some r) :
    ∃ files, Desk root R files ∧
      c.call call .sound =
        { store := { directory := c.store.directory.insert r, files }
          saved := (c.store.directory.insert r).records
          answers := c.answers ++ [call.answer (some r)] } := by
  obtain ⟨files, hwrite, hdesk', -⟩ := hdesk.write (c.store.directory.insert r)
  exact ⟨files, hdesk', call_ok hr hroot hwrite⟩

/-! ### The course of a client

A client registers on a tree without files. -/

/-- A directory that was opened on a tree without files. -/
def Course.blank : Course where
  store := { directory := { root := some (Path.ofText "/") }, files := {} }
  saved := []
  answers := [.opened]

theorem blank_seat : Seat (Path.ofText "/") [] {} where
  leads := FileTree.leads_top _
  room := by decide
  document := nofun
  draft := nofun

theorem blank_desk : Desk (Path.ofText "/") [] {} :=
  ⟨FileTree.leads_top _, by decide, rfl, fun _ _ _ h => nomatch h⟩

theorem Course.blank_reaches : Reaches (Path.ofText "/") [] {} blank :=
  .start (blank_seat.openAt_none rfl)

def aliceId : ClientId := ClientId.padded (Bytes.ofList [1])

def Call.alice : Call := .register "alice" [aliceId] { seconds := 0, nanos := 0 }

theorem Call.alice_proper : alice.IsProper := ⟨by decide, .inl (by decide)⟩

/-- What is known about a client who has registered. -/
def aliceRecord : ClientRecord where
  id := aliceId
  name := "alice"
  publicKey := none
  sessionKey := none
  lastSeen := { seconds := 0, nanos := 0 }

theorem Call.alice_record : alice.record? Course.blank.store.directory = some aliceRecord := by
  decide

/-- She registers, and is told her identity. -/
def Course.alice : Course := blank.call Call.alice .sound

theorem Course.alice_reaches : Reaches (Path.ofText "/") [] {} alice :=
  blank_reaches.call Call.alice Call.alice_proper .sound

theorem Course.alice_eq : ∃ files, Desk (Path.ofText "/") [] files ∧
    alice =
      { store := { directory := blank.store.directory.insert aliceRecord, files }
        saved := [aliceRecord]
        answers := [.opened, .issued "alice" aliceId] } :=
  call_on_desk (c := blank) blank_desk rfl Call.alice_record

/-! ## §3 Identities and names -/

theorem Course.mem_issued {c : Course} {name : String} {id : ClientId} :
    (id, name) ∈ c.issued ↔ .issued name id ∈ c.answers := by
  rw [issued, List.mem_filterMap]
  constructor
  · rintro ⟨a, ha, heq⟩
    cases a with
    | issued name' id' =>
      cases heq
      exact ha
    | refused | recorded | unknown | failed _ | opened | unopened _ => cases heq
  · exact fun h => ⟨_, h, rfl⟩

/-- What is given out once and for all: each client has a name and a number, which nobody else has,
and those who were told their identity are there. -/
structure Enrolment (c : Course) : Prop where
  named : ∀ k ∈ c.keys, k.2 ≠ ""
  numbered : ∀ k ∈ c.keys, k.1.storageId ≠ 0
  numbers : (c.keys.map (·.1.storageId)).Nodup
  issued : ∀ k ∈ c.issued, k ∈ c.keys
  once : (c.issued.map (·.2)).Nodup

namespace Enrolment

variable {c c' : Course} {r : ClientRecord}

/-- The clients are the same, and nothing new was given out. -/
theorem same (h : Enrolment c) (hkeys : c'.keys.Perm c.keys) (hissued : c'.issued = c.issued) :
    Enrolment c' where
  named k hk := h.named k (hkeys.mem_iff.mp hk)
  numbered k hk := h.numbered k (hkeys.mem_iff.mp hk)
  numbers := (hkeys.map _).nodup_iff.mpr h.numbers
  issued k hk := hkeys.mem_iff.mpr (h.issued k (hissued ▸ hk))
  once := hissued ▸ h.once

/-- A new client is there, and was told so. -/
theorem new (h : Enrolment c) (hr : Fresh c.store.directory r)
    (hkeys : c'.keys = c.keys ++ [key r]) (hissued : c'.issued = c.issued ++ [key r]) :
    Enrolment c' where
  named k hk := by
    rw [hkeys, List.mem_append, List.mem_singleton] at hk
    rcases hk with hk | rfl
    · exact h.named k hk
    · exact hr.name
  numbered k hk := by
    rw [hkeys, List.mem_append, List.mem_singleton] at hk
    rcases hk with hk | rfl
    · exact h.numbered k hk
    · exact hr.number
  numbers := by
    rw [hkeys, List.map_append, List.nodup_append]
    refine ⟨h.numbers, List.nodup_singleton _, fun n hn m hm => ?_⟩
    rw [List.mem_singleton.mp hm]
    obtain ⟨k, hk, rfl⟩ := List.mem_map.mp hn
    obtain ⟨x, hx, rfl⟩ := List.mem_map.mp hk
    exact hr.numbers x hx
  issued k hk := by
    rw [hissued, List.mem_append] at hk
    rw [hkeys, List.mem_append]
    exact hk.imp_left (h.issued k)
  once := by
    -- A name that was given out is that of a client, which the new one does not have.
    rw [hissued, List.map_append, List.nodup_append]
    refine ⟨h.once, List.nodup_singleton _, fun n hn m hm => ?_⟩
    rw [List.mem_singleton.mp hm]
    obtain ⟨k, hk, rfl⟩ := List.mem_map.mp hn
    obtain ⟨x, hx, rfl⟩ := List.mem_map.mp (h.issued k hk)
    exact hr.names x hx

end Enrolment

theorem Course.issued_append (c : Course) (store : ClientStore) (saved : List ClientRecord)
    (a : Answer) : ({ store, saved, answers := c.answers ++ [a] } : Course).issued =
      c.issued ++ a.issued?.toList := by
  rw [issued, issued, List.filterMap_append]
  cases ha : a.issued? <;> simp [ha]

theorem Enrolment.call {root : Path} {R : Location} {c : Course} (h : Enrolment c)
    (hkept : Kept root R c) {call : Call} (hcall : call.IsProper) (disk : Disk) :
    Enrolment (c.call call disk) := by
  rcases hkept.call_cases call disk with ⟨-, heq⟩ | ⟨r, hr, ⟨files, -, -, heq⟩ |
      ⟨e, files, -, -, heq⟩⟩ <;> rw [heq]
  · have hnone : (call.answer none).issued? = none := by cases call <;> rfl
    refine h.same (.refl _) ?_
    rw [Course.issued_append, hnone, Option.toList_none, List.append_nil]
  · cases call with
    | register name candidates now =>
      have hfresh := (Call.record_register hr).2
      exact h.new hfresh hfresh.keys_insert (Course.issued_append ..)
    | setKeys id publicKey sessionKey now =>
      obtain ⟨old, hold, rfl⟩ := Call.record_setKeys hr
      refine h.same (keys_insert_same hkept.listable.ids hold rfl) ?_
      rw [Course.issued_append]
      exact List.append_nil _
  · refine h.same (Call.undone_spec hcall hkept.listable hr).2.2 ?_
    rw [Course.issued_append]
    exact List.append_nil _

theorem Enrolment.restart {root : Path} {R : Location} {c : Course} (h : Enrolment c)
    (hkept : Kept root R c) : Enrolment c.restart := by
  obtain ⟨d, hopen, -⟩ := hkept.document
  refine h.same ((hkept.restart.2.map key).trans hkept.keys.symm) ?_
  rw [Course.restart_ok hkept.rooted hopen, Course.issued_append]
  exact List.append_nil _

/-- From no document on, identities and names are given out once and for all, by induction on the
course. -/
theorem Reaches.enrolment (hseat : Seat root R t₀) (hnone : t₀.lookup (documentAt R) = none)
    (h : Reaches root R t₀ c) : Enrolment c := by
  induction h with
  | start hopen =>
    rw [hseat.openAt_none hnone] at hopen
    cases hopen
    exact ⟨nofun, nofun, List.nodup_nil, nofun, List.nodup_nil⟩
  | call h call hcall disk ih => exact ih.call (h.kept hseat) hcall disk
  | restart h ih => exact ih.restart (h.kept hseat)
  | elsewhere _ t hseat hdocument ih =>
    exact ⟨ih.named, ih.numbered, ih.numbers, ih.issued, ih.once⟩

/-- A name that was given out is refused from then on. -/
theorem Enrolment.register_issued (h : Enrolment c) {name : String} {id : ClientId}
    (hissued : .issued name id ∈ c.answers) (disk : Disk) (candidates : List ClientId)
    (now : Timestamp) : register disk name candidates now c.store = .ok none c.store := by
  obtain ⟨r, hr, heq⟩ := List.mem_map.mp (h.issued _ (Course.mem_issued.mpr hissued))
  cases heq
  have hname : c.store.directory.hasName r.name = true :=
    List.any_eq_true.mpr ⟨r, hr, beq_self_eq_true _⟩
  simp only [register, hname, Bool.or_true, ↓reduceIte]

/-- From no document on, over calls of any sessions, saves that fail and restarts: every record is
kept under its own identity, names are not empty and pairwise different, and so are the numbers of
identities, none of which is zero.  Every restart succeeds.  Whoever was told an identity has a
record with this identity and this name.  Each name is given out once at most, and is refused from
then on, before a restart and after it. -/
theorem Reaches.clients_kept (hseat : Seat root R t₀) (hnone : t₀.lookup (documentAt R) = none)
    (h : Reaches root R t₀ c) :
    (∀ r ∈ c.store.directory.records, c.store.directory.find? r.id = some r) ∧
    (∀ r ∈ c.store.directory.records, r.name ≠ "" ∧ r.id.storageId ≠ 0) ∧
    (c.store.directory.records.map (·.name)).Nodup ∧
    (c.store.directory.records.map (·.id.storageId)).Nodup ∧
    (∀ e, .unopened e ∉ c.answers) ∧
    (∀ name id, .issued name id ∈ c.answers →
      ∃ r ∈ c.store.directory.records, r.id = id ∧ r.name = name) ∧
    (c.issued.map (·.2)).Nodup ∧
    ∀ name id, .issued name id ∈ c.answers → ∀ disk candidates now,
      register disk name candidates now c.store = .ok none c.store ∧
        register disk name candidates now c.restart.store = .ok none c.restart.store := by
  have hkept := h.kept hseat
  have henrolment := h.enrolment hseat hnone
  have hrestart := h.restart.enrolment hseat hnone
  have hmem {r : ClientRecord} (hr : r ∈ c.store.directory.records) : key r ∈ c.keys :=
    List.mem_map_of_mem hr
  refine ⟨fun r hr => find_of_mem hkept.listable.ids hr,
    fun r hr => ⟨henrolment.named _ (hmem hr), henrolment.numbered _ (hmem hr)⟩,
    hkept.listable.names, ?_, hkept.opened, ?_, henrolment.once, ?_⟩
  · have hnumbers := henrolment.numbers
    rw [Course.keys, List.map_map] at hnumbers
    exact hnumbers
  · intro name id hissued
    obtain ⟨r, hr, heq⟩ := List.mem_map.mp (henrolment.issued _ (Course.mem_issued.mpr hissued))
    cases heq
    exact ⟨r, hr, rfl, rfl⟩
  · intro name id hissued disk candidates now
    -- What was answered stays answered.
    have hstill : .issued name id ∈ c.restart.answers := by
      obtain ⟨d, hopen, -⟩ := hkept.document
      rw [Course.restart_ok hkept.rooted hopen]
      exact List.mem_append_left _ hissued
    exact ⟨henrolment.register_issued hissued disk candidates now,
      hrestart.register_issued hstill disk candidates now⟩

theorem clients_kept_of_alice :
    Reaches (Path.ofText "/") [] {} Course.alice ∧
      .issued "alice" aliceId ∈ Course.alice.answers ∧
      (∃ r ∈ Course.alice.store.directory.records, r.id = aliceId ∧ r.name = "alice") ∧
      ∀ disk candidates now, register disk "alice" candidates now Course.alice.restart.store =
        .ok none Course.alice.restart.store := by
  have hissued : .issued "alice" aliceId ∈ Course.alice.answers := by
    obtain ⟨files, -, heq⟩ := Course.alice_eq
    rw [heq]
    exact List.mem_cons_of_mem _ List.mem_cons_self
  obtain ⟨-, -, -, -, -, hrecord, -, hname⟩ :=
    Reaches.clients_kept blank_seat rfl Course.alice_reaches
  exact ⟨Course.alice_reaches, hissued, hrecord _ _ hissued,
    fun disk candidates now => (hname _ _ hissued disk candidates now).2⟩

/-! ## §4 Restarts at any point -/

/-- The records of the last directory that was saved, after a call. -/
theorem Course.saved_call (c : Course) (call : Call) (disk : Disk) :
    (c.call call disk).saved =
      match call.record? c.store.directory, call.run disk c.store with
      | some _, .ok _ s => s.directory.records
      | _, _ => c.saved := by
  unfold Course.call
  cases call.record? c.store.directory <;> cases call.run disk c.store <;> rfl

/-- A call puts its record into the directory unless it fails. -/
theorem Call.directory_of_ok {call : Call} {s s' : ClientStore} {r : ClientRecord} {a : Answer}
    (hr : call.record? s.directory = some r) (hroot : s.directory.root = some root) {disk : Disk}
    (h : call.run disk s = .ok a s') : s'.directory = s.directory.insert r := by
  rw [run_some hr hroot] at h
  cases hwrite : disk.write (s.directory.insert r) root s.files with
  | ok _ files =>
    rw [hwrite] at h
    cases h
    rfl
  | error e files =>
    rw [hwrite] at h
    cases h

/-- Wherever a call comes to its end, before, in the middle of or after writing the draft, before or
after the move, opening the directory again gives all the records that the call was saving, if the
save got through, and otherwise all of those that were saved last. -/
theorem Reaches.reopened_whole (hseat : Seat root R t₀) (h : Reaches root R t₀ c) {call : Call}
    (hcall : call.IsProper) (disk : Disk) :
    ∃ d, openAt root (c.call call disk).store.files = .ok d (c.call call disk).store.files ∧
      d.root = some root ∧
      match call.record? c.store.directory, call.run disk c.store with
      | some r, .ok _ _ => d.records.Perm (c.store.directory.insert r).records
      | _, _ => d.records.Perm c.saved := by
  have hkept := h.kept hseat
  obtain ⟨d, hopen, hperm⟩ := (hkept.call hcall disk).document
  refine ⟨d, hopen, (listable_of_openAt hopen).2.1, ?_⟩
  rw [Course.saved_call] at hperm
  cases hr : call.record? c.store.directory with
  | none =>
    rw [hr] at hperm
    exact hperm
  | some r =>
    cases hrun : call.run disk c.store with
    | ok a s =>
      rw [hr, hrun] at hperm
      change d.records.Perm (c.store.directory.insert r).records
      rw [← Call.directory_of_ok hr hkept.rooted hrun]
      exact hperm
    | error e s =>
      rw [hr, hrun] at hperm
      exact hperm

def Call.aliceKeys : Call :=
  .setKeys aliceId { modulus := 15, exponent := 3 } { bytes := Bytes.ofList (List.replicate 16 0) }
    { seconds := 0, nanos := 0 }

theorem Call.aliceKeys_proper : aliceKeys.IsProper := ⟨by decide, by decide, .inl (by decide)⟩

/-- Her record with keys. -/
def aliceWithKeys : ClientRecord :=
  withKeys aliceRecord { modulus := 15, exponent := 3 }
    { bytes := Bytes.ofList (List.replicate 16 0) } { seconds := 0, nanos := 0 }

theorem Call.aliceKeys_record :
    aliceKeys.record? Course.alice.store.directory = some aliceWithKeys := by
  have hrecord : aliceKeys.record? (Course.blank.store.directory.insert aliceRecord) =
      some aliceWithKeys := by decide
  obtain ⟨files, -, heq⟩ := Course.alice_eq
  rw [heq]
  exact hrecord

theorem Course.alice_rooted : alice.store.directory.root = some (Path.ofText "/") := by
  obtain ⟨files, -, heq⟩ := alice_eq
  rw [heq]
  rfl

/-- A disk that takes twenty bytes of a draft. -/
def tornDisk : Disk := .failing (some 20) (.io (Path.ofText "/") .fileTooLarge)

/-- The process stops after the first bytes of the draft that was to have her keys, and is started
again: her record is there, without keys. -/
theorem reopened_whole_of_alice :
    ∃ d, openAt (Path.ofText "/") (Course.alice.call Call.aliceKeys tornDisk).store.files =
        .ok d (Course.alice.call Call.aliceKeys tornDisk).store.files ∧
      d.records.Perm [aliceRecord] := by
  obtain ⟨d, hopen, -, hperm⟩ :=
    Reaches.reopened_whole blank_seat Course.alice_reaches Call.aliceKeys_proper tornDisk
  refine ⟨d, hopen, ?_⟩
  obtain ⟨e, files, hwrite⟩ := Disk.write_failing (some 20) (.io (Path.ofText "/") .fileTooLarge)
    (Course.alice.store.directory.insert aliceWithKeys) (Path.ofText "/") Course.alice.store.files
  have hrun := Call.run_some Call.aliceKeys_record Course.alice_rooted tornDisk
  rw [tornDisk, hwrite] at hrun
  rw [Call.aliceKeys_record, tornDisk, hrun] at hperm
  obtain ⟨_, -, heq⟩ := Course.alice_eq
  rw [heq] at hperm
  exact hperm

/-! ## §5 Calls that fail -/

/-- After a call that failed the document is the old one, and opening it gives the records that were
saved last.  A registration that failed has left the directory as it was.  Keys that could not be
saved are in the directory nevertheless: the record of their client has been replaced by one with
the keys. -/
theorem Reaches.failed_call (hseat : Seat root R t₀) (h : Reaches root R t₀ c) {call : Call}
    {disk : Disk} {e : StorageError} {s : ClientStore} (hrun : call.run disk c.store = .error e s) :
    s.files.lookup (documentAt R) = c.store.files.lookup (documentAt R) ∧
      (∃ d, openAt root s.files = .ok d s.files ∧ d.records.Perm c.saved) ∧
      match call with
      | .register .. => s.directory = c.store.directory
      | .setKeys id publicKey sessionKey now =>
        ∃ r, c.store.directory.find? id = some r ∧
          s.directory = c.store.directory.insert (withKeys r publicKey sessionKey now) := by
  have hkept := h.kept hseat
  cases hr : call.record? c.store.directory with
  | none =>
    rw [Call.run_none hr] at hrun
    cases hrun
  | some r =>
    rw [Call.run_some hr hkept.rooted] at hrun
    rcases disk.write_cases (c.store.directory.insert r) hkept.seat with
      ⟨files, hwrite, -, -⟩ | ⟨e', files, hwrite, hseat', hsame⟩
    · rw [hwrite] at hrun
      cases hrun
    · rw [hwrite] at hrun
      cases hrun
      obtain ⟨d, hopen, hperm⟩ := hkept.document
      refine ⟨hsame, ⟨d, hkept.seat.openAt_congr hseat' hsame hopen, hperm⟩, ?_⟩
      cases call with
      | register name candidates now => exact (Call.record_register hr).2.erase_insert
      | setKeys id publicKey sessionKey now =>
        rw [Call.record?, Option.map_eq_some_iff] at hr
        obtain ⟨old, hold, rfl⟩ := hr
        exact ⟨old, hold, rfl⟩

/-- A directory has come into the place of the draft. -/
def Course.blocked : Course :=
  { alice with
    store := { alice.store with files := alice.store.files.insert (draftAt []) .directory } }

theorem Course.blocked_reaches : Reaches (Path.ofText "/") [] {} blocked := by
  obtain ⟨files, hdesk, heq⟩ := alice_eq
  refine alice_reaches.elsewhere _ ?_ ?_ <;> rw [heq]
  · exact hdesk.blocked.1
  · exact hdesk.blocked.2

/-- Her keys cannot be saved then. -/
theorem Course.blocked_run :
    Call.aliceKeys.run .sound blocked.store =
      .error (.io ((Path.ofText "/").join (Path.ofText draftName)) .isADirectory)
        { blocked.store with directory := blocked.store.directory.insert aliceWithKeys } := by
  have hdraft : blocked.store.files.lookup (draftAt []) = some .directory :=
    FileTree.lookup_insert_self _ (location_ne_nil _ _) _
  have hwrite := (blocked_reaches.kept blank_seat).seat.write_blocked hdraft
    (blocked.store.directory.insert aliceWithKeys)
  have hrun := Call.run_some (s := blocked.store) Call.aliceKeys_record alice_rooted .sound
  rw [Disk.write, hwrite] at hrun
  exact hrun

theorem failed_call_of_alice : ∃ r, Course.blocked.store.directory.find? aliceId = some r ∧
    Course.blocked.store.directory.insert aliceWithKeys =
      Course.blocked.store.directory.insert (withKeys r { modulus := 15, exponent := 3 }
        { bytes := Bytes.ofList (List.replicate 16 0) } { seconds := 0, nanos := 0 }) :=
  (Reaches.failed_call blank_seat Course.blocked_reaches Course.blocked_run).2.2

/-- The directory has gone away again; the caller was told of the failure. -/
def Course.warned : Course where
  store := { alice.store with directory := alice.store.directory.insert aliceWithKeys }
  saved := alice.saved
  answers := alice.answers ++
    [.failed (.io ((Path.ofText "/").join (Path.ofText draftName)) .isADirectory)]

theorem Course.warned_reaches : Reaches (Path.ofText "/") [] {} warned := by
  have hfailed : blocked.call Call.aliceKeys .sound =
      { warned with store := { warned.store with files := blocked.store.files } } := by
    simp only [Course.call, blocked_run]
    rfl
  have hreaches := blocked_reaches.call Call.aliceKeys Call.aliceKeys_proper .sound
  rw [hfailed] at hreaches
  refine hreaches.elsewhere alice.store.files (alice_reaches.kept blank_seat).seat ?_
  obtain ⟨files, hdesk, heq⟩ := alice_eq
  rw [blocked, heq]
  exact hdesk.blocked.2.symm

def bobId : ClientId := ClientId.padded (Bytes.ofList [2])

def Call.bob : Call := .register "bob" [bobId] { seconds := 0, nanos := 0 }

/-- A caller was told that her keys could not be saved, but the directory has them, and when another
client registers they are written to the document. -/
theorem keys_outlive_failure :
    Reaches (Path.ofText "/") [] {} (Course.warned.call Call.bob .sound) ∧
      (Course.warned.call Call.bob .sound).answers = [.opened, .issued "alice" aliceId,
        .failed (.io ((Path.ofText "/").join (Path.ofText draftName)) .isADirectory),
        .issued "bob" bobId] ∧
      aliceWithKeys ∈ (Course.warned.call Call.bob .sound).restart.store.directory.records := by
  have hreaches := Course.warned_reaches.call Call.bob ⟨by decide, .inl (by decide)⟩ .sound
  have hrestart := ((hreaches.kept blank_seat).restart).2
  have hrecord : Call.bob.record?
      ((Course.blank.store.directory.insert aliceRecord).insert aliceWithKeys) =
        some { aliceRecord with id := bobId, name := "bob" } := by decide
  obtain ⟨files, hdesk, heq⟩ := Course.alice_eq
  have hdesk' : Desk (Path.ofText "/") [] Course.warned.store.files := by
    rw [Course.warned, heq]
    exact hdesk
  have hrecord' : Call.bob.record? Course.warned.store.directory =
      some { aliceRecord with id := bobId, name := "bob" } := by
    rw [Course.warned, heq]
    exact hrecord
  obtain ⟨files', -, hcall⟩ := Course.call_on_desk hdesk' Course.alice_rooted hrecord'
  refine ⟨hreaches, ?_, hrestart.mem_iff.mpr ?_⟩
  · rw [hcall, Course.warned, heq]
    rfl
  · rw [hcall]
    refine mem_insert.mpr (.inl ⟨mem_insert.mpr (.inr rfl), ?_⟩)
    decide

end BackupVault.ClientDirectory
