import BackupVault.Proofs.Upload.ClientDirectory
import BackupVault.Proofs.Upload.ClientRecord
import BackupVault.Proofs.Wire.Reading
import Mathlib.Data.List.Nodup
import Mathlib.Data.List.Perm.Subperm

/-!
# Loading the directory of clients

A document is taken in entry by entry.  Names are compared with those that are there, so that the
loaded records have different names; an identity that is there already gets the later record, so
that the loaded records have different identities, but there may be fewer of them than entries.

A document that lists records with different names and different identities gives these records
back.

## Overview

- `ClientDirectory.Listable`: records that a document can list
- `ClientDirectory.ofText_document`: a document gives back what it lists
- `ClientDirectory.Keeps`, `ClientDirectory.openAt_inv`: what is kept of any document
- `ClientDirectory.Seat`, `Seat.openAt_congr`: where documents are kept
-/

set_option autoImplicit false

namespace BackupVault.ClientDirectory

/-! ## §1 Records -/

theorem mem_insert {d : ClientDirectory} {r x : ClientRecord} :
    x ∈ (d.insert r).records ↔ x ∈ d.records ∧ x.id ≠ r.id ∨ x = r := by
  rw [insert, erase, List.mem_append, List.mem_filter, List.mem_singleton, bne_iff_ne]

theorem root_insert (d : ClientDirectory) (r : ClientRecord) : (d.insert r).root = d.root := rfl

/-- Under its own identity the new record is found, and under the others what was there. -/
theorem find_insert_eq (d : ClientDirectory) (r : ClientRecord) (id : ClientId) :
    (d.insert r).find? id = if r.id = id then some r else d.find? id := by
  by_cases h : r.id = id
  · rw [if_pos h, ← h, find_insert]
  · have hfilter : (d.erase r.id).records.find? (·.id == id) = d.records.find? (·.id == id) := by
      refine FileTree.find_filter _ _ _ fun x hx => ?_
      rw [beq_iff_eq] at hx
      rw [bne_iff_ne, hx]
      exact Ne.symm h
    rw [if_neg h, find?, insert, List.find?_append, hfilter, List.find?_singleton,
      if_neg (by simpa using h), Option.or_none, find?]

/-- A record with a new identity is put behind the others. -/
theorem insert_of_new {d : ClientDirectory} {r : ClientRecord} (h : ∀ x ∈ d.records, x.id ≠ r.id) :
    d.insert r = { d with records := d.records ++ [r] } := by
  have hfilter : d.records.filter (·.id != r.id) = d.records :=
    List.filter_eq_self.mpr fun x hx => bne_iff_ne.mpr (h x hx)
  rw [insert, erase, hfilter]

theorem hasName_eq_false {d : ClientDirectory} {name : String} :
    d.hasName name = false ↔ ∀ x ∈ d.records, x.name ≠ name := by
  rw [hasName, List.any_eq_false]
  simp

/-- Identities stay different whatever is put in. -/
theorem ids_insert {d : ClientDirectory} (h : (d.records.map (·.id)).Nodup) (r : ClientRecord) :
    ((d.insert r).records.map (·.id)).Nodup := by
  rw [insert, List.map_append, List.nodup_append]
  refine ⟨(List.filter_sublist.map _).nodup h, List.nodup_singleton _, ?_⟩
  intro id hid id' hid'
  obtain ⟨x, hx, rfl⟩ := List.mem_map.mp hid
  rw [List.mem_singleton.mp hid']
  exact bne_iff_ne.mp (List.mem_filter.mp hx).2

/-- Names stay different as long as no other record has the new name. -/
theorem names_insert {d : ClientDirectory} (h : (d.records.map (·.name)).Nodup) {r : ClientRecord}
    (hnew : ∀ x ∈ d.records, x.id ≠ r.id → x.name ≠ r.name) :
    ((d.insert r).records.map (·.name)).Nodup := by
  rw [insert, List.map_append, List.nodup_append]
  refine ⟨(List.filter_sublist.map _).nodup h, List.nodup_singleton _, ?_⟩
  intro name hname name' hname'
  obtain ⟨x, hx, rfl⟩ := List.mem_map.mp hname
  rw [List.mem_singleton.mp hname']
  obtain ⟨hmem, hne⟩ := List.mem_filter.mp hx
  exact hnew x hmem (bne_iff_ne.mp hne)

/-! ## §2 Documents that list records -/

/-- The records can be listed in a document: each of them can be read back, and neither two names
nor two identities are the same. -/
structure Listable (rs : List ClientRecord) : Prop where
  names : (rs.map (·.name)).Nodup
  ids : (rs.map (·.id)).Nodup
  readable : ∀ r ∈ rs, r.IsReadable

theorem Listable.perm {rs rs' : List ClientRecord} (h : Listable rs) (hperm : rs.Perm rs') :
    Listable rs' where
  names := (hperm.map _).nodup_iff.mp h.names
  ids := (hperm.map _).nodup_iff.mp h.ids
  readable r hr := h.readable r (hperm.mem_iff.mpr hr)

/-- An entry is taken in if it can be read and its name is not there. -/
theorem load_cons {d d' : ClientDirectory} {e : ClientEntry} {rest : List ClientEntry} :
    load d (e :: rest) = .ok d' ↔
      ∃ r, e.toRecord = .ok r ∧ d.hasName r.name = false ∧ load (d.insert r) rest = .ok d' := by
  rw [load, bind_eq_ok]
  refine exists_congr fun r => and_congr_right fun _ => ?_
  cases d.hasName r.name with
  | false => exact ⟨fun h => ⟨rfl, h⟩, fun h => h.2⟩
  | true => exact ⟨nofun, fun h => nomatch h.1⟩

/-- The name of a record that is to come is not there, if names are different. -/
theorem hasName_of_nodup {d : ClientDirectory} {r : ClientRecord} {rs : List ClientRecord}
    (h : ((d.records ++ r :: rs).map (·.name)).Nodup) : d.hasName r.name = false := by
  rw [List.map_append, List.nodup_append] at h
  exact hasName_eq_false.mpr fun x hx =>
    h.2.2 _ (List.mem_map_of_mem hx) _ (List.mem_map_of_mem List.mem_cons_self)

/-- The records of a list are taken in one after another, by induction on the list. -/
theorem load_ofRecord {d : ClientDirectory} {rs : List ClientRecord}
    (h : Listable (d.records ++ rs)) :
    load d (rs.map ClientEntry.ofRecord) = .ok { d with records := d.records ++ rs } := by
  induction rs generalizing d with
  | nil => rw [List.map_nil, load, List.append_nil]
  | cons r rs ih =>
    have hnew : ∀ x ∈ d.records, x.id ≠ r.id := by
      have hids := h.ids
      rw [List.map_append, List.nodup_append] at hids
      exact fun x hx =>
        hids.2.2 _ (List.mem_map_of_mem hx) _ (List.mem_map_of_mem List.mem_cons_self)
    have hreadable := h.readable r (List.mem_append_right _ List.mem_cons_self)
    have hinsert : (d.insert r).records ++ rs = d.records ++ r :: rs := by
      rw [insert_of_new hnew, List.append_assoc, List.singleton_append]
    have hrest := ih (d := d.insert r) (hinsert ▸ h)
    rw [hinsert] at hrest
    exact load_cons.mpr
      ⟨r, ClientEntry.toRecord_ofRecord hreadable, hasName_of_nodup h.names, hrest⟩

/-- Entries that can be read are taken in if their names are different, by induction on the
entries. -/
theorem exists_load {d : ClientDirectory} {es : List ClientEntry} {rs : List ClientRecord}
    (hrs : es.mapM ClientEntry.toRecord = .ok rs)
    (hnames : ((d.records ++ rs).map (·.name)).Nodup) : ∃ d', load d es = .ok d' := by
  induction es generalizing d rs with
  | nil => exact ⟨d, rfl⟩
  | cons e es ih =>
    obtain ⟨r, more, hr, hmore, rfl⟩ := mapM_cons_eq_ok.mp hrs
    -- A record that gives way to the new one takes its name away with it.
    have hsublist : ((d.insert r).records ++ more).Sublist (d.records ++ r :: more) := by
      rw [insert, List.append_assoc, List.singleton_append]
      exact List.filter_sublist.append_right _
    obtain ⟨d', hload⟩ := ih hmore ((hsublist.map _).nodup hnames)
    exact ⟨d', load_cons.mpr ⟨r, hr, hasName_of_nodup hnames, hload⟩⟩

theorem perm_sorted (d : ClientDirectory) : d.sorted.Perm d.records :=
  List.mergeSort_perm _ _

theorem ofText_eq {s : String} {es : List ClientEntry} (h : ClientEntry.all? s = some es)
    (root : Path) : ofText root s = load { root := some root } es := by
  simp only [ofText, h]

/-- A document gives back the records that it lists, in its own order. -/
theorem ofText_document {d : ClientDirectory} (h : Listable d.records) (root : Path) :
    ofText root d.document = .ok { records := d.sorted, root := some root } := by
  have hsorted : Listable d.sorted := h.perm d.perm_sorted.symm
  have hvalid : ∀ e ∈ d.sorted.map ClientEntry.ofRecord, e.lastSeen.IsValid := by
    intro e he
    obtain ⟨r, hr, rfl⟩ := List.mem_map.mp he
    exact (hsorted.readable r hr).lastSeen
  exact (ofText_eq (ClientEntry.all_document hvalid) root).trans (load_ofRecord hsorted)

/-! ## §3 What loading makes of a document -/

theorem mem_of_find {d : ClientDirectory} {id : ClientId} {r : ClientRecord}
    (h : d.find? id = some r) : r ∈ d.records ∧ r.id = id :=
  ⟨List.mem_of_find?_eq_some h, by simpa using List.find?_some h⟩

theorem isSome_find {rs : List ClientRecord} {id : ClientId} :
    (rs.find? (·.id == id)).isSome = true ↔ id ∈ rs.map (·.id) := by
  simp [List.find?_isSome, List.mem_map]

/-- With different identities each record is found under its own. -/
theorem find_of_mem {d : ClientDirectory} (h : (d.records.map (·.id)).Nodup) {r : ClientRecord}
    (hr : r ∈ d.records) : d.find? r.id = some r := by
  obtain ⟨x, hx⟩ := Option.isSome_iff_exists.mp (isSome_find.mpr (List.mem_map_of_mem hr))
  obtain ⟨hmem, hid⟩ := mem_of_find hx
  rw [find?, hx, List.inj_on_of_nodup_map h hmem hr hid]

/-- The directory has, under each identity, the last record of a list that has it. -/
structure Keeps (d : ClientDirectory) (rs : List ClientRecord) : Prop where
  names : (d.records.map (·.name)).Nodup
  ids : (d.records.map (·.id)).Nodup
  last : ∀ id, d.find? id = rs.reverse.find? (·.id == id)

/-- A record with a new name is taken in. -/
theorem Keeps.insert {rs : List ClientRecord} {d : ClientDirectory} (h : Keeps d rs)
    {r : ClientRecord} (hname : d.hasName r.name = false) : Keeps (d.insert r) (rs ++ [r]) where
  names := names_insert h.names fun x hx _ => hasName_eq_false.mp hname x hx
  ids := ids_insert h.ids r
  last id := by
    rw [find_insert_eq, List.reverse_append, List.reverse_singleton, List.singleton_append,
      List.find?_cons, h.last]
    by_cases heq : r.id = id
    · rw [if_pos heq, beq_iff_eq.mpr heq]
    · rw [if_neg heq, beq_eq_false_iff_ne.mpr heq]

/-- Whatever entries are taken in, each of them can be read, and the last one of each identity is
kept, by induction on the entries. -/
theorem Keeps.load {d d' : ClientDirectory} {rs : List ClientRecord} (h : Keeps d rs)
    {es : List ClientEntry} (hload : ClientDirectory.load d es = .ok d') :
    d'.root = d.root ∧
      ∃ more, es.mapM ClientEntry.toRecord = .ok more ∧ Keeps d' (rs ++ more) := by
  induction es generalizing d rs with
  | nil =>
    cases hload
    exact ⟨rfl, [], mapM_nil_eq_ok.mpr rfl, by rwa [List.append_nil]⟩
  | cons e es ih =>
    obtain ⟨r, hr, hname, hrest⟩ := load_cons.mp hload
    obtain ⟨hroot, more, hmore, hkeeps⟩ := ih (h.insert hname) hrest
    rw [List.append_assoc, List.singleton_append] at hkeeps
    exact ⟨hroot, r :: more, mapM_cons_eq_ok.mpr ⟨r, more, hr, hmore, rfl⟩, hkeeps⟩

/-- There are as many records as in the list exactly if no two of the list have one identity. -/
theorem Keeps.size_eq_iff {d : ClientDirectory} {rs : List ClientRecord} (h : Keeps d rs) :
    d.size = rs.length ↔ (rs.map (·.id)).Nodup := by
  have hsame : ∀ id, id ∈ d.records.map (·.id) ↔ id ∈ rs.map (·.id) := by
    intro id
    have hlast := h.last id
    rw [find?] at hlast
    rw [← isSome_find, hlast, isSome_find, List.map_reverse, List.mem_reverse]
  have hsubperm : (d.records.map (·.id)).Subperm (rs.map (·.id)) :=
    List.Nodup.subperm h.ids fun id hid => (hsame id).mp hid
  constructor
  · intro hsize
    have hlength : (rs.map (·.id)).length ≤ (d.records.map (·.id)).length := by
      rw [List.length_map, List.length_map]
      exact Nat.le_of_eq hsize.symm
    exact (List.Subperm.perm_of_length_le hsubperm hlength).nodup_iff.mp h.ids
  · intro hnodup
    have hperm := (List.perm_ext_iff_of_nodup h.ids hnodup).mpr hsame
    have hlength := hperm.length_eq
    rwa [List.length_map, List.length_map] at hlength

/-- The records that are kept are in the list. -/
theorem Keeps.mem {d : ClientDirectory} {rs : List ClientRecord} (h : Keeps d rs)
    {r : ClientRecord} (hr : r ∈ d.records) : r ∈ rs := by
  have hlast := h.last r.id
  rw [find_of_mem h.ids hr] at hlast
  exact List.mem_reverse.mp (List.mem_of_find?_eq_some hlast.symm)

/-- Each entry gives one record, which can be read back. -/
theorem toRecord_mapM {es : List ClientEntry} {rs : List ClientRecord}
    (h : es.mapM ClientEntry.toRecord = .ok rs) (hvalid : ∀ e ∈ es, e.lastSeen.IsValid) :
    rs.length = es.length ∧ ∀ r ∈ rs, r.IsReadable := by
  induction es generalizing rs with
  | nil =>
    rw [mapM_nil_eq_ok.mp h]
    exact ⟨rfl, fun r hr => absurd hr List.not_mem_nil⟩
  | cons e es ih =>
    rw [List.forall_mem_cons] at hvalid
    obtain ⟨r, more, hr, hmore, rfl⟩ := mapM_cons_eq_ok.mp h
    obtain ⟨hlength, hreadable⟩ := ih hmore hvalid.2
    exact ⟨congrArg Nat.succ hlength,
      List.forall_mem_cons.mpr ⟨ClientEntry.isReadable_of_toRecord hr hvalid.1, hreadable⟩⟩

/-! ## §4 Opening -/

/-- What is read from a text: the entries of the document, and a directory that keeps the last
record of each identity. -/
theorem ofText_inv {root : Path} {s : String} {d : ClientDirectory} (h : ofText root s = .ok d) :
    d.root = some root ∧ (∀ r ∈ d.records, r.IsReadable) ∧
      ∃ es rs, ClientEntry.all? s = some es ∧ es.mapM ClientEntry.toRecord = .ok rs ∧ d.Keeps rs ∧
        (d.size = es.length ↔ (rs.map (·.id)).Nodup) := by
  unfold ofText at h
  split at h
  · rename_i es hes
    have hempty : Keeps { root := some root } [] :=
      ⟨List.nodup_nil, List.nodup_nil, fun _ => rfl⟩
    obtain ⟨hroot, rs, hrs, hkeeps⟩ := hempty.load h
    rw [List.nil_append] at hkeeps
    obtain ⟨hlength, hreadable⟩ := toRecord_mapM hrs (ClientEntry.isValid_of_all hes)
    exact ⟨hroot, fun r hr => hreadable r (hkeeps.mem hr), es, rs, hes, hrs, hkeeps,
      hlength ▸ hkeeps.size_eq_iff⟩
  · cases h

/-- A text is refused only if it is no document, or one of its entries cannot be read, or a name
comes twice. -/
theorem ofText_error {root : Path} {s : String} {fault : DirectoryFault}
    (h : ofText root s = .error fault) {es : List ClientEntry} {rs : List ClientRecord}
    (hes : ClientEntry.all? s = some es) (hrs : es.mapM ClientEntry.toRecord = .ok rs) :
    ¬ (rs.map (·.name)).Nodup := by
  intro hnames
  obtain ⟨d, hload⟩ := exists_load (d := { root := some root }) hrs hnames
  rw [ofText_eq hes, hload] at h
  cases h

/-- The path of the document on a root. -/
def documentPath (root : Path) : Path := root.join (Path.ofText documentName)

/-- The entries that opening takes in: those of the document, none if there is no document. -/
def Lists (root : Path) (t : FileTree) (es : List ClientEntry) : Prop :=
  match FileTree.loadText (documentPath root) t with
  | .ok s _ => ClientEntry.all? s = some es
  | .error .notFound _ => es = []
  | .error _ _ => False

theorem preserves_loadText (P : FileTree → Prop) (p : Path) : Preserves P (FileTree.loadText p) := by
  refine (FileTree.preserves_load P p).bind fun content => ?_
  split
  · exact Preserves.pure _
  · exact Preserves.throw _

section Opening

variable {root : Path} {t : FileTree}

theorem openAt_eq (root : Path) (t : FileTree) : openAt root t =
    match FileTree.loadText (documentPath root) t with
    | .ok s t =>
      match ofText root s with
      | .ok d => .ok d t
      | .error fault => .error (.invalidClientDirectory (documentPath root) fault) t
    | .error .notFound t => .ok { root := some root } t
    | .error e t => .error (.io (documentPath root) e) t := rfl

theorem openAt_ok {s : String} {d : ClientDirectory}
    (h : FileTree.loadText (documentPath root) t = .ok s t) (htext : ofText root s = .ok d) :
    openAt root t = .ok d t := by
  simp only [openAt_eq, h, htext]

theorem openAt_invalid {s : String} {fault : DirectoryFault}
    (h : FileTree.loadText (documentPath root) t = .ok s t) (htext : ofText root s = .error fault) :
    openAt root t = .error (.invalidClientDirectory (documentPath root) fault) t := by
  simp only [openAt_eq, h, htext]

theorem openAt_missing (h : FileTree.loadText (documentPath root) t = .error .notFound t) :
    openAt root t = .ok { root := some root } t := by
  simp only [openAt_eq, h]

theorem openAt_error {e : IoFailure} (h : FileTree.loadText (documentPath root) t = .error e t)
    (he : e ≠ .notFound) : openAt root t = .error (.io (documentPath root) e) t := by
  simp only [openAt_eq, h]

end Opening

/-- What opening comes to: the document is read, or it is not valid, or there is none, or its text
cannot be had at all. -/
theorem openAt_cases (root : Path) (t : FileTree) :
    (∃ s d, FileTree.loadText (documentPath root) t = .ok s t ∧ ofText root s = .ok d ∧
      openAt root t = .ok d t) ∨
    (∃ s fault, FileTree.loadText (documentPath root) t = .ok s t ∧ ofText root s = .error fault ∧
      openAt root t = .error (.invalidClientDirectory (documentPath root) fault) t) ∨
    (FileTree.loadText (documentPath root) t = .error .notFound t ∧
      openAt root t = .ok { root := some root } t) ∨
    ∃ e, e ≠ .notFound ∧ FileTree.loadText (documentPath root) t = .error e t ∧
      openAt root t = .error (.io (documentPath root) e) t := by
  have hstate := preserves_loadText (· = t) (documentPath root) t rfl
  cases hload : FileTree.loadText (documentPath root) t with
  | ok s t' =>
    rw [hload] at hstate
    obtain rfl : t' = t := hstate
    cases htext : ofText root s with
    | ok d => exact .inl ⟨s, d, rfl, htext, openAt_ok hload htext⟩
    | error fault => exact .inr (.inl ⟨s, fault, rfl, htext, openAt_invalid hload htext⟩)
  | error e t' =>
    rw [hload] at hstate
    obtain rfl : t' = t := hstate
    by_cases hmissing : e = .notFound
    · subst hmissing
      exact .inr (.inr (.inl ⟨rfl, openAt_missing hload⟩))
    · exact .inr (.inr (.inr ⟨e, hmissing, rfl, openAt_error hload hmissing⟩))

/-- What was opened can be written to a document and read back. -/
theorem listable_of_openAt {root : Path} {t t' : FileTree} {d : ClientDirectory}
    (h : openAt root t = .ok d t') : t' = t ∧ d.root = some root ∧ Listable d.records := by
  rcases openAt_cases root t with ⟨s, d', -, htext, heq⟩ | ⟨_, _, -, -, heq⟩ | ⟨-, heq⟩ |
      ⟨_, -, -, heq⟩ <;> rw [heq] at h
  · cases h
    obtain ⟨hroot, hreadable, es, rs, -, -, hkeeps, -⟩ := ofText_inv htext
    exact ⟨rfl, hroot, hkeeps.names, hkeeps.ids, hreadable⟩
  · cases h
  · cases h
    exact ⟨rfl, rfl, List.nodup_nil, List.nodup_nil, fun r hr => absurd hr List.not_mem_nil⟩
  · cases h

/-- Every entry of a document that is opened can be read, and the loaded records have different
names and different identities, of which none is that of a client that has not registered.  Of
entries with the same identity the last one is kept, so that there is a record for each entry
exactly if their identities are different.  Any other text is refused as invalid: it lists no
entries, or one of them cannot be read, or a name comes twice. -/
theorem openAt_inv (root : Path) (t : FileTree) :
    match openAt root t with
    | .ok d t' =>
      t' = t ∧ d.root = some root ∧ (∀ r ∈ d.records, r.IsReadable) ∧
        ∃ es rs, Lists root t es ∧ es.mapM ClientEntry.toRecord = .ok rs ∧ d.Keeps rs ∧
          (d.size = es.length ↔ (rs.map (·.id)).Nodup)
    | .error e t' =>
      t' = t ∧ ∀ s, FileTree.loadText (documentPath root) t = .ok s t →
        (∃ fault, e = .invalidClientDirectory (documentPath root) fault) ∧
          ∀ es rs, ClientEntry.all? s = some es → es.mapM ClientEntry.toRecord = .ok rs →
            ¬ (rs.map (·.name)).Nodup := by
  rcases openAt_cases root t with ⟨s, d, hload, htext, heq⟩ | ⟨s, fault, hload, htext, heq⟩ |
      ⟨hload, heq⟩ | ⟨e, -, hload, heq⟩ <;> rw [heq]
  · obtain ⟨hroot, hreadable, es, rs, hes, hrest⟩ := ofText_inv htext
    refine ⟨rfl, hroot, hreadable, es, rs, ?_, hrest⟩
    simp only [Lists, hload, hes]
  · refine ⟨rfl, fun s' hload' => ⟨⟨fault, rfl⟩, fun es rs hes hrs => ?_⟩⟩
    rw [hload] at hload'
    cases hload'
    exact ofText_error htext hes hrs
  · refine ⟨rfl, rfl, fun r hr => absurd hr List.not_mem_nil, [], [], ?_, mapM_nil_eq_ok.mpr rfl,
      ⟨List.nodup_nil, List.nodup_nil, fun _ => rfl⟩, by simp [size]⟩
    simp only [Lists, hload]
  · rw [hload]
    exact ⟨rfl, nofun⟩

/-! ## §5 Where documents are kept -/

/-- The root leads to a directory in which a document can be kept: there is room for its path,
nothing but a file stands in its place, and its draft is not behind a link.  The draft may be
anything else, and files may be limited in size, so that writing can fail. -/
structure Seat (root : Path) (R : Location) (t : FileTree) : Prop where
  leads : t.Leads root R
  room : root.bytes.size + 13 ≤ FileTree.maxPath
  document : ∀ e, t.lookup (documentAt R) = some e → ∃ content, e = .file content
  draft : ∀ target, t.lookup (draftAt R) ≠ some (.link target)

namespace Seat

variable {root : Path} {R : Location} {t t' : FileTree}

theorem resolve_document (h : Seat root R t) (follow : Bool) :
    t.resolve follow (documentPath root) = .ok ⟨documentAt R, t.lookup (documentAt R)⟩ := by
  refine resolve_name h.leads h.room (.inr rfl) ?_ follow
  intro target hl
  obtain ⟨content, hfile⟩ := h.document _ hl
  cases hfile

theorem resolve_draft (h : Seat root R t) (follow : Bool) :
    t.resolve follow (root.join (Path.ofText draftName)) =
      .ok ⟨draftAt R, t.lookup (draftAt R)⟩ :=
  resolve_name h.leads h.room (.inl rfl) h.draft follow

/-- The text of the document, or why there is none. -/
theorem loadText_file (h : Seat root R t) {content : Bytes}
    (hfile : t.lookup (documentAt R) = some (.file content)) :
    FileTree.loadText (documentPath root) t =
      match String.fromUTF8? content with
      | some s => .ok s t
      | none => .error .notText t := by
  have hload := FileTree.load_file (hfile ▸ h.resolve_document true)
  unfold FileTree.loadText
  rw [bind_run_ok hload]
  cases String.fromUTF8? content <;> rfl

theorem loadText_none (h : Seat root R t) (hnone : t.lookup (documentAt R) = none) :
    FileTree.loadText (documentPath root) t = .error .notFound t :=
  bind_run_error (FileTree.load_none (hnone ▸ h.resolve_document true))

/-- A document that is in its place is opened. -/
theorem openAt_file (h : Seat root R t) {s : String}
    (hfile : t.lookup (documentAt R) = some (.file (Bytes.ofText s))) {d : ClientDirectory}
    (htext : ofText root s = .ok d) : openAt root t = .ok d t := by
  refine openAt_ok ?_ htext
  rw [h.loadText_file hfile, Reader.fromUTF8_ofText]

theorem openAt_none (h : Seat root R t) (hnone : t.lookup (documentAt R) = none) :
    openAt root t = .ok { root := some root } t :=
  openAt_missing (h.loadText_none hnone)

/-- Opening depends on nothing but the document. -/
theorem openAt_congr (h : Seat root R t) (h' : Seat root R t')
    (hsame : t'.lookup (documentAt R) = t.lookup (documentAt R)) {d : ClientDirectory}
    (hopen : openAt root t = .ok d t) : openAt root t' = .ok d t' := by
  cases hl : t.lookup (documentAt R) with
  | none =>
    rw [h.openAt_none hl] at hopen
    cases hopen
    exact h'.openAt_none (hsame.trans hl)
  | some e =>
    obtain ⟨content, rfl⟩ := h.document e hl
    have hload := h.loadText_file hl
    have hload' := h'.loadText_file (hsame.trans hl)
    cases hs : String.fromUTF8? content with
    | none =>
      rw [hs] at hload
      rw [openAt_error hload (by decide)] at hopen
      cases hopen
    | some s =>
      rw [hs] at hload hload'
      cases htext : ofText root s with
      | ok d' =>
        rw [openAt_ok hload htext] at hopen
        cases hopen
        exact openAt_ok hload' htext
      | error fault =>
        rw [openAt_invalid hload htext] at hopen
        cases hopen

end Seat

/-- Records with one identity and different names. -/
def twin (name : String) : ClientRecord where
  id := ClientId.padded (Bytes.ofList [1])
  name := name
  publicKey := none
  sessionKey := none
  lastSeen := { seconds := 0, nanos := 0 }

theorem twin_isReadable (name : String) : (twin name).IsReadable where
  registered := by
    have hregistered : (ClientId.padded (Bytes.ofList [1])).isRegistered = true := by decide
    exact hregistered
  publicKey := nofun
  lastSeen := (⟨by decide, .inl (by decide)⟩ : Timestamp.IsValid { seconds := 0, nanos := 0 })

def twins : List ClientEntry := [ClientEntry.ofRecord (twin "x"), ClientEntry.ofRecord (twin "y")]

/-- A tree whose document has two entries with one identity. -/
def twinTree : FileTree where
  entries := [(documentAt [], .file (Bytes.ofText (ClientEntry.document twins)))]

theorem twinTree_lookup : twinTree.lookup (documentAt []) =
    some (.file (Bytes.ofText (ClientEntry.document twins))) := by
  simp [twinTree, FileTree.lookup, documentAt]

theorem twinTree_seat : Seat (Path.ofText "/") [] twinTree where
  leads := FileTree.leads_top _
  room := by decide
  document e he := ⟨_, Option.some.inj (he.symm.trans twinTree_lookup)⟩
  draft target hl := by
    have hne := draftAt_ne_documentAt []
    simp [twinTree, FileTree.lookup, draftAt, documentAt] at hl hne

/-- The document has two entries, and it is opened, but only one of them is kept. -/
theorem openAt_twins : ∃ d, openAt (Path.ofText "/") twinTree = .ok d twinTree ∧
    Lists (Path.ofText "/") twinTree twins ∧ twins.length = 2 ∧ d.size = 1 := by
  have hall : ClientEntry.all? (ClientEntry.document twins) = some twins := by
    refine ClientEntry.all_document fun e he => ?_
    rw [twins, List.mem_cons, List.mem_singleton] at he
    rcases he with rfl | rfl
    · exact (twin_isReadable "x").lastSeen
    · exact (twin_isReadable "y").lastSeen
  -- The second record takes the place of the first one, although its name is another one.
  have hload : ∀ d : ClientDirectory, d.records = [] →
      load d twins = .ok ((d.insert (twin "x")).insert (twin "y")) := by
    intro d hd
    refine load_cons.mpr ⟨_, ClientEntry.toRecord_ofRecord (twin_isReadable "x"), ?_,
      load_cons.mpr ⟨_, ClientEntry.toRecord_ofRecord (twin_isReadable "y"), ?_, rfl⟩⟩
    · exact hasName_eq_false.mpr fun x hx => absurd (hd ▸ hx) List.not_mem_nil
    · refine hasName_eq_false.mpr fun x hx => ?_
      rcases mem_insert.mp hx with ⟨hmem, -⟩ | rfl
      · exact absurd (hd ▸ hmem) List.not_mem_nil
      · decide
  have htext := (ofText_eq hall (Path.ofText "/")).trans (hload _ rfl)
  refine ⟨_, twinTree_seat.openAt_file twinTree_lookup htext, ?_, rfl, ?_⟩
  · simp only [Lists, twinTree_seat.loadText_file twinTree_lookup, Reader.fromUTF8_ofText, hall]
  · simp [size, insert, erase, twin]

end BackupVault.ClientDirectory
