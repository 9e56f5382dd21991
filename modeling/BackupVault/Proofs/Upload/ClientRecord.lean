import BackupVault.Proofs.Encoding.Base64
import BackupVault.Proofs.Encoding.Der
import BackupVault.Proofs.Text.Blank
import BackupVault.Proofs.Time.Timestamp
import BackupVault.Proofs.Toml.Document
import BackupVault.Upload.ClientRecord

/-!
# Records of clients are read back

An entry is read back from its lines, whatever its texts hold, and a record from its entry, as long
as the record is one that the server can have made: with an identity, an acceptable key, if any, and
a time that a clock can give.  What is read from a document is again such a record.

## Overview

- `ClientEntry.toRecord_ofRecord`, `ClientEntry.isReadable_of_toRecord`: records and entries
- `ClientEntry.all_document`, `ClientEntry.isValid_of_all`: entries and documents
-/

set_option autoImplicit false

namespace BackupVault

/-! ## §1 Identities -/

namespace ClientId

theorem not_isBlank_of_mem_text {id : ClientId} :
    ∀ c ∈ id.text.toList, Text.isBlank c = false := by
  have hdigit : ∀ n ∈ List.range 16, Text.isBlank (Bytes.hexDigit n) = false := by decide
  intro c hc
  rw [text, Bytes.toList_hex] at hc
  obtain ⟨x, -, hc⟩ := List.mem_flatMap.mp hc
  have hx := x.toNat_lt
  simp only [List.mem_cons, List.not_mem_nil, or_false] at hc
  rcases hc with rfl | rfl
  · exact hdigit _ (List.mem_range.mpr (by omega))
  · exact hdigit _ (List.mem_range.mpr (Nat.mod_lt _ (by decide)))

theorem ofText_text (id : ClientId) : ofText? id.text = some id := by
  have hlength : id.text.toList.length = 32 := by
    rw [text, Bytes.length_hex, id.size_eq]
  unfold ofText?
  simp only [Text.trimChars_of_no_blank not_isBlank_of_mem_text, hlength, ↓reduceIte]
  rw [ofDigits?, text, Bytes.ofHexDigits_hex, Option.bind_eq_bind, Option.bind_some,
    Bytes.ofList_toList, ofBytes?, dif_pos id.size_eq]

end ClientId

/-! ## §2 Records -/

/-- A record as the server makes them: it has an identity, an acceptable key, if any, and a time
that is written and read. -/
structure ClientRecord.IsReadable (r : ClientRecord) : Prop where
  registered : r.id.isRegistered = true
  publicKey : ∀ k, r.publicKey = some k → k.isAcceptable = true
  lastSeen : r.lastSeen.IsValid

namespace ClientEntry

theorem publicKeyOf_toDer (client : String) {k? : Option PublicKey}
    (h : ∀ k, k? = some k → k.isAcceptable = true) :
    publicKeyOf client (k?.map fun k => Base64.encode k.toDer) = .ok k? := by
  cases k? with
  | none => rfl
  | some k => simp only [Option.map_some, publicKeyOf, Base64.decode_encode,
      PublicKey.ofDer_toDer (h k rfl)]

theorem sessionKeyOf_bytes (client : String) (k? : Option SessionKey) :
    sessionKeyOf client (k?.map fun k => Base64.encode k.bytes) = .ok k? := by
  cases k? with
  | none => rfl
  | some k => simp only [Option.map_some, sessionKeyOf, Base64.decode_encode, SessionKey.ofBytes,
      k.size_eq, ↓reduceDIte]

/-- A record is read back from its entry. -/
theorem toRecord_ofRecord {r : ClientRecord} (h : r.IsReadable) :
    (ofRecord r).toRecord = .ok r := by
  simp only [toRecord, ofRecord, ClientId.ofText_text, Option.filter_some, h.registered, ↓reduceIte,
    publicKeyOf_toDer r.id.text h.publicKey, sessionKeyOf_bytes]
  rfl

theorem isAcceptable_of_publicKeyOf {client : String} {written? : Option String}
    {k? : Option PublicKey} (h : publicKeyOf client written? = .ok k?) :
    ∀ k, k? = some k → k.isAcceptable = true := by
  intro k hk
  subst hk
  unfold publicKeyOf at h
  split at h
  · cases h
  · split at h
    · cases h
    · split at h
      · rename_i der _ k' hder
        cases h
        unfold PublicKey.ofDer at hder
        split at hder
        · cases hder
        · split at hder
          · rename_i hacceptable
            cases hder
            exact hacceptable
          · cases hder
      · cases h

/-- What an entry says about the record that is read from it. -/
theorem fields_of_toRecord {e : ClientEntry} {r : ClientRecord} (h : e.toRecord = .ok r) :
    ClientId.ofText? e.id = some r.id ∧ r.id.isRegistered = true ∧ r.name = e.name ∧
      publicKeyOf e.id e.publicKey = .ok r.publicKey ∧
      sessionKeyOf e.id e.sessionKey = .ok r.sessionKey ∧ r.lastSeen = e.lastSeen := by
  unfold toRecord at h
  split at h
  · rename_i id hid
    obtain ⟨hid, hregistered⟩ := Option.filter_eq_some_iff.mp hid
    cases hpublic : publicKeyOf e.id e.publicKey with
    | error fault => rw [hpublic] at h; cases h
    | ok publicKey =>
      cases hsession : sessionKeyOf e.id e.sessionKey with
      | error fault => rw [hpublic, hsession] at h; cases h
      | ok sessionKey =>
        rw [hpublic, hsession] at h
        cases h
        exact ⟨hid, hregistered, rfl, rfl, rfl, rfl⟩
  · cases h

/-- A record that was read is one that the server can have made. -/
theorem isReadable_of_toRecord {e : ClientEntry} {r : ClientRecord} (h : e.toRecord = .ok r)
    (hseen : e.lastSeen.IsValid) : r.IsReadable := by
  obtain ⟨-, hregistered, -, hpublic, -, heq⟩ := fields_of_toRecord h
  exact ⟨hregistered, isAcceptable_of_publicKeyOf hpublic, heq ▸ hseen⟩

/-! ## §3 Documents -/

/-- The fields of an entry that are there. -/
def fields (e : ClientEntry) : List (String × String) :=
  [("id", e.id), ("name", e.name)] ++ (e.publicKey.map (Prod.mk "public_key")).toList ++
    (e.sessionKey.map (Prod.mk "session_key")).toList ++ [("last_seen", e.lastSeen.text)]

/-- The keys of an entry are some of these, in this order. -/
theorem keys_fields (e : ClientEntry) :
    (e.fields.map (·.1)).Sublist ["id", "name", "public_key", "session_key", "last_seen"] := by
  obtain ⟨id, name, publicKey, sessionKey, lastSeen⟩ := e
  cases publicKey <;> cases sessionKey <;> simp [fields]

theorem isTable_fields (e : ClientEntry) : Toml.IsTable e.fields := by
  have hbare : ∀ key ∈ ["id", "name", "public_key", "session_key", "last_seen"],
      Toml.IsBare key := by decide
  refine ⟨fun field hfield => ?_, e.keys_fields.nodup (by decide)⟩
  exact hbare _ (e.keys_fields.subset (List.mem_map_of_mem hfield))

theorem toList_line (key value : String) :
    (line key value).toList = Toml.fieldLine (key, value) := by
  simp [line, Toml.fieldLine]

theorem toList_optionalLine (key : String) (value? : Option String) :
    (optionalLine key value?).toList =
      (value?.map (Prod.mk key)).toList.flatMap Toml.fieldLine := by
  cases value? with
  | none => rfl
  | some value => simp [optionalLine, toList_line]

theorem toList_lines (e : ClientEntry) : e.lines.toList = Toml.tableLines "clients" e.fields := by
  have hheader :
      "[[clients]]\n".toList = '[' :: '[' :: ("clients".toList ++ [']', ']', '\n']) := rfl
  delta lines
  simp only [fields, Toml.tableLines, String.toList_append, toList_line, toList_optionalLine,
    hheader, List.flatMap_append, List.flatMap_cons, List.flatMap_nil, List.append_nil,
    List.append_assoc]

theorem ofValue_table {e : ClientEntry} (h : e.lastSeen.IsValid) :
    ofValue? (Toml.table e.fields) = some e := by
  obtain ⟨id, name, publicKey, sessionKey, lastSeen⟩ := e
  have hseen := Timestamp.ofText_text h
  cases publicKey <;> cases sessionKey <;>
    simp [ofValue?, requiredText?, optionalText?, field?, Toml.table, fields, Toml.Entries.find?,
      Toml.Value.string?, List.lookup_cons, hseen]

theorem mapM_tables {es : List ClientEntry} (h : ∀ e ∈ es, e.lastSeen.IsValid) :
    ((es.map fields).map Toml.table).mapM ofValue? = some es := by
  induction es with
  | nil => rfl
  | cons e es ih =>
    rw [List.forall_mem_cons] at h
    simp only [List.map_cons, List.mapM_cons, ofValue_table h.1, ih h.2, Option.bind_eq_bind,
      Option.bind_some, Option.pure_def]

theorem document_cons (e : ClientEntry) (es : List ClientEntry) :
    document (e :: es) =
      String.ofList
        (['\n'].intercalate (((e :: es).map fields).map (Toml.tableLines "clients"))) := by
  have hbreak : "\n".toList = ['\n'] := by decide
  rw [← String.toList_inj, document, List.isEmpty_cons, if_neg Bool.false_ne_true,
    String.toList_intercalate, hbreak, String.toList_ofList, List.map_map, List.map_map]
  exact congrArg (fun f => ['\n'].intercalate ((e :: es).map f)) (funext toList_lines)

/-- The entries of a document are read back. -/
theorem all_document {es : List ClientEntry} (h : ∀ e ∈ es, e.lastSeen.IsValid) :
    all? (document es) = some es := by
  cases es with
  | nil => decide +kernel
  | cons e es =>
    have hmore : ∀ fields ∈ es.map ClientEntry.fields, Toml.IsTable fields := by
      intro fields hfields
      obtain ⟨e, -, rfl⟩ := List.mem_map.mp hfields
      exact isTable_fields e
    have hbare : Toml.IsBare "clients" := by decide
    have hparse := Toml.parse_tables hbare (isTable_fields e) hmore
    rw [← List.map_cons, ← document_cons] at hparse
    have htables := mapM_tables h
    simp only [all?, hparse, Toml.Entries.find?, List.lookup_cons_self, Option.bind_eq_bind,
      Option.bind_some, Toml.Value.array?, htables]

/-- The times of a document that was read are valid. -/
theorem isValid_of_all {s : String} {es : List ClientEntry} (h : all? s = some es) :
    ∀ e ∈ es, e.lastSeen.IsValid := by
  have hvalue {v : Toml.Value} {e : ClientEntry} (h : ofValue? v = some e) :
      e.lastSeen.IsValid := by
    unfold ofValue? at h
    simp only [Option.bind_eq_bind, Option.bind_eq_some_iff] at h
    obtain ⟨_, -, _, -, _, -, _, -, _, -, _, hseen, h⟩ := h
    cases h
    exact Timestamp.isValid_of_ofText hseen
  have hvalues {vs : List Toml.Value} {es : List ClientEntry} (h : vs.mapM ofValue? = some es) :
      ∀ e ∈ es, e.lastSeen.IsValid := by
    induction vs generalizing es with
    | nil =>
      cases h
      exact fun e he => absurd he List.not_mem_nil
    | cons v vs ih =>
      simp only [List.mapM_cons, Option.bind_eq_bind, Option.bind_eq_some_iff, Option.pure_def] at h
      obtain ⟨e, he, es, hes, heq⟩ := h
      cases heq
      exact List.forall_mem_cons.mpr ⟨hvalue he, ih hes⟩
  unfold all? at h
  simp only [Option.bind_eq_bind, Option.bind_eq_some_iff] at h
  obtain ⟨entries, -, h⟩ := h
  split at h
  · cases h
    exact fun e he => absurd he List.not_mem_nil
  · obtain ⟨items, -, h⟩ := Option.bind_eq_some_iff.mp h
    exact hvalues h

end ClientEntry

end BackupVault
