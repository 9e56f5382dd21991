import BackupVault.Proofs.Backup.Transparent
import BackupVault.Proofs.Storage.Catalogue
import BackupVault.Proofs.Text.Lines

/-!
# Lists of files at clients

A list of files goes over the wire as lines of text, one for each name.  A name may have a line
feed in it, or a carriage return at its end: such a name is split, or loses its end, on the way.
All other names arrive as they are.

## Overview

- `Backup.listing_eq`: what goes over the wire
- `Backup.list_arrives`: what arrives, and when it is what was listed
- `Backup.holding`: vaults with one file in them
- `Backup.names_altered`: two names that do not arrive as they are
-/

set_option autoImplicit false

namespace BackupVault.Backup

open Registry

/-! ## §1 Lists that arrive -/

theorem ofText_append (s t : String) : Bytes.ofText (s ++ t) = Bytes.ofText s ++ Bytes.ofText t :=
  String.toByteArray_append

/-- The names are put after what is there already, each on a line, by induction on the names. -/
theorem foldl_listing (names : List String) (b : Bytes) :
    names.foldl (fun b name => (b ++ Bytes.ofText name).push 0x0a) b =
      b ++ Bytes.ofText (Text.joinLines names) := by
  induction names generalizing b with
  | nil => exact ByteArray.append_empty.symm
  | cons name names ih =>
    have hbreak : Bytes.ofList [0x0a] = Bytes.ofText "\n" := rfl
    rw [List.foldl_cons, ih, Bytes.push_eq_append, hbreak]
    change _ = b ++ Bytes.ofText (name ++ "\n" ++ Text.joinLines names)
    rw [ofText_append, ofText_append, ByteArray.append_assoc, ByteArray.append_assoc,
      ByteArray.append_assoc]

theorem listing_eq (names : List String) : listing names = Bytes.ofText (Text.joinLines names) :=
  (foldl_listing names _).trans ByteArray.empty_append

/-- A client sees the lines of the names. -/
theorem namesOf_listing (label : String) (names : List String) :
    namesOf (.listed label (listing names)) = .ok (names.flatMap Text.shown) := by
  rw [listing_eq]
  simp only [namesOf, Text.lossy, Reader.fromUTF8_ofText]
  rw [Text.filter_lines_join]

/-- What a client is told of a list of files. -/
def listTold : Except StorageError (List String) → Except ClientError (List String)
  | .ok names => .ok (names.flatMap Text.shown)
  | .error (.userNotFound _) => .error .noBackupFiles
  | .error _ => .error .serverFailure

/-- A list that is not too large comes to the lines of the names. -/
theorem list_comesTo (c : Client) (there back : Carrier) {label : String}
    (hlabel : (Bytes.ofText label).size ≤ maxText) {s : Storage}
    (hfits : ∀ names, outcome (Registry.list c.user s) = .ok names →
      (listing names).size ≤ maxPayload) :
    ComesTo (fun _ _ peer => c.list peer) none (server there back c.version label) s
      (listTold (outcome (Registry.list c.user s))) (after (Registry.list c.user s)) := by
  refine call_comesTo c there back hlabel .list (Registry.list c.user) .names s listTold rfl
    (fun r => ?_) ?_
  · cases r with
    | ok names => exact namesOf_listing label names
    | error e => cases e <;> rfl
  · cases h : outcome (Registry.list c.user s) with
    | ok names => exact hfits names h
    | error e => cases e <;> exact Nat.zero_le _

/-- **Lists at clients**: a client is told the lines of the names that the registry lists, if the
list is not too large, and nothing changes but what the registry changes.  The names arrive as they
were listed exactly if each of them is a line. -/
theorem list_arrives (c : Client) (there back : Carrier) (e : Entropy) {s : Storage}
    (hfits : ∀ names, outcome (Registry.list c.user s) = .ok names →
      (listing names).size ≤ maxPayload) :
    ComesTo (fun _ _ peer => c.list peer) none (server there back c.version (label e).1) s
        (listTold (outcome (Registry.list c.user s))) (after (Registry.list c.user s)) ∧
      ∀ names, outcome (Registry.list c.user s) = .ok names →
        (listTold (outcome (Registry.list c.user s)) = .ok names ↔
          ∀ name ∈ names, Text.IsLine name) := by
  refine ⟨list_comesTo c there back (label_le e) hfits, fun names hnames => ?_⟩
  rw [hnames, listTold, Except.ok.injEq, Text.flatMap_shown_eq_iff]

/-! ## §2 One name -/

/-- A vault in which one file was stored for a user. -/
def holding (name : String) : Vault :=
  Vault.blank.withStorage (after (Registry.store 7 name (Bytes.ofList [1]) Vault.blank.storage))

section Holding

variable {name : String}

/-- A client of the backup protocol leads there. -/
theorem holding_grown (hsize : (Bytes.ofText name).size ≤ 255) : (holding name).Grown := by
  let request : Request := { user := 7, version := 1, body := .backup name (Bytes.ofList [1]) }
  have hpayload : (Bytes.ofList [1]).size ≤ maxPayload := by decide
  obtain ⟨b, hb⟩ := request.encode_unless.done
    (oversize_eq_none.mpr ⟨Nat.le_trans hsize (by decide), hpayload⟩)
  obtain ⟨r, hr, -⟩ := (Request.takes_of_encode hb).closes (Reader.ofBytes b)
    (Reader.unread_ofBytes b)
  have hgrown := Vault.Grown.backup 1 "" (Reader.ofBytes b) {} (.opened Vault.blank_opened)
  have hstorage : (serve 1 "" (Reader.ofBytes b) {} Vault.blank.storage).storage =
      after (Registry.store 7 name (Bytes.ofList [1]) Vault.blank.storage) := by
    rw [serve_eq, respond_of_decode hr, answer_eq]
    exact after_map _ _ _
  rwa [hstorage] at hgrown

/-- The registry lists the name as it is. -/
theorem list_holding (hplain : isPlainFilename name = true)
    (hsize : (Bytes.ofText name).size ≤ 255) :
    outcome (Registry.list 7 (holding name).storage) = .ok [name] := by
  have hempty : Shows (Path.ofText "/") [] Vault.blank.storage fun _ => none :=
    shows_empty (FileTree.leads_top _) (fun l _ hne => lookup_vacant hne) rfl (by decide)
  have hstored := (hempty.call (.store 7 name (Bytes.ofList [1])) (by
    rintro _ ⟨⟩
    exact hsize)).shows
  have hlisted := (hstored.call (.list 7) nofun).told
  have hstorage : after ((Call.store 7 name (Bytes.ofList [1])).perform Vault.blank.storage) =
      (holding name).storage := after_map _ _ _
  have hkeys : (Finmap.insert name (Bytes.ofList [1]) ∅ : Shelf).keys = {name} := by
    ext x
    rw [Finmap.mem_keys, Finmap.mem_insert, Finset.mem_singleton, or_iff_left (Finmap.notMem_empty)]
  rw [hstorage] at hlisted
  simp only [Catalogue.act, hplain, ↓reduceIte, Option.getD_none, Finmap.lookup_empty,
    Catalogue.put_same, Catalogue.names, hkeys, Finset.sort_singleton] at hlisted
  obtain ⟨names, hnames, heq⟩ := outcome_map_ok.mp hlisted
  cases heq
  exact hnames

theorem size_listing_name (hsize : (Bytes.ofText name).size ≤ 255) :
    (listing [name]).size ≤ maxPayload := by
  rw [listing_eq]
  change (Bytes.ofText (name ++ "\n" ++ "")).size ≤ maxPayload
  rw [String.append_empty, ofText_append, ByteArray.size_append]
  have hbreak : (Bytes.ofText "\n").size = 1 := rfl
  have hmax : 256 ≤ maxPayload := by decide
  omega

/-- A client is told the lines of the name. -/
theorem client_list_holding (hplain : isPlainFilename name = true)
    (hsize : (Bytes.ofText name).size ≤ 255) :
    ((Client.list { user := 7 } (server .whole .whole 1 (label ⟨fun _ => 0, 0⟩).1)).run.run
      (holding name).storage).1 = .ok (Text.shown name) := by
  have hlist := list_holding hplain hsize
  have hcomes := (list_comesTo { user := 7 } .whole .whole (label_le ⟨fun _ => 0, 0⟩)
    (s := (holding name).storage) fun names hnames => by
      cases hlist.symm.trans hnames
      exact size_listing_name hsize).sent rfl
  rw [hlist] at hcomes
  rw [hcomes]
  exact congrArg Except.ok (List.append_nil _)

end Holding

/-- An ordinary name arrives as it is. -/
theorem list_arrives_holding :
    listTold (outcome (Registry.list 7 (holding "a").storage)) = .ok ["a"] := by
  have hlist : outcome (Registry.list 7 (holding "a").storage) = .ok ["a"] :=
    list_holding (by decide) (by decide)
  refine ((list_arrives { user := 7 } .whole .whole ⟨fun _ => 0, 0⟩ (s := (holding "a").storage)
    fun names hnames => ?_).2 ["a"] hlist).mpr ?_
  · cases hlist.symm.trans hnames
    exact size_listing_name (by decide)
  · intro name hname
    cases List.mem_singleton.mp hname
    exact ⟨by decide, by decide, by decide⟩

/-- A name with a line feed in it arrives in two pieces, and one that ends in a carriage return
arrives without it. -/
theorem names_altered :
    ((holding "a\nb").Grown ∧
      outcome (Registry.list 7 (holding "a\nb").storage) = .ok ["a\nb"] ∧
      ((Client.list { user := 7 } (server .whole .whole 1 (label ⟨fun _ => 0, 0⟩).1)).run.run
        (holding "a\nb").storage).1 = .ok ["a", "b"]) ∧
    (holding "a\r").Grown ∧
      outcome (Registry.list 7 (holding "a\r").storage) = .ok ["a\r"] ∧
      ((Client.list { user := 7 } (server .whole .whole 1 (label ⟨fun _ => 0, 0⟩).1)).run.run
        (holding "a\r").storage).1 = .ok ["a"] := by
  have hsplit : Text.shown "a\nb" = ["a", "b"] := by decide +kernel
  have hcut : Text.shown "a\r" = ["a"] := by decide +kernel
  refine ⟨⟨holding_grown (by decide), list_holding (by decide) (by decide), ?_⟩,
    holding_grown (by decide), list_holding (by decide) (by decide), ?_⟩
  · rw [client_list_holding (by decide) (by decide), hsplit]
  · rw [client_list_holding (by decide) (by decide), hcut]

end BackupVault.Backup
