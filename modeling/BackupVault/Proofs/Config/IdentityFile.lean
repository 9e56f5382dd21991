import BackupVault.Proofs.Config.SavedIdentity
import BackupVault.Proofs.Crypto.KeyMaterial
import BackupVault.Proofs.Storage.ReadBack
import BackupVault.Proofs.Wire.Reading

/-!
# What an identity file keeps

A name is written to an identity file as it is, and read back as a line: trimmed, and up to the
first line feed.  So a name with white space around it comes back without it, and a name with a
line feed in it makes the file one of too many lines, whatever these lines look like.  The identity
and the key pair are never taken from a name.

## Overview

- `SavedIdentity.ofText_eq_ok`: what is read from an identity file, exactly
- `SavedIdentity.Lasting`: identities that are kept as they are
- `SavedIdentity.load_save`: what is loaded after saving
-/

set_option autoImplicit false

namespace BackupVault.SavedIdentity

variable {i j : SavedIdentity} {key s : String}

/-! ## §1 The text -/

/-- An identity is read from three lines, the second and third of which say what it is. -/
theorem ofText_eq_ok : ofText s = .ok j ↔ ∃ written key,
    threeLines "client name" "client id" "private key" s = .ok (j.name, written, key) ∧
      (ClientId.ofText? written).filter ClientId.isRegistered = some j.id ∧
      KeyPair.ofBase64 key = .ok j.keys := by
  constructor
  · intro h
    obtain ⟨⟨name, written, key⟩, hlines, -⟩ := bind_eq_ok.mp h
    rw [ofText_of_lines hlines] at h
    cases hid : (ClientId.ofText? written).filter ClientId.isRegistered with
    | none =>
      rw [hid] at h
      cases h
    | some id =>
      cases hkeys : KeyPair.ofBase64 key with
      | error e =>
        rw [hid, hkeys] at h
        cases h
      | ok keys =>
        rw [hid, hkeys] at h
        cases h
        exact ⟨written, key, hlines, hid, hkeys⟩
  · rintro ⟨written, key, hlines, hid, hkeys⟩
    rw [ofText_of_lines hlines, hid, hkeys]

/-- The lines of what is written: those of the name, the identity and the key pair. -/
theorem trimmedLines_text (hkey : i.keys.toBase64 = .ok key) (htext : i.text = .ok s) :
    trimmedLines s = trimmedLines (i.name ++ "\n") ++ [i.id.text, key] := by
  rw [text_eq hkey] at htext
  cases htext
  have hfields : ∀ field ∈ [i.id.text, key], IsField field := by
    simp [i.id.isField_text, KeyPair.isField_of_toBase64 hkey]
  have hjoin : i.name ++ "\n" ++ i.id.text ++ "\n" ++ key ++ "\n" =
      i.name ++ "\n" ++ Text.joinLines [i.id.text, key] := by
    simp only [Text.joinLines, List.foldr_cons, List.foldr_nil, String.append_assoc,
      String.append_empty]
  rw [hjoin, trimmedLines_append, trimmedLines_join hfields]

/-- After two lines or more that come first, the last of two others comes fourth or later. -/
theorem mem_rest_of_long {front rest : List String} {a b c x y : String} (h : 2 ≤ front.length)
    (heq : front ++ [x, y] = a :: b :: c :: rest) : y ∈ rest := by
  obtain ⟨a', b', front', rfl⟩ : ∃ a' b' front', front = a' :: b' :: front' := by
    cases front with
    | nil => cases h
    | cons a' front =>
      cases front with
      | nil => cases Nat.le_of_succ_le_succ h
      | cons b' front' => exact ⟨a', b', front', rfl⟩
  have htail : front' ++ [x, y] = c :: rest := by simpa using (List.cons.inj (List.cons.inj heq).2).2
  cases front' with
  | nil =>
    cases htail
    exact List.mem_singleton_self y
  | cons c' front' =>
    cases htail
    simp

/-- **What is read back**: the identity with its name trimmed, if the name is on one line and not
blank, and the client was registered; nothing otherwise. -/
theorem ofText_text_eq_ok (hkey : i.keys.toBase64 = .ok key)
    (hback : KeyPair.ofBase64 key = .ok i.keys) (htext : i.text = .ok s) : ofText s = .ok j ↔
      '\n' ∉ i.name.toList ∧ Text.trim i.name ≠ "" ∧ i.id.isRegistered = true ∧
        j = { i with name := Text.trim i.name } := by
  have hlines := trimmedLines_text hkey htext
  have hid : (ClientId.ofText? i.id.text).filter ClientId.isRegistered =
      if i.id.isRegistered then some i.id else none := by
    rw [ClientId.ofText_text, Option.filter_some]
  have hkeyField := KeyPair.isField_of_toBase64 hkey
  rw [ofText_eq_ok]
  constructor
  · rintro ⟨written, key', hread, hread_id, hread_keys⟩
    obtain ⟨rest, hfound, hall, hrest⟩ := threeLines_eq_ok.mp hread
    rw [hlines] at hfound
    by_cases hbreak : '\n' ∈ i.name.toList
    · -- The line of the key pair is one too many, since it is not empty.
      have hmem := mem_rest_of_long (length_trimmedLines_of_break hbreak) hfound
      exact absurd (hrest key hmem) hkeyField.nonempty
    · obtain ⟨name, id, keys⟩ := j
      rw [trimmedLines_of_no_break hbreak] at hfound
      cases hfound
      -- The other two lines are those that were written.
      by_cases hregistered : i.id.isRegistered = true
      · rw [hid, if_pos hregistered] at hread_id
        cases hread_id
        cases hback.symm.trans hread_keys
        exact ⟨hbreak, hall _ List.mem_cons_self, hregistered, rfl⟩
      · rw [hid, if_neg hregistered] at hread_id
        cases hread_id
  · rintro ⟨hbreak, hne, hregistered, rfl⟩
    refine ⟨i.id.text, key, threeLines_eq_ok.mpr ⟨[], ?_, ?_, nofun⟩, ?_, hback⟩
    · rw [hlines, trimmedLines_of_no_break hbreak]
      rfl
    · simp [hne, i.id.isField_text.nonempty, hkeyField.nonempty]
    · rw [hid, if_pos hregistered]

/-! ## §2 The file -/

variable {t t' : FileTree} {path : Path}

theorem save_eq_ok (h : i.save path t = .ok () t') :
    ∃ s, i.text = .ok s ∧ FileTree.save path (Bytes.ofText s) t = .ok () t' := by
  unfold save at h
  cases htext : i.text with
  | error fault =>
    rw [htext] at h
    cases h
  | ok s =>
    rw [htext] at h
    exact ⟨s, rfl, FileTree.orFail_eq_ok.mp h⟩

/-- Loading judges the text that was saved. -/
theorem load_eq (hsave : i.save path t = .ok () t') :
    ∃ s, i.text = .ok s ∧ outcome (load? path t') =
      ((ofText s).map some).mapError (.invalidLines path) := by
  obtain ⟨s, htext, hwrite⟩ := save_eq_ok hsave
  have hload := FileTree.load_of_save hwrite
  have hread : FileTree.loadText path t' = .ok s t' := by
    unfold FileTree.loadText
    rw [bind_run_ok hload, Reader.fromUTF8_ofText]
    rfl
  refine ⟨s, htext, ?_⟩
  unfold load? FileTree.loadAs
  rw [hread]
  simp only [ofRead?]
  cases ofText s with
  | ok j => rfl
  | error e => rfl

/-! ## §3 What is kept -/

/-- The identity is one that a file keeps as it is: the name is not empty, neither begins nor ends
in white space and has no line feed in it, and the client was registered. -/
structure Lasting (i : SavedIdentity) : Prop where
  nonempty : i.name ≠ ""
  start : ∀ c ∈ i.name.toList.head?, Text.isBlank c = false
  stop : ∀ c ∈ i.name.toList.getLast?, Text.isBlank c = false
  noBreak : '\n' ∉ i.name.toList
  registered : i.id ≠ ClientId.unregistered

/-- The text `read` is the text `written` without white space at its ends. -/
def IsTrimmed (written read : String) : Prop :=
  ∃ before after : List Char, written.toList = before ++ read.toList ++ after ∧
    (∀ c ∈ before, Text.isBlank c = true) ∧ ∀ c ∈ after, Text.isBlank c = true

theorem isTrimmed_trim (s : String) : IsTrimmed s (Text.trim s) := by
  obtain ⟨before, after, hsplit, hbefore, hafter⟩ := Text.trimChars_split s.toList
  refine ⟨before, after, ?_, hbefore, hafter⟩
  rw [Text.trim, String.toList_ofList]
  exact hsplit

theorem trim_eq_self_iff : Text.trim s = s ↔
    (∀ c ∈ s.toList.head?, Text.isBlank c = false) ∧
      ∀ c ∈ s.toList.getLast?, Text.isBlank c = false := by
  rw [← Text.trimChars_eq_self_iff, Text.trim, ← String.toList_inj, String.toList_ofList]

theorem isRegistered_iff {id : ClientId} : id.isRegistered = true ↔ id ≠ ClientId.unregistered := by
  unfold ClientId.isRegistered
  exact bne_iff_ne

theorem lasting_iff : i.Lasting ↔ '\n' ∉ i.name.toList ∧ Text.trim i.name ≠ "" ∧
    i.id.isRegistered = true ∧ Text.trim i.name = i.name := by
  rw [isRegistered_iff]
  constructor
  · intro h
    have htrim : Text.trim i.name = i.name := trim_eq_self_iff.mpr ⟨h.start, h.stop⟩
    have hne : Text.trim i.name ≠ "" := by
      rw [htrim]
      exact h.nonempty
    exact ⟨h.noBreak, hne, h.registered, htrim⟩
  · rintro ⟨hbreak, hne, hregistered, htrim⟩
    obtain ⟨hstart, hstop⟩ := trim_eq_self_iff.mp htrim
    rw [htrim] at hne
    exact ⟨hne, hstart, hstop, hbreak, hregistered⟩

/-- What is loaded after saving: the identity with its name trimmed, or nothing. -/
theorem load_eq_ok (hkey : i.keys.toBase64 = .ok key) (hback : KeyPair.ofBase64 key = .ok i.keys)
    (hsave : i.save path t = .ok () t') (found : Option SavedIdentity) : outcome (load? path t') = .ok found ↔
      '\n' ∉ i.name.toList ∧ Text.trim i.name ≠ "" ∧ i.id.isRegistered = true ∧
        found = some { i with name := Text.trim i.name } := by
  obtain ⟨s, htext, hload⟩ := load_eq hsave
  have hread {j : SavedIdentity} := ofText_text_eq_ok (j := j) hkey hback htext
  rw [hload]
  constructor
  · intro h
    cases hs : ofText s with
    | error e =>
      rw [hs] at h
      cases h
    | ok j =>
      rw [hs] at h
      cases h
      obtain ⟨hbreak, hne, hregistered, rfl⟩ := hread.mp hs
      exact ⟨hbreak, hne, hregistered, rfl⟩
  · rintro ⟨hbreak, hne, hregistered, rfl⟩
    rw [hread.mpr ⟨hbreak, hne, hregistered, rfl⟩]
    rfl

/-- **An identity file is read back exactly if it can be.**  After saving, the same identity is
loaded if and only if it is a lasting one.  Otherwise loading fails, or gives an identity that
differs only by the white space around its name; so it never gives another number or other keys.
Nothing is assumed of the name, of the path or of what else there is. -/
theorem load_save (hkey : i.keys.toBase64 = .ok key) (hback : KeyPair.ofBase64 key = .ok i.keys)
    (hsave : i.save path t = .ok () t') :
    (outcome (load? path t') = .ok (some i) ↔ i.Lasting) ∧
      (¬ i.Lasting → (∃ e, outcome (load? path t') = .error e) ∨
        ∃ name, name ≠ i.name ∧ IsTrimmed i.name name ∧
          outcome (load? path t') = .ok (some { i with name })) ∧
      ∀ found, outcome (load? path t') = .ok found →
        ∃ j, found = some j ∧ j.id = i.id ∧ j.keys = i.keys := by
  have hload := load_eq_ok hkey hback hsave
  have hsame : i = { i with name := Text.trim i.name } ↔ Text.trim i.name = i.name :=
    ⟨fun h => (congrArg name h).symm, fun h => by rw [h]⟩
  refine ⟨?_, ?_, ?_⟩
  · rw [hload, lasting_iff, Option.some.injEq, hsame]
  · intro hnot
    cases hresult : outcome (load? path t') with
    | error e => exact .inl ⟨e, rfl⟩
    | ok found =>
      obtain ⟨hbreak, hne, hregistered, rfl⟩ := (hload found).mp hresult
      refine .inr ⟨Text.trim i.name, ?_, isTrimmed_trim i.name, rfl⟩
      -- With the name as it was, the identity would be a lasting one.
      exact fun htrim => hnot (lasting_iff.mpr ⟨hbreak, hne, hregistered, htrim⟩)
  · intro found hresult
    obtain ⟨-, -, -, rfl⟩ := (hload found).mp hresult
    exact ⟨_, rfl, rfl, rfl⟩

/-- An identity whose name looks like all three lines of a file. -/
def forged : SavedIdentity where
  name := "mallory\n000102030405060708090a0b0c0d0e0f\nAAAA"
  id := ClientId.padded (Bytes.ofList [1])
  keys := KeyPair.simple

/-- The name of an identity file leads to the place of this name. -/
theorem resolve_fileName {t : FileTree} (htop : t.workingDirectory = [])
    (hlink : ∀ target, t.lookup [Bytes.ofText fileName] ≠ some (.link target)) :
    t.resolve true (Path.ofText fileName) =
      .ok ⟨[Bytes.ofText fileName], t.lookup [Bytes.ofText fileName]⟩ := by
  have hsegments : (Path.ofText fileName).segments = [Bytes.ofText fileName] := by decide +kernel
  have habsolute : (Path.ofText fileName).isAbsolute = false := by decide +kernel
  have hbytes : ∀ x ∈ (Path.ofText fileName).bytes.data.toList, x ≠ 0 := by decide +kernel
  have hlast := FileTree.walk_last (FileTree.lookup_nil t) (s := Bytes.ofText fileName)
    (by decide) (by decide) hlink true FileTree.maxLinks
  rw [FileTree.resolve_eq_walk rfl hbytes (by decide), hsegments, habsolute, htop]
  exact hlast

/-- Where nothing is yet, the file is written. -/
theorem exists_save {i : SavedIdentity} {s : String} (htext : i.text = .ok s) :
    ∃ t', i.save (Path.ofText fileName) {} = .ok () t' := by
  have hl : [Bytes.ofText fileName] ≠ [] := List.cons_ne_nil _ []
  have hresolve : ({} : FileTree).resolve true (Path.ofText fileName) =
      .ok ⟨[Bytes.ofText fileName], none⟩ := resolve_fileName rfl (fun _ h => by cases h)
  have hput := FileTree.sets_insert {} hl (.file ByteArray.empty)
  have hfound := resolve_fileName hput.workingDirectory (by simp [hput.self])
  have hadmits : ({} : FileTree).admitsFile (Path.ofText fileName)
      ⟨[Bytes.ofText fileName], none⟩ = true :=
    FileTree.admitsFile_iff.mpr ⟨(by simp), _, hfound⟩
  obtain ⟨t', hwrite, -⟩ :=
    FileTree.save_unlimited hl rfl (by decide) hresolve hadmits (Bytes.ofText s)
  refine ⟨t', ?_⟩
  unfold save
  rw [htext]
  exact FileTree.orFail_eq_ok.mpr hwrite

/-- The identity of the forger is saved, and does not come back. -/
theorem load_save_forged : ∃ key t', forged.keys.toBase64 = .ok key ∧
    KeyPair.ofBase64 key = .ok forged.keys ∧
      forged.save (Path.ofText fileName) {} = .ok () t' ∧ ¬ forged.Lasting ∧
        outcome (load? (Path.ofText fileName) t') ≠ .ok (some forged) := by
  obtain ⟨key, hkey⟩ := KeyPair.toBase64_eq_ok_iff.mpr KeyPair.simple_proper.coprime
  have hshort := KeyPair.short_of_isConsistent KeyPair.simple_proper.isConsistent
    KeyPair.simple_proper.privateExponent_lt
  have hback := KeyPair.ofBase64_toBase64 KeyPair.simple_proper.isConsistent hshort hkey
  obtain ⟨t', hsave⟩ := exists_save (i := forged) (text_eq hkey)
  have hnot : ¬ forged.Lasting := fun h => h.noBreak (by decide)
  refine ⟨key, t', hkey, hback, hsave, hnot, ?_⟩
  exact fun hloaded => hnot ((load_save hkey hback hsave).1.mp hloaded)

end BackupVault.SavedIdentity
