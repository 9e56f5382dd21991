import BackupVault.Config.SavedIdentity
import BackupVault.Config.TransferInfo
import BackupVault.Proofs.Config.Lines
import BackupVault.Proofs.Upload.ClientRecord

/-!
# Identity files are read back

The three lines of an identity file hold a name, an identity in digits and a key pair in base 64.
The digits and the base 64 can always be on a line, and a name can if it came from a line itself, as
that in a transfer file does.  So the file is read back, unless it is of a client that was not
registered.

## Overview

- `KeyPair.isField_of_toBase64`, `ClientId.isField_text`, `TransferInfo.isField_name`: lines
- `SavedIdentity.ofText_text`: what is read back
-/

set_option autoImplicit false

namespace BackupVault

/-! ## §1 Lines -/

namespace Base64

theorem isField_encode {b : Bytes} (h : b.data.toList ≠ []) : IsField (encode b) := by
  refine isField_of_no_blank (fun hempty => ?_) ?_
  · -- The bytes are read back from the text, which would be empty.
    have hread := decode_encode b
    rw [hempty] at hread
    cases hread
    exact h rfl
  · exact not_isBlank_of_mem_encode b

end Base64

theorem KeyPair.isField_of_toBase64 {k : KeyPair} {key : String} (h : k.toBase64 = .ok key) :
    IsField key := by
  unfold toBase64 at h
  cases hder : k.toDer? with
  | none =>
    rw [hder] at h
    cases h
  | some bs =>
    rw [hder] at h
    cases h
    refine Base64.isField_encode ?_
    -- An encoding begins with a tag.
    obtain ⟨numbers, -, hbs⟩ := Option.bind_eq_some_iff.mp hder
    cases hbs
    exact List.cons_ne_nil _ _

theorem ClientId.isField_text (id : ClientId) : IsField id.text := by
  refine isField_of_no_blank (fun hempty => ?_) not_isBlank_of_mem_text
  have hread := ofText_text id
  rw [hempty] at hread
  cases hread

/-- The name in a transfer file is from a line. -/
theorem TransferInfo.isField_name {s : String} {info : TransferInfo} (h : ofText s = .ok info) :
    IsField info.name := by
  obtain ⟨⟨server, name, file⟩, hlines, hrest⟩ := bind_eq_ok.mp h
  obtain ⟨-, hname, -⟩ := isField_of_threeLines hlines
  have hinfo : info.name = name := by
    simp only at hrest
    split at hrest
    · cases hrest
    · split at hrest <;> cases hrest
      rfl
  rw [hinfo]
  exact hname

/-! ## §2 Identity files -/

namespace SavedIdentity

variable {i : SavedIdentity} {key : String}

theorem text_eq (hkey : i.keys.toBase64 = .ok key) :
    i.text = .ok (i.name ++ "\n" ++ i.id.text ++ "\n" ++ key ++ "\n") := by
  rw [text, hkey]

/-- What is read from three lines. -/
theorem ofText_of_lines {s name written : String} (h : threeLines "client name" "client id"
    "private key" s = .ok (name, written, key)) :
    ofText s =
      match (ClientId.ofText? written).filter ClientId.isRegistered with
      | none => .error (.badId written)
      | some id =>
        match KeyPair.ofBase64 key with
        | .ok keys => .ok { name, id, keys }
        | .error e => .error (.badKey e) := by
  unfold ofText
  rw [h]
  simp only [bind, Except.bind]
  cases (ClientId.ofText? written).filter ClientId.isRegistered with
  | none => rfl
  | some id => cases KeyPair.ofBase64 key <;> rfl

/-- An identity file is read back if the client was registered, and refused otherwise. -/
theorem ofText_text (hname : IsField i.name) (hkey : i.keys.toBase64 = .ok key)
    (hback : KeyPair.ofBase64 key = .ok i.keys) {s : String} (htext : i.text = .ok s) :
    ofText s = if i.id.isRegistered then .ok i else .error (.badId i.id.text) := by
  rw [text_eq hkey] at htext
  cases htext
  have hfilter : (ClientId.ofText? i.id.text).filter ClientId.isRegistered =
      if i.id.isRegistered then some i.id else none := by
    rw [ClientId.ofText_text, Option.filter_some]
  rw [ofText_of_lines
    (threeLines_join hname i.id.isField_text (KeyPair.isField_of_toBase64 hkey))]
  by_cases hid : i.id.isRegistered = true
  · rw [hfilter, if_pos hid, if_pos hid, hback]
  · rw [hfilter, if_neg hid, if_neg hid]

end SavedIdentity

end BackupVault
