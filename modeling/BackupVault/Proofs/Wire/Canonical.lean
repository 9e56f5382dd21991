import BackupVault.Proofs.Wire.RoundTrip
import BackupVault.Proofs.Wire.Sizes

/-!
# Messages have one encoding

Whatever a reader accepts as a message is the encoding of this message, to the last byte: what
reading took off the stream is what encoding gives.  So a message can be encoded exactly if some
bytes are read as it, and no other bytes are.

## Overview

- §1: what the readings of fields have taken
- §2: what the readings of bodies have taken, in requests and responses
- §3: the same for bodies in blocks
- `Format.Canonical`: writing undoes reading
- `formats_canonical`: it does in all four formats
-/

set_option autoImplicit false

namespace BackupVault

/-! ## §1 Fields -/

namespace Reader

variable {r r' : Reader} {b : Bytes} {field : String}

theorem of_fill {n : Nat} (h : fill n r = .ok b r') : b.size = n ∧ r.Passed b r' := by
  -- The stream can fill the read, since otherwise it would have failed.
  rcases Nat.lt_or_ge r.unread.size n with hshort | hleft
  · obtain ⟨r₁, hr₁⟩ := fill_of_short hshort
    rw [hr₁] at h
    cases h
  · obtain ⟨c, r₁, hsize, hr₁, p⟩ := fill_of_le hleft
    rw [hr₁] at h
    cases h
    exact ⟨hsize, p⟩

/-- A number is what its bytes say. -/
theorem ofNatLE_toNatLE {n : Nat} (h : b.size = n) : Bytes.ofNatLE n b.toNatLE = b := by
  apply Bytes.ext_toList
  rw [Bytes.ofNatLE, Bytes.toNatLE, Bytes.toList_ofList, ← h, ← Bytes.length_toList,
    Bytes.listOfNatLE_natOfListLE]

theorem toNatLE_lt {n : Nat} (h : b.size = n) : b.toNatLE < 256 ^ n := by
  rw [Bytes.toNatLE, ← h, ← Bytes.length_toList]
  exact Bytes.natOfListLE_lt _

theorem of_u8 {v : UInt8} (h : u8 r = .ok v r') : r.Passed (Bytes.ofList [v]) r' := by
  obtain ⟨b, r₁, hfill, hv⟩ := bind_run_eq_ok.mp h
  cases hv
  obtain ⟨hsize, p⟩ := of_fill hfill
  have hb : Bytes.ofList [UInt8.ofNat b.toNatLE] = b := ofNatLE_toNatLE hsize
  rwa [hb]

theorem of_u16 {v : UInt16} (h : u16 r = .ok v r') : r.Passed (Bytes.ofNatLE 2 v.toNat) r' := by
  obtain ⟨b, r₁, hfill, hv⟩ := bind_run_eq_ok.mp h
  cases hv
  obtain ⟨hsize, p⟩ := of_fill hfill
  rwa [UInt16.toNat_ofNat_of_lt' (toNatLE_lt hsize), ofNatLE_toNatLE hsize]

theorem of_u32 {v : UInt32} (h : u32 r = .ok v r') : r.Passed (Bytes.ofNatLE 4 v.toNat) r' := by
  obtain ⟨b, r₁, hfill, hv⟩ := bind_run_eq_ok.mp h
  cases hv
  obtain ⟨hsize, p⟩ := of_fill hfill
  rwa [UInt32.toNat_ofNat_of_lt' (toNatLE_lt hsize), ofNatLE_toNatLE hsize]

theorem of_bytes {n : Nat} (h : bytes n r = .ok b r') :
    b.size = n ∧ n ≤ maxPayload ∧ r.Passed b r' := by
  unfold bytes at h
  split at h
  · cases h
  · obtain ⟨hsize, p⟩ := of_fill h
    exact ⟨hsize, by omega, p⟩

/-- All bytes of a name field are kept, also those after the content. -/
theorem of_name {n : Name} (h : name r = .ok n r') : r.Passed n.bytes r' := by
  obtain ⟨b, r₁, hfill, hn⟩ := bind_run_eq_ok.mp h
  cases hn
  obtain ⟨hsize, p⟩ := of_fill hfill
  change r.Passed (Bytes.fit nameCapacity b) r'
  rwa [Bytes.fit_eq_self hsize]

theorem of_clientId {id : ClientId} (h : clientId r = .ok id r') : r.Passed id.bytes r' := by
  obtain ⟨b, r₁, hfill, hid⟩ := bind_run_eq_ok.mp h
  cases hid
  obtain ⟨hsize, p⟩ := of_fill hfill
  change r.Passed (Bytes.fit 16 b) r'
  rwa [Bytes.fit_eq_self hsize]

theorem of_text {s : String} (h : text field r = .ok s r') :
    (Bytes.ofText s).size ≤ maxText ∧
      r.Passed (Bytes.ofNatLE 2 (Bytes.ofText s).size ++ Bytes.ofText s) r' := by
  obtain ⟨n, r₁, hn, h⟩ := bind_run_eq_ok.mp h
  obtain ⟨b, r₂, hb, h⟩ := bind_run_eq_ok.mp h
  obtain ⟨hsize, -, p⟩ := of_bytes hb
  -- Bytes that are no text are refused.
  cases hs : String.fromUTF8? b with
  | none =>
    rw [hs] at h
    cases h
  | some s' =>
    rw [hs] at h
    cases h
    have hle : n.toNat ≤ maxText := Nat.le_of_lt_succ n.toNat_lt
    rw [ofText_fromUTF8 hs, hsize]
    exact ⟨hle, (of_u16 hn).trans p⟩

theorem of_blob (h : blob r = .ok b r') :
    b.size ≤ maxPayload ∧ r.Passed (Bytes.ofNatLE 4 b.size ++ b) r' := by
  obtain ⟨n, r₁, hn, hb⟩ := bind_run_eq_ok.mp h
  obtain ⟨hsize, hle, p⟩ := of_bytes hb
  rw [hsize]
  exact ⟨hle, (of_u32 hn).trans p⟩

theorem of_rest (h : rest r = .ok b r') : r.Passed b r' := (of_bytes h).2.2

theorem of_expectVersion {v w : UInt8} (h : expectVersion v r = .ok w r') :
    w = v ∧ r.Passed (Bytes.ofList [w]) r' := by
  obtain ⟨actual, r₁, hactual, h⟩ := bind_run_eq_ok.mp h
  split at h
  · rename_i heq
    cases h
    exact ⟨heq, of_u8 hactual⟩
  · cases h

theorem of_decodeCode {γ α : Type} {table : γ → Option α} {unknown : γ → WireError} {raw : γ}
    {code : α} (h : decodeCode table unknown raw r = .ok code r') :
    table raw = some code ∧ r' = r := by
  cases hcode : table raw with
  | none =>
    simp only [decodeCode, hcode] at h
    cases h
  | some code' =>
    simp only [decodeCode, hcode] at h
    cases h
    exact ⟨rfl, rfl⟩

/-- A block that was decoded was used up. -/
theorem passed_of_decodeBlock {α : Type} {x : Read α} {n : UInt32} {a : α}
    (h : decodeBlock x b n = .ok a) :
    ∃ r, x (ofBytes b) = .ok a r ∧ ∀ c, (ofBytes b).Passed c r → c = b := by
  unfold decodeBlock at h
  cases hx : x (ofBytes b) with
  | ok value r =>
    simp only [hx, finish] at h
    split at h
    · rename_i hnone
      cases h
      refine ⟨r, rfl, fun c p => ?_⟩
      -- Nothing is left, so that what was taken is all there was.
      have hempty : r.unread = ByteArray.empty :=
        ByteArray.size_eq_zero_iff.mp ((size_unread r).trans hnone)
      rw [← unread_ofBytes b, p.unread, hempty, ByteArray.append_empty]
    · cases h
  | error e r =>
    rw [hx] at h
    cases e <;> cases h

end Reader

/-! ## §2 Requests and responses -/

namespace Frame

theorem checkedSize_toNat (field : String) {n : UInt32} (h : n.toNat ≤ maxPayload) :
    checkedSize field n.toNat = .ok n := by
  rw [checkedSize, if_pos h, UInt32.ofNat_toNat]

end Frame

/-- A body was read from the bytes that putting it adds to any frame. -/
def Puts {β : Type} (put : Frame → β → Except WireError Frame) (body : β) (r r' : Reader) :
    Prop :=
  ∃ b, r.Passed b r' ∧ ∀ f, ∃ g, put f body = .ok g ∧ g.bytes = f.bytes ++ b

namespace Puts

variable {β : Type} {put : Frame → β → Except WireError Frame} {body : β} {r r' : Reader}
  {field blobField label : String}

theorem of_text {mk : String → β} (hput : ∀ f s, put f (mk s) = f.putText field s)
    (h : (do let s ← Reader.text label; return mk s : Read β) r = .ok body r') :
    Puts put body r r' := by
  obtain ⟨s, r₁, hs, h⟩ := bind_run_eq_ok.mp h
  cases h
  obtain ⟨hsize, p⟩ := Reader.of_text hs
  refine ⟨_, p, fun f => ?_⟩
  rw [hput]
  exact Frame.putText_of_le field hsize f

theorem of_blob {mk : String → Bytes → β}
    (hput : ∀ f s b, put f (mk s b) = do let f ← f.putText field s; f.putBlob blobField b)
    (h : (do let s ← Reader.text label; let b ← Reader.blob; return mk s b : Read β) r =
      .ok body r') : Puts put body r r' := by
  obtain ⟨s, r₁, hs, h⟩ := bind_run_eq_ok.mp h
  obtain ⟨b, r₂, hb, h⟩ := bind_run_eq_ok.mp h
  cases h
  obtain ⟨hname, p₁⟩ := Reader.of_text hs
  obtain ⟨hsize, p₂⟩ := Reader.of_blob hb
  refine ⟨_, p₁.trans p₂, fun f => ?_⟩
  rw [hput]
  exact Frame.putText_putBlob field blobField hname hsize f

theorem of_nothing {a : β} (hput : ∀ f, put f a = .ok f) (h : (pure a : Read β) r = .ok body r') :
    Puts put body r r' := by
  cases h
  exact ⟨ByteArray.empty, .refl r, fun f => ⟨f, hput f, ByteArray.append_empty.symm⟩⟩

end Puts

section Bodies

variable {r r' : Reader}

theorem RequestBody.puts_of_read {code : Opcode} {body : RequestBody}
    (h : RequestBody.read code r = .ok body r') :
    body.opcode = code ∧ Puts RequestBody.put body r r' := by
  cases code with
  | backup =>
    refine ⟨?_, .of_blob (fun _ _ _ => rfl) h⟩
    obtain ⟨_, _, -, h⟩ := bind_run_eq_ok.mp h
    obtain ⟨_, _, -, h⟩ := bind_run_eq_ok.mp h
    cases h
    rfl
  | restore | delete =>
    refine ⟨?_, .of_text (fun _ _ => rfl) h⟩
    obtain ⟨_, _, -, h⟩ := bind_run_eq_ok.mp h
    cases h
    rfl
  | list =>
    refine ⟨?_, .of_nothing (fun _ => rfl) h⟩
    cases h
    rfl

theorem ResponseBody.puts_of_read {code : ResponseCode} {body : ResponseBody}
    (h : ResponseBody.read code r = .ok body r') :
    body.code = code ∧ Puts ResponseBody.put body r r' := by
  cases code with
  | restored | listed =>
    refine ⟨?_, .of_blob (fun _ _ _ => rfl) h⟩
    obtain ⟨_, _, -, h⟩ := bind_run_eq_ok.mp h
    obtain ⟨_, _, -, h⟩ := bind_run_eq_ok.mp h
    cases h
    rfl
  | done | fileNotFound =>
    refine ⟨?_, .of_text (fun _ _ => rfl) h⟩
    obtain ⟨_, _, -, h⟩ := bind_run_eq_ok.mp h
    cases h
    rfl
  | noBackupFiles | serverError =>
    refine ⟨?_, .of_nothing (fun _ => rfl) h⟩
    cases h
    rfl

end Bodies

/-- A code stands for what it is written as. -/
theorem Opcode.toByte_of_ofByte {raw : UInt8} {code : Opcode} (h : ofByte? raw = some code) :
    code.toByte = raw := by
  unfold ofByte? at h
  repeat' split at h
  all_goals cases h
  all_goals exact Eq.symm ‹_›

theorem ResponseCode.toWord_of_ofWord {raw : UInt16} {code : ResponseCode}
    (h : ofWord? raw = some code) : code.toWord = raw := by
  unfold ofWord? at h
  repeat' split at h
  all_goals cases h
  all_goals exact Eq.symm ‹_›

/-- A request was read from the bytes that it is encoded as. -/
theorem Request.encode_of_decode {v : UInt8} {r r' : Reader} {m : Request}
    (h : Request.decode v r = .ok m r') :
    m.version = v ∧ ∃ b, m.encode = .ok b ∧ r.Passed b r' := by
  obtain ⟨user, r₁, huser, h⟩ := bind_run_eq_ok.mp h
  obtain ⟨version, r₂, hversion, h⟩ := bind_run_eq_ok.mp h
  obtain ⟨raw, r₃, hraw, h⟩ := bind_run_eq_ok.mp h
  obtain ⟨code, r₄, hcode, h⟩ := bind_run_eq_ok.mp h
  obtain ⟨body, r₅, hbody, h⟩ := bind_run_eq_ok.mp h
  cases h
  obtain ⟨rfl, pversion⟩ := Reader.of_expectVersion hversion
  obtain ⟨htable, rfl⟩ := Reader.of_decodeCode hcode
  obtain ⟨rfl, b, pbody, hput⟩ := RequestBody.puts_of_read hbody
  have hbyte := Opcode.toByte_of_ofByte htable
  -- The fields were taken in the order in which they are put.
  have p := (Reader.of_u32 huser).trans <| pversion.trans <| (Reader.of_u8 hraw).trans pbody
  obtain ⟨g, hg, hbytes⟩ := hput
    (((Frame.empty.putU32 user).putU8 version).putU8 body.opcode.toByte)
  refine ⟨rfl, g.bytes, bind_eq_ok.mpr ⟨g, hg, rfl⟩, ?_⟩
  rw [hbytes, hbyte]
  simpa [ByteArray.append_assoc] using p

theorem Response.encode_of_decode {v : UInt8} {r r' : Reader} {m : Response}
    (h : Response.decode v r = .ok m r') :
    m.version = v ∧ ∃ b, m.encode = .ok b ∧ r.Passed b r' := by
  obtain ⟨version, r₁, hversion, h⟩ := bind_run_eq_ok.mp h
  obtain ⟨raw, r₂, hraw, h⟩ := bind_run_eq_ok.mp h
  obtain ⟨code, r₃, hcode, h⟩ := bind_run_eq_ok.mp h
  obtain ⟨body, r₄, hbody, h⟩ := bind_run_eq_ok.mp h
  cases h
  obtain ⟨rfl, pversion⟩ := Reader.of_expectVersion hversion
  obtain ⟨htable, rfl⟩ := Reader.of_decodeCode hcode
  obtain ⟨rfl, b, pbody, hput⟩ := ResponseBody.puts_of_read hbody
  have hword := ResponseCode.toWord_of_ofWord htable
  have p := pversion.trans <| (Reader.of_u16 hraw).trans pbody
  obtain ⟨g, hg, hbytes⟩ := hput ((Frame.empty.putU8 version).putU16 body.code.toWord)
  refine ⟨rfl, g.bytes, bind_eq_ok.mpr ⟨g, hg, rfl⟩, ?_⟩
  rw [hbytes, hword]
  simpa [ByteArray.append_assoc] using p

/-! ## §3 Messages in blocks -/

/-- A block was read from its length and its bytes, which decode to the body and are used up. -/
theorem Reader.of_decodeBlock_field {α : Type} {x : Read α} {r r₁ r₂ r' : Reader} {declared : UInt32}
    {content : Bytes} {body : α} (hdeclared : u32 r = .ok declared r₁)
    (hcontent : block declared r₁ = .ok content r₂)
    (hbody : lift (decodeBlock x content declared) r₂ = .ok body r') :
    declared.toNat ≤ maxPayload ∧ content.size = declared.toNat ∧
      r.Passed (Bytes.ofNatLE 4 declared.toNat ++ content) r' ∧
      ∃ s, x (ofBytes content) = .ok body s ∧ ∀ c, (ofBytes content).Passed c s → c = content := by
  obtain ⟨hsize, hle, p⟩ := of_bytes hcontent
  have hdecoded := of_lift hbody
  rw [hdecoded] at hbody
  cases hbody
  exact ⟨hle, hsize, (of_u32 hdeclared).trans p, passed_of_decodeBlock hdecoded⟩

/-- The payload of a body is what reading it has taken. -/
theorem ClientBody.payload_of_read {code : ClientCode} {body : ClientBody} {r r' : Reader}
    (h : ClientBody.read code r = .ok body r') :
    body.code = code ∧ ∃ g, body.payload = .ok g ∧ r.Passed g.bytes r' := by
  cases code with
  | registration | accept | retry | giveUp =>
    obtain ⟨name, r₁, hname, h⟩ := bind_run_eq_ok.mp h
    cases h
    refine ⟨rfl, _, rfl, ?_⟩
    simpa using Reader.of_name hname
  | publicKey =>
    obtain ⟨name, r₁, hname, h⟩ := bind_run_eq_ok.mp h
    obtain ⟨key, r₂, hkey, h⟩ := bind_run_eq_ok.mp h
    cases h
    refine ⟨rfl, _, rfl, ?_⟩
    simpa using (Reader.of_name hname).trans (Reader.of_rest hkey)
  | upload =>
    obtain ⟨size, r₁, hsize, h⟩ := bind_run_eq_ok.mp h
    obtain ⟨filename, r₂, hname, h⟩ := bind_run_eq_ok.mp h
    obtain ⟨content, r₃, hcontent, h⟩ := bind_run_eq_ok.mp h
    cases h
    obtain ⟨hlength, hle, p⟩ := Reader.of_bytes hcontent
    -- The size inside the block is that of the content.
    have hchecked := Frame.checkedSize_toNat "content" hle
    rw [← hlength] at hchecked
    refine ⟨rfl, _, bind_eq_ok.mpr ⟨size, hchecked, rfl⟩, ?_⟩
    simpa [ByteArray.append_assoc] using
      (Reader.of_u32 hsize).trans ((Reader.of_name hname).trans p)

theorem ServerBody.payload_of_read {code : ServerCode} {body : ServerBody} {r r' : Reader}
    (h : ServerBody.read code r = .ok body r') :
    body.code = code ∧ r.Passed body.payload.bytes r' := by
  cases code with
  | registered =>
    obtain ⟨id, r₁, hid, h⟩ := bind_run_eq_ok.mp h
    cases h
    exact ⟨rfl, by simpa [payload] using Reader.of_clientId hid⟩
  | refused | success =>
    cases h
    exact ⟨rfl, .refl r⟩
  | sessionKey =>
    obtain ⟨id, r₁, hid, h⟩ := bind_run_eq_ok.mp h
    obtain ⟨encrypted, r₂, hkey, h⟩ := bind_run_eq_ok.mp h
    cases h
    exact ⟨rfl, by simpa [payload] using (Reader.of_clientId hid).trans (Reader.of_rest hkey)⟩
  | uploaded =>
    obtain ⟨id, r₁, hid, h⟩ := bind_run_eq_ok.mp h
    obtain ⟨size, r₂, hsize, h⟩ := bind_run_eq_ok.mp h
    obtain ⟨filename, r₃, hname, h⟩ := bind_run_eq_ok.mp h
    obtain ⟨checksum, r₄, hchecksum, h⟩ := bind_run_eq_ok.mp h
    cases h
    refine ⟨rfl, ?_⟩
    simpa [payload, ByteArray.append_assoc] using
      (Reader.of_clientId hid).trans <| (Reader.of_u32 hsize).trans <|
        (Reader.of_name hname).trans (Reader.of_u32 hchecksum)

theorem ClientCode.toWord_of_ofWord {raw : UInt16} {code : ClientCode}
    (h : ofWord? raw = some code) : code.toWord = raw := by
  unfold ofWord? at h
  repeat' split at h
  all_goals cases h
  all_goals exact Eq.symm ‹_›

theorem ServerCode.toWord_of_ofWord {raw : UInt16} {code : ServerCode}
    (h : ofWord? raw = some code) : code.toWord = raw := by
  unfold ofWord? at h
  repeat' split at h
  all_goals cases h
  all_goals exact Eq.symm ‹_›

theorem ClientMessage.encode_of_decode {v : UInt8} {r r' : Reader} {m : ClientMessage}
    (h : ClientMessage.decode v r = .ok m r') :
    m.version = v ∧ ∃ b, m.encode = .ok b ∧ r.Passed b r' := by
  obtain ⟨sender, r₁, hsender, h⟩ := bind_run_eq_ok.mp h
  obtain ⟨version, r₂, hversion, h⟩ := bind_run_eq_ok.mp h
  obtain ⟨raw, r₃, hraw, h⟩ := bind_run_eq_ok.mp h
  obtain ⟨code, r₄, hcode, h⟩ := bind_run_eq_ok.mp h
  obtain ⟨declared, r₅, hdeclared, h⟩ := bind_run_eq_ok.mp h
  obtain ⟨content, r₆, hcontent, h⟩ := bind_run_eq_ok.mp h
  obtain ⟨body, r₇, hbody, h⟩ := bind_run_eq_ok.mp h
  cases h
  obtain ⟨rfl, pversion⟩ := Reader.of_expectVersion hversion
  obtain ⟨htable, rfl⟩ := Reader.of_decodeCode hcode
  obtain ⟨hle, hsize, pblock, s, hread, hall⟩ :=
    Reader.of_decodeBlock_field hdeclared hcontent hbody
  obtain ⟨rfl, g, hg, pbody⟩ := ClientBody.payload_of_read hread
  -- The payload is all of the block, so that it is as long as declared.
  have hgc := hall g.bytes pbody
  have hchecked : Frame.checkedSize "payload" g.size = .ok declared := by
    rw [Frame.size, hgc, hsize]
    exact Frame.checkedSize_toNat "payload" hle
  have p := (Reader.of_clientId hsender).trans <| pversion.trans <|
    (Reader.of_u16 hraw).trans pblock
  refine ⟨rfl, _, bind_eq_ok.mpr ⟨g, hg, bind_eq_ok.mpr ⟨declared, hchecked, rfl⟩⟩, ?_⟩
  simpa [ByteArray.append_assoc, hgc, ClientCode.toWord_of_ofWord htable] using p

theorem ServerMessage.encode_of_decode {v : UInt8} {r r' : Reader} {m : ServerMessage}
    (h : ServerMessage.decode v r = .ok m r') :
    m.version = v ∧ ∃ b, m.encode = .ok b ∧ r.Passed b r' := by
  obtain ⟨version, r₁, hversion, h⟩ := bind_run_eq_ok.mp h
  obtain ⟨raw, r₂, hraw, h⟩ := bind_run_eq_ok.mp h
  obtain ⟨code, r₃, hcode, h⟩ := bind_run_eq_ok.mp h
  obtain ⟨declared, r₄, hdeclared, h⟩ := bind_run_eq_ok.mp h
  obtain ⟨content, r₅, hcontent, h⟩ := bind_run_eq_ok.mp h
  obtain ⟨body, r₆, hbody, h⟩ := bind_run_eq_ok.mp h
  cases h
  obtain ⟨rfl, pversion⟩ := Reader.of_expectVersion hversion
  obtain ⟨htable, rfl⟩ := Reader.of_decodeCode hcode
  obtain ⟨hle, hsize, pblock, s, hread, hall⟩ :=
    Reader.of_decodeBlock_field hdeclared hcontent hbody
  obtain ⟨rfl, pbody⟩ := ServerBody.payload_of_read hread
  have hgc := hall body.payload.bytes pbody
  have hchecked : Frame.checkedSize "payload" body.payload.size = .ok declared := by
    rw [Frame.size, hgc, hsize]
    exact Frame.checkedSize_toNat "payload" hle
  have p := pversion.trans <| (Reader.of_u16 hraw).trans pblock
  refine ⟨rfl, _, bind_eq_ok.mpr ⟨declared, hchecked, rfl⟩, ?_⟩
  simpa [ByteArray.append_assoc, hgc, ServerCode.toWord_of_ofWord htable] using p

/-! ## §4 The four formats -/

namespace Format

variable {α : Type}

/-- Writing undoes reading.  The reader is any reader, and the version that is expected is any
version. -/
structure Canonical (F : Format α) : Prop where
  /-- What was taken off the stream is the encoding of the message, to the last byte. -/
  one : ∀ (v : UInt8) (m : α) (r r' : Reader), F.decode v r = .ok m r' →
    ∃ b, F.encode m = .ok b ∧ F.version m = v ∧ r.unread = b ++ r'.unread ∧
      r'.consumed = r.consumed + b.size
  /-- Only one byte string is read as a message. -/
  unique : ∀ (v v' : UInt8) (m : α) (b b' : Bytes) (r r' : Reader),
    F.decode v (Reader.ofBytes b) = .ok m r → F.decode v' (Reader.ofBytes b') = .ok m r' →
      r.consumed = r'.consumed ∧ b.extract 0 r.consumed = b'.extract 0 r'.consumed
  /-- A message can be encoded exactly if some byte string is read as it, at some version. -/
  encodable_iff : ∀ m : α, (∃ b, F.encode m = .ok b) ↔
    ∃ v b r, F.decode v (Reader.ofBytes b) = .ok m r

theorem extract_of_unread {b c : Bytes} {r : Reader} (h : b = c ++ r.unread) :
    b.extract 0 c.size = c := by
  rw [h]
  apply Bytes.ext_toList
  rw [Bytes.toList_extract, ByteArray.toList_data_append, List.drop_zero, ← Bytes.length_toList,
    List.take_left]

/-- A format that round-trips is canonical if what is read is always what would be written. -/
theorem Canonical.of_decode {F : Format α} (hF : F.RoundTrips)
    (h : ∀ v m r r', F.decode v r = .ok m r' →
      F.version m = v ∧ ∃ b, F.encode m = .ok b ∧ r.Passed b r') : F.Canonical where
  one v m r r' hread := by
    obtain ⟨hversion, b, hb, p⟩ := h v m r r' hread
    exact ⟨b, hb, hversion, p.unread, p.consumed⟩
  unique v v' m b b' r r' hread hread' := by
    obtain ⟨-, c, hc, p⟩ := h v m _ r hread
    obtain ⟨-, c', hc', p'⟩ := h v' m _ r' hread'
    -- Both took the one encoding of the message.
    rw [hc] at hc'
    cases hc'
    have hcut := p.unread
    have hcut' := p'.unread
    rw [Reader.unread_ofBytes] at hcut hcut'
    rw [p.consumed, p'.consumed]
    simp only [Reader.ofBytes, Nat.zero_add, extract_of_unread hcut, extract_of_unread hcut',
      and_self]
  encodable_iff m := by
    constructor
    · rintro ⟨b, hb⟩
      have hall : (Reader.ofBytes b).unread = b ++ ByteArray.empty := by
        rw [Reader.unread_ofBytes, ByteArray.append_empty]
      obtain ⟨r, hr, -⟩ := hF.one m b ByteArray.empty (Reader.ofBytes b) hb hall
      exact ⟨F.version m, b, r, hr⟩
    · rintro ⟨v, b, r, hread⟩
      obtain ⟨-, c, hc, -⟩ := h v m _ r hread
      exact ⟨c, hc⟩

end Format

/-- **Writing undoes reading** in all four formats: every message that is accepted is encoded as
the bytes that were read, no other bytes are read as it, and what can be encoded is what can be
read. -/
theorem formats_canonical :
    Format.requests.Canonical ∧ Format.responses.Canonical ∧
      Format.clientMessages.Canonical ∧ Format.serverMessages.Canonical :=
  ⟨.of_decode (.of_takes fun _ _ h => Request.takes_of_encode h)
      fun _ _ _ _ h => Request.encode_of_decode h,
    .of_decode (.of_takes fun _ _ h => Response.takes_of_encode h)
      fun _ _ _ _ h => Response.encode_of_decode h,
    .of_decode clientMessages_roundTrip fun _ _ _ _ h => ClientMessage.encode_of_decode h,
    .of_decode (.of_takes fun _ _ h => ServerMessage.takes_of_encode h)
      fun _ _ _ _ h => ServerMessage.encode_of_decode h⟩

end BackupVault
