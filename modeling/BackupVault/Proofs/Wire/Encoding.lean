import BackupVault.Proofs.Wire.Reading
import BackupVault.Wire.ClientMessage
import BackupVault.Wire.Request
import BackupVault.Wire.Response
import BackupVault.Wire.ServerMessage

/-!
# What an encoded message is read back as

For each of the four formats: a message that can be encoded is taken back from exactly the bytes
of its encoding.  The bodies of the two upload formats lie in a block of declared length, which is
read as a whole and has to be used up.

## Overview

- §1: the bytes that each field adds to a frame
- §2: texts and blobs, taken back after their lengths
- §3: requests and responses
- §4: blocks, client messages and server messages
-/

set_option autoImplicit false

namespace BackupVault

/-! ## §1 Frames -/

namespace Frame

@[simp]
theorem bytes_empty : Frame.empty.bytes = ByteArray.empty := rfl

@[simp]
theorem bytes_putBytes (f : Frame) (b : Bytes) : (f.putBytes b).bytes = f.bytes ++ b := rfl

@[simp]
theorem bytes_putU8 (f : Frame) (v : UInt8) : (f.putU8 v).bytes = f.bytes ++ Bytes.ofList [v] :=
  Bytes.push_eq_append f.bytes v

@[simp]
theorem bytes_putU16 (f : Frame) (v : UInt16) :
    (f.putU16 v).bytes = f.bytes ++ Bytes.ofNatLE 2 v.toNat := rfl

@[simp]
theorem bytes_putU32 (f : Frame) (v : UInt32) :
    (f.putU32 v).bytes = f.bytes ++ Bytes.ofNatLE 4 v.toNat := rfl

@[simp]
theorem bytes_putFrame (f g : Frame) : (f.putFrame g).bytes = f.bytes ++ g.bytes := rfl

@[simp]
theorem bytes_putName (f : Frame) (n : Name) : (f.putName n).bytes = f.bytes ++ n.bytes := rfl

@[simp]
theorem bytes_putClientId (f : Frame) (id : ClientId) :
    (f.putClientId id).bytes = f.bytes ++ id.bytes := rfl

/-- A size that passes the check is written as it is. -/
theorem checkedSize_eq_ok {field : String} {size : Nat} {n : UInt32}
    (h : checkedSize field size = .ok n) : size ≤ maxPayload ∧ n.toNat = size := by
  unfold checkedSize at h
  split at h
  · rename_i hle
    cases h
    have hlt : size < 2 ^ 32 := Nat.lt_of_le_of_lt hle (by decide)
    exact ⟨hle, UInt32.toNat_ofNat_of_lt' hlt⟩
  · cases h

theorem checkedSize_of_le (field : String) {size : Nat} (h : size ≤ maxPayload) :
    ∃ n : UInt32, checkedSize field size = .ok n ∧ n.toNat = size := by
  have hlt : size < 2 ^ 32 := Nat.lt_of_le_of_lt h (by decide)
  exact ⟨UInt32.ofNat size, by rw [checkedSize, if_pos h], UInt32.toNat_ofNat_of_lt' hlt⟩

/-- What a text adds to a frame: its length in two bytes, and itself. -/
theorem putText_eq_ok {f g : Frame} {field s : String} (h : f.putText field s = .ok g) :
    (Bytes.ofText s).size ≤ maxText ∧
      g.bytes = f.bytes ++ (Bytes.ofNatLE 2 (Bytes.ofText s).size ++ Bytes.ofText s) := by
  simp only [putText] at h
  split at h
  · rename_i hle
    cases h
    have hlt : (Bytes.ofText s).size < 2 ^ 16 := Nat.lt_of_le_of_lt hle (by decide)
    have hsize : (UInt16.ofNat (Bytes.ofText s).size).toNat = (Bytes.ofText s).size :=
      UInt16.toNat_ofNat_of_lt' hlt
    exact ⟨hle, by rw [bytes_putBytes, bytes_putU16, hsize, ByteArray.append_assoc]⟩
  · cases h

/-- What a blob adds to a frame: its length in four bytes, and itself. -/
theorem putBlob_eq_ok {f g : Frame} {field : String} {b : Bytes} (h : f.putBlob field b = .ok g) :
    b.size ≤ maxPayload ∧ g.bytes = f.bytes ++ (Bytes.ofNatLE 4 b.size ++ b) := by
  obtain ⟨n, hs, hg⟩ := bind_eq_ok.mp h
  cases hg
  obtain ⟨hle, hn⟩ := checkedSize_eq_ok hs
  exact ⟨hle, by rw [bytes_putBytes, bytes_putU32, hn, ByteArray.append_assoc]⟩

end Frame

/-! ## §2 Fields after their lengths -/

namespace Reader

theorem takes_text {s : String} (h : (Bytes.ofText s).size ≤ maxText) (field : String) :
    Takes (text field) (Bytes.ofNatLE 2 (Bytes.ofText s).size ++ Bytes.ofText s) s := by
  have hlt : (Bytes.ofText s).size < 2 ^ 16 := Nat.lt_of_le_of_lt h (by decide)
  have hsize : (UInt16.ofNat (Bytes.ofText s).size).toNat = (Bytes.ofText s).size :=
    UInt16.toNat_ofNat_of_lt' hlt
  -- The length fits into two bytes, so that reading it gives the size of the text.
  have hlen := takes_u16 (UInt16.ofNat (Bytes.ofText s).size)
  rw [hsize] at hlen
  refine hlen.bind ?_
  rw [hsize]
  exact takes_textOf (Nat.le_trans h (by decide)) field

theorem takes_blob {b : Bytes} (h : b.size ≤ maxPayload) :
    Takes blob (Bytes.ofNatLE 4 b.size ++ b) b := by
  obtain ⟨n, -, hn⟩ := Frame.checkedSize_of_le "" h
  have hlen := takes_u32 n
  rw [hn] at hlen
  refine hlen.bind ?_
  rw [hn]
  exact takes_bytes h

theorem takes_expectVersion (v : UInt8) : Takes (expectVersion v) (Bytes.ofList [v]) v := by
  have h := (takes_u8 v).bind (f := fun w =>
    if w = v then pure w else throw (.versionMismatch v w)) (y := v) (c := ByteArray.empty)
    (by rw [if_pos rfl]; exact Takes.pure v)
  rwa [ByteArray.append_empty] at h

theorem takes_decodeCode {γ α : Type} {table : γ → Option α} {unknown : γ → WireError} {raw : γ}
    {code : α} (h : table raw = some code) :
    Takes (decodeCode table unknown raw) ByteArray.empty code := by
  simp only [decodeCode, h]
  exact Takes.pure code

theorem takes_lift_ok {α : Type} (a : α) : Takes (lift (.ok a)) ByteArray.empty a := Takes.pure a

theorem takes_block {b : Bytes} {n : UInt32} (h : b.size ≤ maxPayload) (hn : n.toNat = b.size) :
    Takes (block n) b b := by
  rw [block, hn]
  exact takes_bytes h

/-- All that is left, if it is not too much. -/
theorem closes_rest {b : Bytes} (h : b.size ≤ maxPayload) : Closes rest b b := by
  intro r hr
  -- What remains is all of the bytes, and is read as a string of that size.
  have hremaining : r.remaining = b.size := by rw [← size_unread, hr]
  obtain ⟨r', hr', hnone⟩ := (takes_bytes h).closes r hr
  refine ⟨r', ?_, hnone⟩
  change bytes r.remaining r = _
  rw [hremaining]
  exact hr'

/-- A block whose decoding uses it up decodes to the value. -/
theorem decodeBlock_of_closes {α : Type} {x : Read α} {b : Bytes} {a : α} (h : Closes x b a)
    (declared : UInt32) : decodeBlock x b declared = .ok a := by
  obtain ⟨r', hr', hnone⟩ := h (ofBytes b) (unread_ofBytes b)
  simp only [decodeBlock, hr', finish, hnone, ↓reduceIte]

end Reader

/-! ## §3 Requests and responses -/

section Fields

variable {f g : Frame} {field : String}

/-- A text that was put is what all that was added is read as. -/
theorem Frame.takes_of_putText {β : Type} {s : String} (h : f.putText field s = .ok g)
    (label : String) (mk : String → β) :
    ∃ b, g.bytes = f.bytes ++ b ∧
      Takes (do let s ← Reader.text label; return mk s) b (mk s) := by
  obtain ⟨hsize, hg⟩ := putText_eq_ok h
  exact ⟨_, hg, (Reader.takes_text hsize label).map⟩

/-- The same of a text and a blob after it. -/
theorem Frame.takes_of_putBlob {β : Type} {blobField s : String} {b : Bytes}
    (h : (do let f ← f.putText field s; f.putBlob blobField b) = .ok g) (label : String)
    (mk : String → Bytes → β) :
    ∃ c, g.bytes = f.bytes ++ c ∧
      Takes (do let s ← Reader.text label; let b ← Reader.blob; return mk s b) c (mk s b) := by
  obtain ⟨f', htext, hblob⟩ := bind_eq_ok.mp h
  obtain ⟨hname, hf'⟩ := putText_eq_ok htext
  obtain ⟨hsize, hg⟩ := putBlob_eq_ok hblob
  refine ⟨_, by rw [hg, hf', ByteArray.append_assoc], ?_⟩
  exact (Reader.takes_text hname label).bind (Reader.takes_blob hsize).map

theorem RequestBody.takes_of_put {body : RequestBody} (h : body.put f = .ok g) :
    ∃ b, g.bytes = f.bytes ++ b ∧ Takes (RequestBody.read body.opcode) b body := by
  cases body with
  | backup filename payload => exact Frame.takes_of_putBlob h "filename" backup
  | restore filename => exact Frame.takes_of_putText h "filename" restore
  | delete filename => exact Frame.takes_of_putText h "filename" delete
  | list =>
    cases h
    exact ⟨ByteArray.empty, ByteArray.append_empty.symm, Takes.pure _⟩

theorem ResponseBody.takes_of_put {body : ResponseBody} (h : body.put f = .ok g) :
    ∃ b, g.bytes = f.bytes ++ b ∧ Takes (ResponseBody.read body.code) b body := by
  cases body with
  | restored filename payload => exact Frame.takes_of_putBlob h "filename" restored
  | listed label payload => exact Frame.takes_of_putBlob h "filename" listed
  | done filename => exact Frame.takes_of_putText h "filename" done
  | fileNotFound filename => exact Frame.takes_of_putText h "filename" fileNotFound
  | noBackupFiles | serverError =>
    cases h
    exact ⟨ByteArray.empty, ByteArray.append_empty.symm, Takes.pure _⟩

end Fields

theorem Opcode.ofByte_toByte (c : Opcode) : Opcode.ofByte? c.toByte = some c := by
  cases c <;> rfl

theorem Request.takes_of_encode {r : Request} {b : Bytes} (h : r.encode = .ok b) :
    Takes (Request.decode r.version) b r := by
  obtain ⟨g, hput, hb⟩ := bind_eq_ok.mp h
  cases hb
  obtain ⟨c, hg, hbody⟩ := RequestBody.takes_of_put hput
  -- Each field is read back in the order in which it was put; decoding the opcode takes no bytes.
  have hbytes : g.bytes = Bytes.ofNatLE 4 r.user.toNat ++ (Bytes.ofList [r.version] ++
      (Bytes.ofList [r.body.opcode.toByte] ++ (ByteArray.empty ++ c))) := by
    simp [hg, ByteArray.append_assoc]
  rw [hbytes]
  exact (Reader.takes_u32 r.user).bind <| (Reader.takes_expectVersion r.version).bind <|
    (Reader.takes_u8 _).bind <|
      (Reader.takes_decodeCode (Opcode.ofByte_toByte r.body.opcode)).bind hbody.map

theorem ResponseCode.ofWord_toWord (c : ResponseCode) : ResponseCode.ofWord? c.toWord = some c := by
  cases c <;> rfl

theorem Response.takes_of_encode {r : Response} {b : Bytes} (h : r.encode = .ok b) :
    Takes (Response.decode r.version) b r := by
  obtain ⟨g, hput, hb⟩ := bind_eq_ok.mp h
  cases hb
  obtain ⟨c, hg, hbody⟩ := ResponseBody.takes_of_put hput
  have hbytes : g.bytes = Bytes.ofList [r.version] ++
      (Bytes.ofNatLE 2 r.body.code.toWord.toNat ++ (ByteArray.empty ++ c)) := by
    simp [hg, ByteArray.append_assoc]
  rw [hbytes]
  exact (Reader.takes_expectVersion r.version).bind <| (Reader.takes_u16 _).bind <|
    (Reader.takes_decodeCode (ResponseCode.ofWord_toWord r.body.code)).bind hbody.map

/-! ## §4 Messages in blocks -/

/-- A block of a declared length, and what its bytes decode to. -/
theorem Reader.takes_decodeBlock {α β : Type} {x : Read α} {b : Bytes} {a : α} {n : UInt32}
    {f : α → β} (hx : Closes x b a) (hsize : b.size ≤ maxPayload) (hn : n.toNat = b.size) :
    Takes (do
      let declared ← u32
      let content ← block declared
      let body ← lift (decodeBlock x content declared)
      return f body) (Bytes.ofNatLE 4 n.toNat ++ b) (f a) := by
  refine (takes_u32 n).bind ?_
  -- The block is decoded on its own, which takes no more bytes of the stream.
  have hlift : Takes (lift (decodeBlock x b n)) ByteArray.empty a := by
    rw [decodeBlock_of_closes hx]
    exact takes_lift_ok a
  have h := (takes_block hsize hn).bind (f := fun content => do
    let body ← lift (decodeBlock x content n)
    return f body) hlift.map
  rwa [ByteArray.append_empty] at h

theorem ClientBody.closes_of_payload {body : ClientBody} {g : Frame} (h : body.payload = .ok g)
    (hsize : g.size ≤ maxPayload) : Closes (ClientBody.read body.code) g.bytes body := by
  cases body with
  | registration name | accept name | retry name | giveUp name =>
    cases h
    exact (Reader.takes_name name).map.closes
  | publicKey name key =>
    cases h
    -- The key fills the rest of the payload, so that its size is within the limit.
    have hkey : key.size ≤ maxPayload := by
      have : name.bytes.size + key.size ≤ maxPayload := by
        simpa [Frame.size, ByteArray.size_append] using hsize
      omega
    exact (Reader.takes_name name).bind_closes (Reader.closes_rest hkey).map
  | upload filename content =>
    obtain ⟨n, hn, hg⟩ := bind_eq_ok.mp h
    cases hg
    obtain ⟨hle, hn⟩ := Frame.checkedSize_eq_ok hn
    -- The content has its own size in front of the name.
    have hbytes : (((Frame.empty.putU32 n).putName filename).putBytes content).bytes =
        Bytes.ofNatLE 4 n.toNat ++ (filename.bytes ++ content) := by
      simp [ByteArray.append_assoc]
    rw [hbytes]
    refine ((Reader.takes_u32 n).bind ((Reader.takes_name filename).bind ?_)).closes
    rw [hn]
    exact (Reader.takes_bytes hle).map

theorem ClientCode.ofWord_toWord (c : ClientCode) : ClientCode.ofWord? c.toWord = some c := by
  cases c <;> rfl

theorem ClientMessage.takes_of_encode {m : ClientMessage} {b : Bytes} (h : m.encode = .ok b) :
    Takes (ClientMessage.decode m.version) b m := by
  obtain ⟨g, hg, h⟩ := bind_eq_ok.mp h
  obtain ⟨n, hn, h⟩ := bind_eq_ok.mp h
  cases h
  obtain ⟨hle, hn⟩ := Frame.checkedSize_eq_ok hn
  -- The header, and then the payload in a block.
  have hbytes : ((((Frame.empty.putClientId m.sender).putU8 m.version).putU16
      m.body.code.toWord).putU32 n |>.putFrame g).bytes = m.sender.bytes ++
        (Bytes.ofList [m.version] ++ (Bytes.ofNatLE 2 m.body.code.toWord.toNat ++
          (ByteArray.empty ++ (Bytes.ofNatLE 4 n.toNat ++ g.bytes)))) := by
    simp [ByteArray.append_assoc]
  rw [hbytes]
  exact (Reader.takes_clientId m.sender).bind <| (Reader.takes_expectVersion m.version).bind <|
    (Reader.takes_u16 _).bind <|
      (Reader.takes_decodeCode (ClientCode.ofWord_toWord m.body.code)).bind <|
        Reader.takes_decodeBlock (f := fun body => { m with body })
          (ClientBody.closes_of_payload hg hle) hle hn

theorem ServerBody.closes_payload {body : ServerBody} (hsize : body.payload.size ≤ maxPayload) :
    Closes (ServerBody.read body.code) body.payload.bytes body := by
  cases body with
  | registered id => exact ((Reader.takes_clientId id).map (f := registered)).closes
  | refused => exact (Takes.pure ServerBody.refused).closes
  | sessionKey id encrypted =>
    have hkey : encrypted.size ≤ maxPayload := by
      have : id.bytes.size + encrypted.size ≤ maxPayload := by
        simpa [payload, Frame.size, ByteArray.size_append] using hsize
      omega
    exact (Reader.takes_clientId id).bind_closes (Reader.closes_rest hkey).map
  | uploaded id size filename checksum =>
    have hbytes : (uploaded id size filename checksum).payload.bytes = id.bytes ++
        (Bytes.ofNatLE 4 size.toNat ++ (filename.bytes ++ Bytes.ofNatLE 4 checksum.toNat)) := by
      simp [payload, ByteArray.append_assoc]
    rw [hbytes]
    exact ((Reader.takes_clientId id).bind ((Reader.takes_u32 size).bind
      ((Reader.takes_name filename).bind (Reader.takes_u32 checksum).map))).closes
  | success => exact (Takes.pure ServerBody.success).closes

theorem ServerCode.ofWord_toWord (c : ServerCode) : ServerCode.ofWord? c.toWord = some c := by
  cases c <;> rfl

theorem ServerMessage.takes_of_encode {m : ServerMessage} {b : Bytes} (h : m.encode = .ok b) :
    Takes (ServerMessage.decode m.version) b m := by
  obtain ⟨n, hn, h⟩ := bind_eq_ok.mp h
  cases h
  obtain ⟨hle, hn⟩ := Frame.checkedSize_eq_ok hn
  have hbytes : (((Frame.empty.putU8 m.version).putU16 m.body.code.toWord).putU32 n |>.putFrame
      m.body.payload).bytes = Bytes.ofList [m.version] ++
        (Bytes.ofNatLE 2 m.body.code.toWord.toNat ++
          (ByteArray.empty ++ (Bytes.ofNatLE 4 n.toNat ++ m.body.payload.bytes))) := by
    simp [ByteArray.append_assoc]
  rw [hbytes]
  exact (Reader.takes_expectVersion m.version).bind <| (Reader.takes_u16 _).bind <|
    (Reader.takes_decodeCode (ServerCode.ofWord_toWord m.body.code)).bind <|
      Reader.takes_decodeBlock (f := fun body => { m with body })
        (ServerBody.closes_payload hle) hle hn

end BackupVault
