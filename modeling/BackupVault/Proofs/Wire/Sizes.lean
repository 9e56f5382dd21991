import BackupVault.Proofs.Wire.Encoding

/-!
# Sizes of messages

What a reader takes off a stream is as long as it was declared, and never longer than a payload
may be; a message is encoded if its parts fit.

## Overview

- `ClientMessage.size_le_of_decode`: an upload that was read fits into a payload
- `ClientMessage.encode_eq_ok`, `ServerMessage.encode_eq_ok`: what fits is encoded
- `Request.encode_unless`, `Response.encode_unless`: what is too long is not encoded
-/

set_option autoImplicit false

namespace BackupVault

/-! ## §1 What was read -/

namespace Reader

theorem size_of_fill {n : Nat} {r r' : Reader} {b : Bytes} (h : fill n r = .ok b r') :
    b.size = n := by
  obtain ⟨reads, hskip⟩ := r.source.skip_eq n
  -- Only a read that the stream can fill succeeds.
  by_cases hn : n ≤ r.source.left
  · have hmissing : n - r.source.left = 0 := Nat.sub_eq_zero_of_le hn
    simp only [fill, hskip, hmissing, ↓reduceIte] at h
    cases h
    exact size_peek r.source hn
  · have hmissing : n - r.source.left ≠ 0 := by omega
    simp only [fill, hskip, hmissing, ↓reduceIte] at h
    cases h

theorem size_of_bytes {n : Nat} {r r' : Reader} {b : Bytes} (h : bytes n r = .ok b r') :
    b.size ≤ maxPayload := by
  unfold bytes at h
  split at h
  · cases h
  · rw [size_of_fill h]
    omega

theorem of_decodeBlock {α : Type} {x : Read α} {b : Bytes} {n : UInt32} {a : α}
    (h : decodeBlock x b n = .ok a) : ∃ r, x (ofBytes b) = .ok a r := by
  unfold decodeBlock at h
  cases hx : x (ofBytes b) with
  | ok value r =>
    simp only [hx, finish] at h
    split at h
    · cases h
      exact ⟨r, rfl⟩
    · cases h
  | error e r =>
    rw [hx] at h
    cases e <;> cases h

theorem of_lift {α : Type} {x : Except WireError α} {r r' : Reader} {a : α}
    (h : lift x r = .ok a r') : x = .ok a := by
  cases x with
  | ok a' => cases h; rfl
  | error e => cases h

end Reader

theorem ClientBody.size_of_read {code : ClientCode} {r r' : Reader} {filename : Name}
    {content : Bytes} (h : ClientBody.read code r = .ok (.upload filename content) r') :
    content.size ≤ maxPayload := by
  cases code with
  | upload =>
    obtain ⟨size, r₁, -, h⟩ := bind_run_eq_ok.mp h
    obtain ⟨name, r₂, -, h⟩ := bind_run_eq_ok.mp h
    obtain ⟨content', r₃, hcontent, h⟩ := bind_run_eq_ok.mp h
    cases h
    exact Reader.size_of_bytes hcontent
  -- No other code is read as an upload.
  | publicKey =>
    obtain ⟨name, r₁, -, h⟩ := bind_run_eq_ok.mp h
    obtain ⟨key, r₂, -, h⟩ := bind_run_eq_ok.mp h
    cases h
  | _ =>
    obtain ⟨name, r₁, -, h⟩ := bind_run_eq_ok.mp h
    cases h

/-- An upload that was read fits into a payload. -/
theorem ClientMessage.size_le_of_decode {v : UInt8} {r r' : Reader} {m : ClientMessage}
    {filename : Name} {content : Bytes} (h : ClientMessage.decode v r = .ok m r')
    (hm : m.body = .upload filename content) : content.size ≤ maxPayload := by
  -- The header is read field by field, and the body from the block after it.
  obtain ⟨sender, r₁, -, h⟩ := bind_run_eq_ok.mp h
  obtain ⟨version, r₂, -, h⟩ := bind_run_eq_ok.mp h
  obtain ⟨raw, r₃, -, h⟩ := bind_run_eq_ok.mp h
  obtain ⟨code, r₄, -, h⟩ := bind_run_eq_ok.mp h
  obtain ⟨declared, r₅, -, h⟩ := bind_run_eq_ok.mp h
  obtain ⟨block, r₆, -, h⟩ := bind_run_eq_ok.mp h
  obtain ⟨body, r₇, hbody, h⟩ := bind_run_eq_ok.mp h
  cases h
  obtain ⟨r₈, hread⟩ := Reader.of_decodeBlock (Reader.of_lift hbody)
  subst hm
  exact ClientBody.size_of_read hread

/-! ## §2 What can be written -/

/-- How many bytes the fields of a message take. -/
def ClientBody.payloadSize : ClientBody → Nat
  | publicKey _ key => nameCapacity + key.size
  | upload _ content => nameCapacity + 4 + content.size
  | _ => nameCapacity

/-- How many bytes the fields of an answer take. -/
def ServerBody.payloadSize : ServerBody → Nat
  | registered _ => 16
  | sessionKey _ encrypted => 16 + encrypted.size
  | uploaded .. => nameCapacity + 24
  | _ => 0

namespace Frame

theorem size_putBytes (f : Frame) (b : Bytes) : (f.putBytes b).size = f.size + b.size :=
  ByteArray.size_append

theorem size_putU32 (f : Frame) (v : UInt32) : (f.putU32 v).size = f.size + 4 := by
  rw [putU32, size_putBytes, Bytes.size_ofNatLE]

theorem size_putName (f : Frame) (n : Name) : (f.putName n).size = f.size + nameCapacity := by
  rw [putName, size_putBytes, n.size_eq]

theorem size_putClientId (f : Frame) (id : ClientId) : (f.putClientId id).size = f.size + 16 := by
  rw [putClientId, size_putBytes, id.size_eq]

theorem size_empty : empty.size = 0 := rfl

theorem putText_of_le (field : String) {s : String} (h : (Bytes.ofText s).size ≤ maxText)
    (f : Frame) :
    ∃ g, f.putText field s = .ok g ∧
      g.bytes = f.bytes ++ (Bytes.ofNatLE 2 (Bytes.ofText s).size ++ Bytes.ofText s) := by
  have hput : f.putText field s =
      .ok ((f.putU16 (UInt16.ofNat (Bytes.ofText s).size)).putBytes (Bytes.ofText s)) := by
    simp only [putText, h, ↓reduceIte]
  exact ⟨_, hput, (putText_eq_ok hput).2⟩

theorem putBlob_of_le (field : String) {b : Bytes} (h : b.size ≤ maxPayload) (f : Frame) :
    ∃ g, f.putBlob field b = .ok g ∧ g.bytes = f.bytes ++ (Bytes.ofNatLE 4 b.size ++ b) := by
  obtain ⟨n, hn, -⟩ := checkedSize_of_le field h
  have hput : f.putBlob field b = .ok ((f.putU32 n).putBytes b) := bind_eq_ok.mpr ⟨n, hn, rfl⟩
  exact ⟨_, hput, (putBlob_eq_ok hput).2⟩

/-- A text and a blob after it, put one after another. -/
theorem putText_putBlob (field blobField : String) {s : String} {b : Bytes}
    (hs : (Bytes.ofText s).size ≤ maxText) (hb : b.size ≤ maxPayload) (f : Frame) :
    ∃ g, (do let f ← f.putText field s; f.putBlob blobField b) = .ok g ∧
      g.bytes = f.bytes ++ ((Bytes.ofNatLE 2 (Bytes.ofText s).size ++ Bytes.ofText s) ++
        (Bytes.ofNatLE 4 b.size ++ b)) := by
  obtain ⟨f₁, htext, hf₁⟩ := putText_of_le field hs f
  obtain ⟨g, hblob, hg⟩ := putBlob_of_le blobField hb f₁
  refine ⟨g, bind_eq_ok.mpr ⟨f₁, htext, hblob⟩, ?_⟩
  rw [hg, hf₁, ByteArray.append_assoc]

end Frame

theorem ClientBody.payload_eq_ok {body : ClientBody} (h : body.payloadSize ≤ maxPayload) :
    ∃ g, body.payload = .ok g ∧ g.size = body.payloadSize := by
  cases body with
  | publicKey name key =>
    refine ⟨_, rfl, ?_⟩
    rw [Frame.size_putBytes, Frame.size_putName, Frame.size_empty, Nat.zero_add, payloadSize]
  | upload filename content =>
    -- Only the size of a content is checked on its own.
    have hsize : content.size ≤ maxPayload := by
      rw [payloadSize] at h
      omega
    obtain ⟨n, hn, -⟩ := Frame.checkedSize_of_le "content" hsize
    refine ⟨_, bind_eq_ok.mpr ⟨n, hn, rfl⟩, ?_⟩
    rw [Frame.size_putBytes, Frame.size_putName, Frame.size_putU32, Frame.size_empty, payloadSize]
    omega
  | registration name | accept name | retry name | giveUp name =>
    exact ⟨_, rfl, Frame.size_putName Frame.empty name⟩

theorem ServerBody.size_payload (body : ServerBody) : body.payload.size = body.payloadSize := by
  cases body with
  | registered id =>
    rw [payload, Frame.size_putClientId, Frame.size_empty, Nat.zero_add, payloadSize]
  | sessionKey id encrypted =>
    rw [payload, Frame.size_putBytes, Frame.size_putClientId, Frame.size_empty, Nat.zero_add,
      payloadSize]
  | uploaded id size filename checksum =>
    rw [payload, Frame.size_putU32, Frame.size_putName, Frame.size_putU32,
      Frame.size_putClientId, Frame.size_empty, payloadSize]
    omega
  | refused | success => rfl

theorem ClientMessage.encode_eq_ok {m : ClientMessage} (h : m.body.payloadSize ≤ maxPayload) :
    ∃ b, m.encode = .ok b := by
  obtain ⟨g, hg, hsize⟩ := ClientBody.payload_eq_ok h
  obtain ⟨n, hn, -⟩ := Frame.checkedSize_of_le "payload" (hsize ▸ h)
  exact ⟨_, bind_eq_ok.mpr ⟨g, hg, bind_eq_ok.mpr ⟨n, hn, rfl⟩⟩⟩

theorem ServerMessage.encode_eq_ok {m : ServerMessage} (h : m.body.payloadSize ≤ maxPayload) :
    ∃ b, m.encode = .ok b := by
  rw [← ServerBody.size_payload] at h
  obtain ⟨n, hn, -⟩ := Frame.checkedSize_of_le "payload" h
  exact ⟨_, bind_eq_ok.mpr ⟨n, hn, rfl⟩⟩

/-! ## §3 Requests and responses -/

/-- The text of a request, which is its filename. -/
def RequestBody.text (body : RequestBody) : String := body.filename?.getD ""

/-- The payload of a request, if it has one. -/
def RequestBody.payload : RequestBody → Bytes
  | backup _ payload => payload
  | _ => ByteArray.empty

/-- The text of a response, which is a filename or a label. -/
def ResponseBody.text : ResponseBody → String
  | restored filename _ | done filename | fileNotFound filename => filename
  | listed label _ => label
  | noBackupFiles | serverError => ""

/-- The payload of a response, if it has one. -/
def ResponseBody.payload : ResponseBody → Bytes
  | restored _ payload | listed _ payload => payload
  | _ => ByteArray.empty

/-- Why a text and a payload cannot be sent, if they cannot: the text is looked at first. -/
def oversize? (text : String) (payload : Bytes) : Option WireError :=
  if maxText < (Bytes.ofText text).size then
    some (.fieldTooLong "filename" (Bytes.ofText text).size maxText)
  else if maxPayload < payload.size then some (.fieldTooLong "payload" payload.size maxPayload)
  else none

theorem oversize_eq_none {text : String} {payload : Bytes} :
    oversize? text payload = none ↔
      (Bytes.ofText text).size ≤ maxText ∧ payload.size ≤ maxPayload := by
  unfold oversize?
  split
  · simp only [reduceCtorEq, false_iff]
    omega
  · split
    · simp only [reduceCtorEq, false_iff]
      omega
    · simp only [true_iff]
      omega

theorem oversize_of_text {text : String} (h : maxText < (Bytes.ofText text).size)
    (payload : Bytes) :
    oversize? text payload = some (.fieldTooLong "filename" (Bytes.ofText text).size maxText) :=
  if_pos h

theorem oversize_of_payload {text : String} {payload : Bytes}
    (htext : (Bytes.ofText text).size ≤ maxText) (h : maxPayload < payload.size) :
    oversize? text payload = some (.fieldTooLong "payload" payload.size maxPayload) := by
  rw [oversize?, if_neg (Nat.not_lt.mpr htext), if_pos h]

/-- It succeeds unless there is a reason not to, and fails with this reason if there is one. -/
def DoneUnless {α : Type} (reason : Option WireError) (x : Except WireError α) : Prop :=
  match reason with
  | none => ∃ a, x = .ok a
  | some e => x = .error e

theorem DoneUnless.map {α β : Type} {reason : Option WireError} {x : Except WireError α}
    (h : DoneUnless reason x) (f : α → β) : DoneUnless reason (do return f (← x)) := by
  cases reason with
  | none =>
    obtain ⟨a, rfl⟩ := h
    exact ⟨f a, rfl⟩
  | some e =>
    cases (h : x = .error e)
    rfl

theorem DoneUnless.eq_none {α : Type} {reason : Option WireError} {x : Except WireError α}
    (h : DoneUnless reason x) {a : α} (hx : x = .ok a) : reason = none := by
  cases reason with
  | none => rfl
  | some e => cases hx.symm.trans (h : x = .error e)

theorem DoneUnless.done {α : Type} {reason : Option WireError} {x : Except WireError α}
    (h : DoneUnless reason x) (hnone : reason = none) : ∃ a, x = .ok a := by
  rwa [hnone] at h

namespace Frame

theorem putText_unless (f : Frame) (s : String) :
    DoneUnless (oversize? s ByteArray.empty) (f.putText "filename" s) := by
  rcases Nat.lt_or_ge maxText (Bytes.ofText s).size with hlong | hs
  · rw [oversize_of_text hlong]
    exact if_neg (Nat.not_le.mpr hlong)
  · obtain ⟨g, hg, -⟩ := putText_of_le "filename" hs f
    rw [oversize_eq_none.mpr ⟨hs, Nat.zero_le _⟩]
    exact ⟨g, hg⟩

theorem putText_putBlob_unless (f : Frame) (s : String) (b : Bytes) :
    DoneUnless (oversize? s b) (do let f ← f.putText "filename" s; f.putBlob "payload" b) := by
  rcases Nat.lt_or_ge maxText (Bytes.ofText s).size with hlong | hs
  · have htext : f.putText "filename" s = .error _ := if_neg (Nat.not_le.mpr hlong)
    rw [oversize_of_text hlong, htext]
    rfl
  · rcases Nat.lt_or_ge maxPayload b.size with hlarge | hb
    · -- The text was put, and the size of the blob is refused.
      obtain ⟨f₁, hf₁, -⟩ := putText_of_le "filename" hs f
      have hsize : checkedSize "payload" b.size = .error _ := if_neg (Nat.not_le.mpr hlarge)
      rw [oversize_of_payload hs hlarge, hf₁]
      change f₁.putBlob "payload" b = .error _
      rw [putBlob, hsize]
      rfl
    · obtain ⟨g, hg, -⟩ := putText_putBlob "filename" "payload" hs hb f
      rw [oversize_eq_none.mpr ⟨hs, hb⟩]
      exact ⟨g, hg⟩

end Frame

theorem RequestBody.put_unless (f : Frame) (body : RequestBody) :
    DoneUnless (oversize? body.text body.payload) (body.put f) := by
  cases body with
  | backup filename payload => exact f.putText_putBlob_unless filename payload
  | restore filename => exact f.putText_unless filename
  | delete filename => exact f.putText_unless filename
  | list => exact ⟨f, rfl⟩

theorem ResponseBody.put_unless (f : Frame) (body : ResponseBody) :
    DoneUnless (oversize? body.text body.payload) (body.put f) := by
  cases body with
  | restored filename payload => exact f.putText_putBlob_unless filename payload
  | listed label payload => exact f.putText_putBlob_unless label payload
  | done filename => exact f.putText_unless filename
  | fileNotFound filename => exact f.putText_unless filename
  | noBackupFiles => exact ⟨f, rfl⟩
  | serverError => exact ⟨f, rfl⟩

/-- A request is encoded unless its filename or its payload is too long. -/
theorem Request.encode_unless (r : Request) :
    DoneUnless (oversize? r.body.text r.body.payload) r.encode := (r.body.put_unless _).map _

theorem Response.encode_unless (r : Response) :
    DoneUnless (oversize? r.body.text r.body.payload) r.encode := (r.body.put_unless _).map _

end BackupVault
