import BackupVault.Proofs.Wire.Canonical

/-!
# What is checked before more is read

The header of a message is judged field by field: what is wrong with the version, the code or a
length is told when this field was read, and no byte after it is taken off the stream.  So what a
reader does with bad bytes is settled by these bytes.  What it does with a whole stream is settled
by the bytes and the end of the stream; how they are cut into reads never shows.

## Overview

- `Refuses`: a reading fails on these bytes, and takes no others
- `Reader.Alike`: the same bytes before the same end, cut in any way
- `Header`, `Format.Layout`: where the fields of a header lie, and how they are read
- `Format.ChecksFirst`: the order of the checks; `formats_checkFirst`: it is kept in all formats
-/

set_option autoImplicit false

namespace BackupVault

/-! ## §1 Refusals -/

/-- The reading fails in this way on these bytes, and takes them and no others.  The stream may go
on after them, end and be cut in any way: on any two streams that begin with these bytes the
reading comes to the same. -/
def Refuses {α : Type} (x : Read α) (b : Bytes) (e : WireError) : Prop :=
  ∀ (r : Reader) (rest : Bytes), r.unread = b ++ rest → ∃ r', x r = .error e r' ∧ r.Passed b r'

section Refusals

variable {α β : Type} {x : Read α} {f : α → Read β} {b c : Bytes} {a : α} {e : WireError}

theorem Refuses.throw (e : WireError) : Refuses (throw e : Read α) ByteArray.empty e :=
  fun r _ _ => ⟨r, rfl, .refl r⟩

/-- Nothing is read after a refusal. -/
theorem Refuses.bind (hx : Refuses x b e) : Refuses (x >>= f) b e := by
  intro r rest h
  obtain ⟨r', hr', p⟩ := hx r rest h
  exact ⟨r', bind_run_error hr', p⟩

/-- A refusal after a part that was read. -/
theorem Takes.bind_refuses (hx : Takes x b a) (hf : Refuses (f a) c e) :
    Refuses (x >>= f) (b ++ c) e := by
  intro r rest h
  rw [ByteArray.append_assoc] at h
  obtain ⟨r₁, hr₁, p₁⟩ := hx.whole r _ h
  obtain ⟨r₂, hr₂, p₂⟩ := hf r₁ rest (p₁.unread_eq h)
  exact ⟨r₂, (bind_run_ok hr₁).trans hr₂, p₁.trans p₂⟩

theorem Takes.bind_refuses_at_once (hx : Takes x b a) (hf : Refuses (f a) ByteArray.empty e) :
    Refuses (x >>= f) b e := by
  have h := hx.bind_refuses hf
  rwa [ByteArray.append_empty] at h

namespace Reader

theorem refuses_expectVersion {expected actual : UInt8} (h : actual ≠ expected) :
    Refuses (expectVersion expected) (Bytes.ofList [actual])
      (.versionMismatch expected actual) := by
  apply (takes_u8 actual).bind_refuses_at_once
  rw [if_neg h]
  exact .throw _

theorem refuses_decodeCode {γ : Type} {table : γ → Option α} {unknown : γ → WireError} {raw : γ}
    (h : table raw = none) : Refuses (decodeCode table unknown raw) ByteArray.empty
      (unknown raw) := by
  simp only [decodeCode, h]
  exact .throw _

theorem refuses_bytes {n : Nat} (h : maxPayload < n) :
    Refuses (bytes n) ByteArray.empty (.payloadTooLarge n) := by
  rw [bytes, if_pos h]
  exact .throw _

/-- A length that no field may have is refused before the field is read. -/
theorem refuses_length {size : Bytes} (hsize : size.size = 4) {f : UInt32 → Read β}
    (hf : ∀ n : UInt32, n.toNat = size.toNatLE →
      Refuses (f n) ByteArray.empty (.payloadTooLarge size.toNatLE)) :
    Refuses (u32 >>= f) size (.payloadTooLarge size.toNatLE) :=
  (takes_u32_of_size hsize).bind_refuses_at_once
    (hf _ (UInt32.toNat_ofNat_of_lt' (toNatLE_lt hsize)))

theorem refuses_blob {size : Bytes} (hsize : size.size = 4) (h : maxPayload < size.toNatLE) :
    Refuses blob size (.payloadTooLarge size.toNatLE) := by
  apply refuses_length hsize
  intro n hn
  rw [hn]
  exact refuses_bytes h

theorem refuses_block {between size : Bytes} (hbetween : between = ByteArray.empty)
    (hsize : size.size = 4) (h : maxPayload < size.toNatLE) (f : UInt32 → Bytes → Read β) :
    Refuses (u32 >>= fun n => block n >>= f n) (between ++ size)
      (.payloadTooLarge size.toNatLE) := by
  rw [hbetween, ByteArray.empty_append]
  apply refuses_length hsize
  intro n hn
  apply Refuses.bind
  rw [block, hn]
  exact refuses_bytes h

end Reader

end Refusals

/-! ## §2 Streams that differ in their cuts -/

/-- The readers have the same bytes before them and the same end, and have counted as many bytes;
their streams may be cut in different ways and may have held different bytes before. -/
structure Reader.Alike (r s : Reader) : Prop where
  unread : r.unread = s.unread
  consumed : r.consumed = s.consumed
  ending : r.source.ending = s.source.ending

namespace Reader

variable {α : Type}

/-- The bytes that a reading has passed leave alike what was alike. -/
theorem Alike.passed {r s r' s' : Reader} {b : Bytes} (h : r.Alike s) (p : r.Passed b r')
    (q : s.Passed b s') : r'.Alike s' where
  unread := p.unread_eq (h.unread.trans q.unread) |>.symm ▸ rfl
  consumed := by rw [p.consumed, q.consumed, h.consumed]
  ending := by rw [p.ending, q.ending, h.ending]

theorem agrees_fill (n : Nat) : Agrees Alike (fill n) := by
  intro r s h
  rcases Nat.lt_or_ge r.unread.size n with hshort | hfull
  · -- Both streams run out.
    obtain ⟨r', hr', hr, hrc, hre⟩ := fill_exhausts hshort
    obtain ⟨s', hs', hs, hsc, hse⟩ := fill_exhausts (h.unread ▸ hshort)
    rw [hr', hs', h.ending]
    refine ⟨rfl, ⟨hr.trans hs.symm, ?_, ?_⟩⟩
    · exact hrc.trans (h.consumed.trans hsc.symm)
    · exact hre.trans (h.ending.trans hse.symm)
  · -- Both reads are filled, with the same bytes.
    have hcut := (Bytes.extract_append_extract r.unread hfull).symm
    have hsize : (r.unread.extract 0 n).size = n := by
      rw [ByteArray.size_extract]
      omega
    obtain ⟨r', hr', p⟩ := fill_of_unread hcut
    obtain ⟨s', hs', q⟩ := fill_of_unread (h.unread.symm.trans hcut)
    rw [hsize] at hr' hs'
    rw [hr', hs']
    exact ⟨rfl, h.passed p q⟩

theorem agrees_map {β : Type} {x : Read α} (hx : Agrees Alike x) (f : α → β) :
    Agrees Alike (x >>= fun a => pure (f a)) := hx.bind fun a => .pure (f a)

theorem agrees_u8 : Agrees Alike u8 := agrees_map (agrees_fill 1) _

theorem agrees_u16 : Agrees Alike u16 := agrees_map (agrees_fill 2) _

theorem agrees_u32 : Agrees Alike u32 := agrees_map (agrees_fill 4) _

theorem agrees_clientId : Agrees Alike clientId := agrees_map (agrees_fill 16) _

theorem agrees_bytes (n : Nat) : Agrees Alike (bytes n) := by
  unfold bytes
  split
  · exact .throw _
  · exact agrees_fill n

theorem agrees_text (field : String) : Agrees Alike (text field) := by
  apply agrees_u16.bind
  intro n
  apply (agrees_bytes n.toNat).bind
  intro b
  cases String.fromUTF8? b with
  | some s => exact .pure s
  | none => exact .throw _

theorem agrees_blob : Agrees Alike blob := agrees_u32.bind fun n => agrees_bytes n.toNat

theorem agrees_expectVersion (v : UInt8) : Agrees Alike (expectVersion v) := by
  apply agrees_u8.bind
  intro w
  by_cases h : w = v
  · rw [if_pos h]
    exact .pure w
  · rw [if_neg h]
    exact .throw _

theorem agrees_decodeCode {γ : Type} (table : γ → Option α) (unknown : γ → WireError) (raw : γ) :
    Agrees Alike (decodeCode table unknown raw) := by
  unfold decodeCode
  cases table raw with
  | some code => exact .pure code
  | none => exact .throw _

theorem agrees_lift (x : Except WireError α) : Agrees Alike (lift x) := by
  cases x with
  | ok a => exact .pure a
  | error e => exact .throw e

/-- Message after message, the same is read and the same is left, by induction on their number. -/
theorem each_of_alike {x : Read α} (hx : Agrees Alike x) (count : Nat) {r s : Reader}
    (h : r.Alike s) :
    (each x count r).map (fun m => (m.1, m.2.consumed, m.2.unread)) =
      (each x count s).map (fun m => (m.1, m.2.consumed, m.2.unread)) := by
  induction count generalizing r s with
  | zero => rfl
  | succ count ih =>
    obtain ⟨htold, hafter⟩ := hx r s h
    cases hr : outcome (x r) with
    | ok a =>
      rw [each_of_ok (eq_ok_of_outcome hr), each_of_ok (eq_ok_of_outcome (htold ▸ hr))]
      simp only [List.map_cons, ih hafter, hafter.consumed, hafter.unread]
    | error e =>
      rw [each_of_error (eq_error_of_outcome hr), each_of_error (eq_error_of_outcome (htold ▸ hr))]
      simp only [List.map_cons, List.map_nil, hafter.consumed, hafter.unread]

end Reader

/-! ## §3 Headers -/

/-- Where the fields lie that a message begins with, and which codes there are. -/
structure Header where
  /-- The number of bytes up to the version and with it. -/
  versionEnd : Nat
  /-- The number of bytes up to the code and with it. -/
  codeEnd : Nat
  known : List Nat
  /-- The error that tells of any other code. -/
  unknown : Nat → WireError
  /-- The codes of the messages that hold a payload with its length in four bytes. -/
  sized : List Nat
  /-- What may stand between such a code and the length. -/
  Between : Bytes → Prop

namespace Header

/-- A text that a message can hold, after its length in two bytes. -/
def IsText (b : Bytes) : Prop :=
  ∃ s : String, (Bytes.ofText s).size ≤ maxText ∧
    b = Bytes.ofNatLE 2 (Bytes.ofText s).size ++ Bytes.ofText s

def requests : Header where
  versionEnd := 5
  codeEnd := 6
  known := [100, 200, 201, 202]
  unknown raw := .unknownOpcode (UInt8.ofNat raw)
  sized := [100]
  Between := IsText

def responses : Header where
  versionEnd := 1
  codeEnd := 3
  known := [210, 211, 212, 1001, 1002, 1003]
  unknown raw := .unknownResponseCode (UInt16.ofNat raw)
  sized := [210, 211]
  Between := IsText

/-- The length of the payload ends after 23 bytes, right after the code. -/
def clientMessages : Header where
  versionEnd := 17
  codeEnd := 19
  known := [1100, 1101, 1103, 1104, 1105, 1106]
  unknown raw := .unknownMessageCode (UInt16.ofNat raw)
  sized := [1100, 1101, 1103, 1104, 1105, 1106]
  Between b := b = ByteArray.empty

/-- The length of the payload ends after 7 bytes, right after the code. -/
def serverMessages : Header where
  versionEnd := 1
  codeEnd := 3
  known := [2100, 2101, 2102, 2103, 2104]
  unknown raw := .unknownMessageCode (UInt16.ofNat raw)
  sized := [2100, 2101, 2102, 2103, 2104]
  Between b := b = ByteArray.empty

end Header

namespace Format

variable {α : Type}

/-- What is wrong with a header is told as soon as it was read, whatever the rest of the stream
holds, and the cuts of the stream never show. -/
structure ChecksFirst (F : Format α) (h : Header) : Prop where
  version : ∀ (expected actual : UInt8) (front : Bytes), front.size + 1 = h.versionEnd →
    actual ≠ expected →
    Refuses (F.decode expected) (front ++ Bytes.ofList [actual])
      (.versionMismatch expected actual)
  code : ∀ (version : UInt8) (front raw : Bytes), front.size + 1 = h.versionEnd →
    h.versionEnd + raw.size = h.codeEnd → raw.toNatLE ∉ h.known →
    Refuses (F.decode version) (front ++ (Bytes.ofList [version] ++ raw)) (h.unknown raw.toNatLE)
  length : ∀ (version : UInt8) (front raw between size : Bytes), front.size + 1 = h.versionEnd →
    h.versionEnd + raw.size = h.codeEnd → raw.toNatLE ∈ h.sized → h.Between between →
    size.size = 4 → maxPayload < size.toNatLE →
    Refuses (F.decode version) (front ++ (Bytes.ofList [version] ++ (raw ++ (between ++ size))))
      (.payloadTooLarge size.toNatLE)
  /-- One message, with what is left of the stream. -/
  cuts : ∀ (version : UInt8) (r s : Reader), r.Alike s →
    outcome (F.decode version r) = outcome (F.decode version s) ∧
      (after (F.decode version r)).Alike (after (F.decode version s))
  /-- Any number of messages, with what is left of the stream after each. -/
  cutsOfMany : ∀ (version : UInt8) (count : Nat) (r s : Reader), r.Alike s →
    (Reader.each (F.decode version) count r).map (fun m => (m.1, m.2.consumed, m.2.unread)) =
      (Reader.each (F.decode version) count s).map (fun m => (m.1, m.2.consumed, m.2.unread))

/-- How a format reads a header: bytes that are not judged, the version, the code, and then what
the code says. -/
structure Layout (F : Format α) (h : Header) where
  Lead : Type
  Raw : Type
  Code : Type
  lead : Read Lead
  raw : Read Raw
  table : Raw → Option Code
  unknown : Raw → WireError
  body : Lead → UInt8 → Code → Read α
  decode_eq : ∀ v, F.decode v = do
    let i ← lead
    let w ← Reader.expectVersion v
    let c ← Reader.decodeCode table unknown (← raw)
    body i w c
  takes_lead : ∀ b : Bytes, b.size + 1 = h.versionEnd → ∃ i, Takes lead b i
  /-- The code is looked up as the number that its bytes make. -/
  value : Nat → Raw
  takes_raw : ∀ b : Bytes, h.versionEnd + b.size = h.codeEnd → Takes raw b (value b.toNatLE)
  table_unknown : ∀ b : Bytes, h.versionEnd + b.size = h.codeEnd → b.toNatLE ∉ h.known →
    table (value b.toNatLE) = none
  unknown_eq : ∀ n, unknown (value n) = h.unknown n
  table_sized : ∀ n ∈ h.sized, ∃ c, table (value n) = some c ∧ ∀ (between size : Bytes) i w,
    h.Between between → size.size = 4 → maxPayload < size.toNatLE →
    Refuses (body i w c) (between ++ size) (.payloadTooLarge size.toNatLE)
  agrees_lead : Agrees Reader.Alike lead
  agrees_raw : Agrees Reader.Alike raw
  agrees_body : ∀ i w c, Agrees Reader.Alike (body i w c)

namespace Layout

variable {F : Format α} {h : Header}

theorem agrees (L : F.Layout h) (v : UInt8) : Agrees Reader.Alike (F.decode v) := by
  rw [L.decode_eq]
  apply L.agrees_lead.bind
  intro i
  apply (Reader.agrees_expectVersion v).bind
  intro w
  apply L.agrees_raw.bind
  intro raw
  exact (Reader.agrees_decodeCode L.table L.unknown raw).bind (L.agrees_body i w)

/-- Whoever reads a header in this way checks it first. -/
theorem checksFirst (L : F.Layout h) : F.ChecksFirst h where
  version expected actual front hfront hne := by
    obtain ⟨i, hi⟩ := L.takes_lead front hfront
    rw [L.decode_eq]
    exact hi.bind_refuses (Reader.refuses_expectVersion hne).bind
  code version front raw hfront hraw hunknown := by
    obtain ⟨i, hi⟩ := L.takes_lead front hfront
    have hcode : Refuses (Reader.decodeCode L.table L.unknown (L.value raw.toNatLE))
        ByteArray.empty (h.unknown raw.toNatLE) := by
      rw [← L.unknown_eq]
      exact Reader.refuses_decodeCode (L.table_unknown raw hraw hunknown)
    rw [L.decode_eq]
    apply hi.bind_refuses
    apply (Reader.takes_expectVersion version).bind_refuses
    exact (L.takes_raw raw hraw).bind_refuses_at_once hcode.bind
  length version front raw between size hfront hraw hsized hbetween hsize hlarge := by
    obtain ⟨i, hi⟩ := L.takes_lead front hfront
    obtain ⟨c, hc, hbody⟩ := L.table_sized raw.toNatLE hsized
    rw [L.decode_eq]
    apply hi.bind_refuses
    apply (Reader.takes_expectVersion version).bind_refuses
    apply (L.takes_raw raw hraw).bind_refuses
    -- Looking up the code takes no bytes.
    have hfound : Takes (Reader.decodeCode L.table L.unknown (L.value raw.toNatLE))
        ByteArray.empty c := Reader.takes_decodeCode hc
    have hlooked := hfound.bind_refuses (hbody between size i version hbetween hsize hlarge)
    rwa [ByteArray.empty_append] at hlooked
  cuts version := L.agrees version
  cutsOfMany version count _ _ halike := Reader.each_of_alike (L.agrees version) count halike

end Layout

end Format

/-! ## §4 The four formats -/

/-- A word has no code if the words of all codes are known and it is none of them. -/
theorem eq_none_of_not_mem {γ κ : Type} {table : κ → Option γ} {word : γ → κ} (number : κ → Nat)
    (known : List Nat) (hword : ∀ {w c}, table w = some c → word c = w)
    (hknown : ∀ c, number (word c) ∈ known) {w : κ} (h : number w ∉ known) : table w = none := by
  cases hc : table w with
  | none => rfl
  | some c => exact absurd (hword hc ▸ hknown c) h

/-- The same for words of two bytes that were read. -/
theorem eq_none_of_number_not_mem {γ : Type} {table : UInt16 → Option γ} {word : γ → UInt16}
    {known : List Nat} {b : Bytes} (hb : b.size = 2)
    (hword : ∀ {w c}, table w = some c → word c = w) (hknown : ∀ c, (word c).toNat ∈ known)
    (h : b.toNatLE ∉ known) : table (UInt16.ofNat b.toNatLE) = none := by
  apply eq_none_of_not_mem UInt16.toNat known hword hknown
  rwa [UInt16.toNat_ofNat_of_lt' (Reader.toNatLE_lt hb)]

theorem Opcode.mem_known (c : Opcode) : c.toByte.toNat ∈ Header.requests.known := by
  cases c <;> decide

theorem ResponseCode.mem_known (c : ResponseCode) : c.toWord.toNat ∈ Header.responses.known := by
  cases c <;> decide

theorem ClientCode.mem_known (c : ClientCode) : c.toWord.toNat ∈ Header.clientMessages.known := by
  cases c <;> decide

theorem ServerCode.mem_known (c : ServerCode) : c.toWord.toNat ∈ Header.serverMessages.known := by
  cases c <;> decide

section Bodies

variable {β : Type} {between size : Bytes}

/-- A text and a blob after it are refused for the length of the blob. -/
theorem Reader.refuses_textAndBlob (hbetween : Header.IsText between) (hsize : size.size = 4)
    (hlarge : maxPayload < size.toNatLE) (label : String) (f : String → Bytes → Read β) :
    Refuses (do let s ← text label; let b ← blob; f s b) (between ++ size)
      (.payloadTooLarge size.toNatLE) := by
  obtain ⟨s, htext, rfl⟩ := hbetween
  exact (takes_text htext label).bind_refuses (refuses_blob hsize hlarge).bind

theorem RequestBody.agrees_read (c : Opcode) : Agrees Reader.Alike (RequestBody.read c) := by
  cases c with
  | backup => exact (Reader.agrees_text _).bind fun _ => Reader.agrees_map Reader.agrees_blob _
  | restore | delete => exact Reader.agrees_map (Reader.agrees_text _) _
  | list => exact .pure _

theorem ResponseBody.agrees_read (c : ResponseCode) :
    Agrees Reader.Alike (ResponseBody.read c) := by
  cases c with
  | restored | listed =>
    exact (Reader.agrees_text _).bind fun _ => Reader.agrees_map Reader.agrees_blob _
  | done | fileNotFound => exact Reader.agrees_map (Reader.agrees_text _) _
  | noBackupFiles | serverError => exact .pure _

/-- A block is decoded on its own, once it was read. -/
theorem Reader.agrees_block {γ : Type} (decode : Bytes → UInt32 → Except WireError γ)
    (f : γ → β) :
    Agrees Alike (do
      let declared ← u32
      let content ← block declared
      let body ← lift (decode content declared)
      return f body) := by
  apply agrees_u32.bind
  intro declared
  apply (agrees_bytes declared.toNat).bind
  intro content
  exact agrees_map (agrees_lift (decode content declared)) f

end Bodies

theorem ClientCode.exists_of_mem {n : Nat} (h : n ∈ Header.clientMessages.known) :
    ∃ c, ofWord? (UInt16.ofNat n) = some c := by
  simp only [Header.clientMessages, List.mem_cons, List.not_mem_nil, or_false] at h
  rcases h with rfl | rfl | rfl | rfl | rfl | rfl <;> exact ⟨_, rfl⟩

theorem ServerCode.exists_of_mem {n : Nat} (h : n ∈ Header.serverMessages.known) :
    ∃ c, ofWord? (UInt16.ofNat n) = some c := by
  simp only [Header.serverMessages, List.mem_cons, List.not_mem_nil, or_false] at h
  rcases h with rfl | rfl | rfl | rfl | rfl <;> exact ⟨_, rfl⟩

namespace Format

def requestLayout : requests.Layout Header.requests where
  Lead := UserId
  Raw := UInt8
  Code := Opcode
  lead := Reader.u32
  raw := Reader.u8
  table := Opcode.ofByte?
  unknown := .unknownOpcode
  body user version opcode := do return { user, version, body := ← RequestBody.read opcode }
  decode_eq _ := rfl
  takes_lead b hb := ⟨_, Reader.takes_u32_of_size (Nat.succ.inj hb)⟩
  value := UInt8.ofNat
  takes_raw b hb := Reader.takes_u8_of_size (Nat.add_left_cancel hb)
  table_unknown b hb h := by
    have hsize : b.size = 1 := Nat.add_left_cancel hb
    apply eq_none_of_not_mem UInt8.toNat _ Opcode.toByte_of_ofByte Opcode.mem_known
    rwa [UInt8.toNat_ofNat_of_lt' (Reader.toNatLE_lt hsize)]
  unknown_eq _ := rfl
  table_sized n hn := by
    obtain rfl := List.mem_singleton.mp hn
    refine ⟨.backup, rfl, ?_⟩
    intro between size user version hbetween hsize hlarge
    exact (Reader.refuses_textAndBlob hbetween hsize hlarge "filename" _).bind
  agrees_lead := Reader.agrees_u32
  agrees_raw := Reader.agrees_u8
  agrees_body _ _ c := Reader.agrees_map (RequestBody.agrees_read c) _

/-- Nothing stands before the version. -/
theorem takes_nothing {b : Bytes} (hb : b.size + 1 = 1) :
    Takes (pure () : Read Unit) b () := by
  obtain rfl := ByteArray.size_eq_zero_iff.mp (Nat.succ.inj hb)
  exact .pure ()

def responseLayout : responses.Layout Header.responses where
  Lead := Unit
  Raw := UInt16
  Code := ResponseCode
  lead := pure ()
  raw := Reader.u16
  table := ResponseCode.ofWord?
  unknown := .unknownResponseCode
  body _ version code := do return { version, body := ← ResponseBody.read code }
  decode_eq _ := rfl
  takes_lead b hb := ⟨(), takes_nothing hb⟩
  value := UInt16.ofNat
  takes_raw b hb := Reader.takes_u16_of_size (Nat.add_left_cancel hb)
  table_unknown _ hb := eq_none_of_number_not_mem (Nat.add_left_cancel hb)
    ResponseCode.toWord_of_ofWord ResponseCode.mem_known
  unknown_eq _ := rfl
  table_sized n hn := by
    -- Both kinds of answer that hold a payload begin with a text.
    have hread : ∃ (c : ResponseCode) (mk : String → Bytes → ResponseBody),
        ResponseCode.ofWord? (UInt16.ofNat n) = some c ∧ ResponseBody.read c = (do
          let s ← Reader.text "filename"
          let b ← Reader.blob
          return mk s b) := by
      simp only [Header.responses, List.mem_cons, List.not_mem_nil, or_false] at hn
      rcases hn with rfl | rfl
      · exact ⟨.restored, .restored, rfl, rfl⟩
      · exact ⟨.listed, .listed, rfl, rfl⟩
    obtain ⟨c, mk, hc, hread⟩ := hread
    refine ⟨c, hc, ?_⟩
    intro between size _ version hbetween hsize hlarge
    rw [hread]
    exact (Reader.refuses_textAndBlob hbetween hsize hlarge "filename" _).bind
  agrees_lead := .pure ()
  agrees_raw := Reader.agrees_u16
  agrees_body _ _ c := Reader.agrees_map (ResponseBody.agrees_read c) _

def clientLayout : clientMessages.Layout Header.clientMessages where
  Lead := ClientId
  Raw := UInt16
  Code := ClientCode
  lead := Reader.clientId
  raw := Reader.u16
  table := ClientCode.ofWord?
  unknown := .unknownMessageCode
  body sender version code := do
    let declared ← Reader.u32
    let block ← Reader.block declared
    let body ← Reader.lift (Reader.decodeBlock (ClientBody.read code) block declared)
    return { sender, version, body }
  decode_eq _ := rfl
  takes_lead b hb := ⟨⟨b, Nat.succ.inj hb⟩, Reader.takes_clientId ⟨b, Nat.succ.inj hb⟩⟩
  value := UInt16.ofNat
  takes_raw b hb := Reader.takes_u16_of_size (Nat.add_left_cancel hb)
  table_unknown _ hb := eq_none_of_number_not_mem (Nat.add_left_cancel hb)
    ClientCode.toWord_of_ofWord ClientCode.mem_known
  unknown_eq _ := rfl
  table_sized n hn := by
    obtain ⟨c, hc⟩ := ClientCode.exists_of_mem hn
    exact ⟨c, hc, fun _ _ _ _ hnone hsize hlarge => Reader.refuses_block hnone hsize hlarge _⟩
  agrees_lead := Reader.agrees_clientId
  agrees_raw := Reader.agrees_u16
  agrees_body _ _ c := Reader.agrees_block (Reader.decodeBlock (ClientBody.read c)) _

def serverLayout : serverMessages.Layout Header.serverMessages where
  Lead := Unit
  Raw := UInt16
  Code := ServerCode
  lead := pure ()
  raw := Reader.u16
  table := ServerCode.ofWord?
  unknown := .unknownMessageCode
  body _ version code := do
    let declared ← Reader.u32
    let block ← Reader.block declared
    let body ← Reader.lift (Reader.decodeBlock (ServerBody.read code) block declared)
    return { version, body }
  decode_eq _ := rfl
  takes_lead b hb := ⟨(), takes_nothing hb⟩
  value := UInt16.ofNat
  takes_raw b hb := Reader.takes_u16_of_size (Nat.add_left_cancel hb)
  table_unknown _ hb := eq_none_of_number_not_mem (Nat.add_left_cancel hb)
    ServerCode.toWord_of_ofWord ServerCode.mem_known
  unknown_eq _ := rfl
  table_sized n hn := by
    obtain ⟨c, hc⟩ := ServerCode.exists_of_mem hn
    exact ⟨c, hc, fun _ _ _ _ hnone hsize hlarge => Reader.refuses_block hnone hsize hlarge _⟩
  agrees_lead := .pure ()
  agrees_raw := Reader.agrees_u16
  agrees_body _ _ c := Reader.agrees_block (Reader.decodeBlock (ServerBody.read c)) _

end Format

/-- **The header is checked first, and the cuts of a stream never show**, in all four formats. -/
theorem formats_checkFirst :
    Format.requests.ChecksFirst .requests ∧ Format.responses.ChecksFirst .responses ∧
      Format.clientMessages.ChecksFirst .clientMessages ∧
      Format.serverMessages.ChecksFirst .serverMessages :=
  ⟨Format.requestLayout.checksFirst, Format.responseLayout.checksFirst,
    Format.clientLayout.checksFirst, Format.serverLayout.checksFirst⟩

end BackupVault
