import BackupVault.Proofs.Wire.Canonical

/-!
# How a block of declared length is judged

The bodies of the upload formats lie in blocks.  Once the bytes of a block are there, reading the
message takes them all, whatever they are; it succeeds exactly if they are what the body would be
encoded as, and otherwise says that the declared length is wrong.  One kind of block is judged in
another way: an upload that states a content larger than any payload is refused for this size,
before the end of the block is looked at.

## Overview

- `Reader.Confined`: a reading that fails only at the end of the stream
- `ClientBody.confined_read`, `ServerBody.confined_read`: the bodies are read in this way
- `ClientCode.Overstates`: the blocks that are refused for a size inside them
- `Format.Judges`: what is told of a block; `blocks_judged`: of every block in both formats
-/

set_option autoImplicit false

namespace BackupVault

/-! ## §1 Readings that fail at the end -/

namespace Reader

/-- From here on the reading takes bytes in order, and the one way for it to fail is that a field
runs past the end of the stream; the fields before that one are counted as read. -/
structure Confined {α : Type} (x : Read α) (r : Reader) : Prop where
  ok : ∀ a r', x r = .ok a r' → ∃ c, r.Passed c r'
  error : ∀ e r', x r = .error e r' → ∃ n c more, e = .shortRead n ∧
    r.unread = c ++ more ∧ r'.consumed = r.consumed + c.size

namespace Confined

variable {α β : Type} {x : Read α} {r : Reader}

theorem pure (a : α) (r : Reader) : Confined (Pure.pure a) r where
  ok _ _ h := by
    cases h
    exact ⟨ByteArray.empty, .refl r⟩
  error _ _ h := nomatch h

theorem bind {f : α → Read β} (hx : Confined x r)
    (hf : ∀ a r', x r = .ok a r' → Confined (f a) r') : Confined (x >>= f) r where
  ok b r' h := by
    obtain ⟨a, r₁, hr₁, h⟩ := bind_run_eq_ok.mp h
    obtain ⟨c₁, p₁⟩ := hx.ok a r₁ hr₁
    obtain ⟨c₂, p₂⟩ := (hf a r₁ hr₁).ok b r' h
    exact ⟨c₁ ++ c₂, p₁.trans p₂⟩
  error e r' h := by
    rcases bind_run_eq_error.mp h with h | ⟨a, r₁, hr₁, h⟩
    · exact hx.error e r' h
    · -- What the first reading took counts, and what the second one took before it failed.
      obtain ⟨c₁, p₁⟩ := hx.ok a r₁ hr₁
      obtain ⟨n, c₂, more, rfl, hcut, hcount⟩ := (hf a r₁ hr₁).error e r' h
      refine ⟨n, c₁ ++ c₂, more, rfl, ?_, ?_⟩
      · rw [p₁.unread, hcut, ByteArray.append_assoc]
      · rw [hcount, p₁.consumed, ByteArray.size_append, Nat.add_assoc]

theorem map {f : α → β} (hx : Confined x r) : Confined (x >>= fun a => Pure.pure (f a)) r :=
  hx.bind fun a r' _ => pure (f a) r'

end Confined

variable {r : Reader}

theorem confined_fill (n : Nat) (h : r.source.ending = .closed) : Confined (fill n) r where
  ok b r' hr := ⟨b, (of_fill hr).2⟩
  error e _ hr := by
    refine ⟨n, ByteArray.empty, r.unread, ?_⟩
    obtain ⟨reads, hskip⟩ := r.source.skip_eq n
    simp only [fill, hskip] at hr
    split at hr
    · cases hr
    · cases hr
      rw [h]
      exact ⟨rfl, ByteArray.empty_append.symm, rfl⟩

theorem confined_u32 (h : r.source.ending = .closed) : Confined u32 r := (confined_fill 4 h).map

theorem confined_name (h : r.source.ending = .closed) : Confined name r :=
  (confined_fill nameCapacity h).map

theorem confined_clientId (h : r.source.ending = .closed) : Confined clientId r :=
  (confined_fill 16 h).map

theorem confined_bytes {n : Nat} (hn : n ≤ maxPayload) (h : r.source.ending = .closed) :
    Confined (bytes n) r := by
  rw [bytes, if_neg (Nat.not_lt.mpr hn)]
  exact confined_fill n h

theorem confined_rest (hr : r.unread.size ≤ maxPayload) (h : r.source.ending = .closed) :
    Confined rest r where
  ok b _ hrest := ⟨b, of_rest hrest⟩
  error e := (confined_bytes (size_unread r ▸ hr) h).error e

theorem Passed.size_le {r' : Reader} {c : Bytes} (p : r.Passed c r') :
    r'.unread.size ≤ r.unread.size := by
  rw [p.unread, ByteArray.size_append]
  exact Nat.le_add_left ..

/-- A block that was decoded by such a reading is accepted, or its length is found to be wrong. -/
theorem decodeBlock_of_confined {α : Type} {x : Read α} {b : Bytes} (h : Confined x (ofBytes b))
    (declared : UInt32) : (∃ a, decodeBlock x b declared = .ok a) ∨
      ∃ consumed ≤ b.size, decodeBlock x b declared = .error (.lengthMismatch declared consumed) := by
  -- What was read lies in the block.
  have hcount : ∀ {c more : Bytes} {r' : Reader}, (ofBytes b).unread = c ++ more →
      r'.consumed = (ofBytes b).consumed + c.size → r'.consumed ≤ b.size := by
    intro c more r' hcut hcount
    rw [unread_ofBytes] at hcut
    rw [hcount, show (ofBytes b).consumed = 0 from rfl, hcut, ByteArray.size_append]
    omega
  cases hx : x (ofBytes b) with
  | error e r' =>
    obtain ⟨n, c, more, rfl, hcut, hconsumed⟩ := h.error e r' hx
    exact .inr ⟨r'.consumed, hcount hcut hconsumed, by simp only [decodeBlock, hx, finish]⟩
  | ok a r' =>
    obtain ⟨c, p⟩ := h.ok a r' hx
    by_cases hnone : r'.remaining = 0
    · exact .inl ⟨a, by simp only [decodeBlock, hx, finish, hnone, ↓reduceIte]⟩
    · exact .inr ⟨r'.consumed, hcount p.unread p.consumed,
        by simp only [decodeBlock, hx, finish, hnone, ↓reduceIte]⟩

end Reader

/-! ## §2 Bodies -/

/-- The block of an upload whose content is stated to have `n` bytes, when no payload may have as
many. -/
def ClientCode.Overstates (code : ClientCode) (b : Bytes) (n : Nat) : Prop :=
  code = .upload ∧ maxPayload < n ∧ ∃ (size : UInt32) (filename : Name) (more : Bytes),
    size.toNat = n ∧ b = Bytes.ofNatLE 4 size.toNat ++ (filename.bytes ++ more)

section Bodies

variable {r : Reader}

theorem ClientBody.confined_read {code : ClientCode} (hend : r.source.ending = .closed)
    (hsize : r.unread.size ≤ maxPayload) (hstated : ∀ n, ¬ code.Overstates r.unread n) :
    Reader.Confined (ClientBody.read code) r := by
  cases code with
  | registration | accept | retry | giveUp => exact (Reader.confined_name hend).map
  | publicKey =>
    refine (Reader.confined_name hend).bind fun name r₁ hname => ?_
    have p := Reader.of_name hname
    exact (Reader.confined_rest (Nat.le_trans p.size_le hsize) (p.ending.trans hend)).map
  | upload =>
    refine (Reader.confined_u32 hend).bind fun size r₁ hr₁ => ?_
    have p₁ := Reader.of_u32 hr₁
    refine (Reader.confined_name (p₁.ending.trans hend)).bind fun filename r₂ hr₂ => ?_
    have p₂ := Reader.of_name hr₂
    have hend₂ := p₂.ending.trans (p₁.ending.trans hend)
    -- Both fields are there, so that the size in front of them is within the limit.
    have hle : size.toNat ≤ maxPayload := by
      refine Nat.not_lt.mp fun hlt => hstated size.toNat ⟨rfl, hlt, size, filename, r₂.unread, rfl, ?_⟩
      rw [p₁.unread, p₂.unread]
    exact (Reader.confined_bytes hle hend₂).map

theorem ServerBody.confined_read {code : ServerCode} (hend : r.source.ending = .closed)
    (hsize : r.unread.size ≤ maxPayload) : Reader.Confined (ServerBody.read code) r := by
  cases code with
  | registered => exact (Reader.confined_clientId hend).map
  | refused | success => exact .pure _ r
  | sessionKey =>
    refine (Reader.confined_clientId hend).bind fun id r₁ hid => ?_
    have p := Reader.of_clientId hid
    exact (Reader.confined_rest (Nat.le_trans p.size_le hsize) (p.ending.trans hend)).map
  | uploaded =>
    refine (Reader.confined_clientId hend).bind fun id r₁ hr₁ => ?_
    have hend₁ := (Reader.of_clientId hr₁).ending.trans hend
    refine (Reader.confined_u32 hend₁).bind fun size r₂ hr₂ => ?_
    have hend₂ := (Reader.of_u32 hr₂).ending.trans hend₁
    refine (Reader.confined_name hend₂).bind fun filename r₃ hr₃ => ?_
    exact (Reader.confined_u32 ((Reader.of_name hr₃).ending.trans hend₂)).map

/-- A size above the limit is refused once the fields in front of the content are read. -/
theorem ClientBody.read_of_overstates {code : ClientCode} {n : Nat}
    (h : code.Overstates r.unread n) :
    ∃ r', ClientBody.read code r = .error (.payloadTooLarge n) r' := by
  obtain ⟨rfl, hlt, size, filename, more, rfl, hcut⟩ := h
  obtain ⟨r₁, hr₁, p₁⟩ := (Reader.takes_u32 size).whole r _ hcut
  obtain ⟨r₂, hr₂, p₂⟩ := (Reader.takes_name filename).whole r₁ more (p₁.unread_eq hcut)
  have hbytes : Reader.bytes size.toNat r₂ = .error (.payloadTooLarge size.toNat) r₂ := by
    rw [Reader.bytes, if_pos hlt]
    rfl
  exact ⟨r₂, (bind_run_ok hr₁).trans <| (bind_run_ok hr₂).trans <| bind_run_error hbytes⟩

end Bodies

/-! ## §3 Messages -/

/-- What stands in front of the block of a client message. -/
def ClientMessage.header (sender : ClientId) (v : UInt8) (code : ClientCode) (declared : UInt32) :
    Bytes :=
  sender.bytes ++ (Bytes.ofList [v] ++ (Bytes.ofNatLE 2 code.toWord.toNat ++
    Bytes.ofNatLE 4 declared.toNat))

/-- What stands in front of the block of a server message. -/
def ServerMessage.header (v : UInt8) (code : ServerCode) (declared : UInt32) : Bytes :=
  Bytes.ofList [v] ++ (Bytes.ofNatLE 2 code.toWord.toNat ++ Bytes.ofNatLE 4 declared.toNat)

namespace Reader

/-- A reading goes on with the value of another one that takes the bytes in front of it. -/
theorem run_of_takes {α β : Type} {x : Read α} {a : α} {b rest : Bytes} {r : Reader}
    (hx : Takes x b a) (h : r.unread = b ++ rest) :
    ∃ r', r.Passed b r' ∧ r'.unread = rest ∧ ∀ f : α → Read β, (x >>= f) r = f a r' := by
  obtain ⟨r', hr', p⟩ := hx.whole r rest h
  exact ⟨r', p, p.unread_eq h, fun f => bind_run_ok hr'⟩

/-- Version, code and declared length are read, and the block is taken as it is. -/
theorem run_block {γ α β : Type} {table : UInt16 → Option γ} {unknown : UInt16 → WireError}
    {word : UInt16} {code : γ} (hcode : table word = some code) {v : UInt8} {b rest : Bytes}
    {declared : UInt32} (hle : declared.toNat ≤ maxPayload) (hsize : b.size = declared.toNat)
    {r : Reader} (h : r.unread = Bytes.ofList [v] ++ (Bytes.ofNatLE 2 word.toNat ++
      (Bytes.ofNatLE 4 declared.toNat ++ (b ++ rest)))) (x : γ → Read α) (mk : UInt8 → α → β) :
    ∃ r', r.Passed (Bytes.ofList [v] ++ (Bytes.ofNatLE 2 word.toNat ++
        (Bytes.ofNatLE 4 declared.toNat ++ b))) r' ∧
      (do
        let version ← expectVersion v
        let code ← decodeCode table unknown (← u16)
        let declared ← u32
        let content ← block declared
        let body ← lift (decodeBlock (x code) content declared)
        return mk version body) r =
      (do
        let body ← lift (decodeBlock (x code) b declared)
        return mk v body) r' := by
  obtain ⟨r₁, p₁, h₁, hrun₁⟩ := run_of_takes (takes_expectVersion v) h
  obtain ⟨r₂, p₂, h₂, hrun₂⟩ := run_of_takes (takes_u16 word) h₁
  have hdecode : Takes (decodeCode table unknown word) ByteArray.empty code := takes_decodeCode hcode
  obtain ⟨r₃, p₃, h₃, hrun₃⟩ := run_of_takes hdecode (h₂.trans ByteArray.empty_append.symm)
  obtain ⟨r₄, p₄, h₄, hrun₄⟩ := run_of_takes (takes_u32 declared) h₃
  obtain ⟨r₅, p₅, -, hrun₅⟩ := run_of_takes (takes_block (hsize ▸ hle) hsize.symm) h₄
  refine ⟨r₅, ?_, ?_⟩
  · have p := p₁.trans (p₂.trans (p₃.trans (p₄.trans p₅)))
    rwa [ByteArray.empty_append] at p
  · rw [hrun₁, hrun₂, hrun₃, hrun₄, hrun₅]

end Reader

theorem ClientMessage.run_decode {sender : ClientId} {v : UInt8} {code : ClientCode}
    {declared : UInt32} {b rest : Bytes} {r : Reader} (hle : declared.toNat ≤ maxPayload)
    (hsize : b.size = declared.toNat)
    (h : r.unread = ClientMessage.header sender v code declared ++ b ++ rest) :
    ∃ r', r.Passed (ClientMessage.header sender v code declared ++ b) r' ∧
      ClientMessage.decode v r = (do
        let body ← Reader.lift (Reader.decodeBlock (ClientBody.read code) b declared)
        return ({ sender, version := v, body } : ClientMessage)) r' := by
  simp only [header, ByteArray.append_assoc] at h ⊢
  obtain ⟨r₁, p₁, h₁, hrun⟩ := Reader.run_of_takes (Reader.takes_clientId sender) h
  obtain ⟨r₂, p₂, hblock⟩ := Reader.run_block (ClientCode.ofWord_toWord code) hle hsize h₁
    ClientBody.read fun version body => ClientMessage.mk sender version body
  exact ⟨r₂, p₁.trans p₂, (hrun _).trans hblock⟩

theorem ServerMessage.run_decode {v : UInt8} {code : ServerCode} {declared : UInt32}
    {b rest : Bytes} {r : Reader} (hle : declared.toNat ≤ maxPayload)
    (hsize : b.size = declared.toNat)
    (h : r.unread = ServerMessage.header v code declared ++ b ++ rest) :
    ∃ r', r.Passed (ServerMessage.header v code declared ++ b) r' ∧
      ServerMessage.decode v r = (do
        let body ← Reader.lift (Reader.decodeBlock (ServerBody.read code) b declared)
        return ({ version := v, body } : ServerMessage)) r' := by
  simp only [header, ByteArray.append_assoc] at h ⊢
  exact Reader.run_block (ServerCode.ofWord_toWord code) hle hsize h ServerBody.read
    fun version body => ServerMessage.mk version body

/-- The fields of a header can be told from its bytes, and so can what comes after it. -/
theorem Frame.header_inj {v w : UInt8} {x y : UInt16} {m n : UInt32} {b c : Bytes}
    (h : Bytes.ofList [v] ++ (Bytes.ofNatLE 2 x.toNat ++ (Bytes.ofNatLE 4 m.toNat ++ b)) =
      Bytes.ofList [w] ++ (Bytes.ofNatLE 2 y.toNat ++ (Bytes.ofNatLE 4 n.toNat ++ c))) :
    v = w ∧ x = y ∧ b = c := by
  -- Fields of one width are cut off one after another.
  have hversion := ByteArray.append_inj_left h rfl
  rw [hversion, ByteArray.append_right_inj] at h
  have hword := ByteArray.append_inj_left h (by rw [Bytes.size_ofNatLE, Bytes.size_ofNatLE])
  rw [hword, ByteArray.append_right_inj] at h
  have hlength := ByteArray.append_inj_left h (by rw [Bytes.size_ofNatLE, Bytes.size_ofNatLE])
  rw [hlength, ByteArray.append_right_inj] at h
  have hxy := congrArg Bytes.toNatLE hword
  rw [Bytes.toNatLE_ofNatLE x.toNat_lt, Bytes.toNatLE_ofNatLE y.toNat_lt] at hxy
  exact ⟨by simpa [Bytes.ofList] using hversion, UInt16.toNat_inj.mp hxy, h⟩

/-- A message that is encoded as a header and a block has the version and the code of the header,
and the block is its payload. -/
theorem ServerMessage.of_encode {m : ServerMessage} {v : UInt8} {code : ServerCode}
    {declared : UInt32} {b : Bytes}
    (h : m.encode = .ok (ServerMessage.header v code declared ++ b)) :
    m.version = v ∧ m.body.code = code ∧ m.body.payload.bytes = b := by
  obtain ⟨n, -, h⟩ := bind_eq_ok.mp h
  have hbytes := Except.ok.inj h
  simp only [header, Frame.bytes_putFrame, Frame.bytes_putU32, Frame.bytes_putU16,
    Frame.bytes_putU8, Frame.bytes_empty, ByteArray.empty_append,
    ByteArray.append_assoc] at hbytes
  obtain ⟨hversion, hword, hb⟩ := Frame.header_inj hbytes
  have hcode := congrArg ServerCode.ofWord? hword
  rw [ServerCode.ofWord_toWord, ServerCode.ofWord_toWord] at hcode
  exact ⟨hversion, Option.some.inj hcode, hb⟩

theorem ClientMessage.version_of_encode {m : ClientMessage} {sender : ClientId} {v : UInt8}
    {code : ClientCode} {declared : UInt32} {b : Bytes}
    (h : m.encode = .ok (ClientMessage.header sender v code declared ++ b)) : m.version = v := by
  obtain ⟨g, -, h⟩ := bind_eq_ok.mp h
  obtain ⟨n, -, h⟩ := bind_eq_ok.mp h
  have hbytes := Except.ok.inj h
  simp only [header, Frame.bytes_putFrame, Frame.bytes_putU32, Frame.bytes_putU16,
    Frame.bytes_putU8, Frame.bytes_putClientId, Frame.bytes_empty, ByteArray.empty_append,
    ByteArray.append_assoc] at hbytes
  have hsender := ByteArray.append_inj_left hbytes (m.sender.size_eq.trans sender.size_eq.symm)
  rw [hsender, ByteArray.append_right_inj] at hbytes
  exact (Frame.header_inj hbytes).1

namespace Format

variable {α β : Type}

/-- What reading a message tells of the block `b` that comes after a header: all of both is taken,
the message is accepted if it is encoded as just these bytes, and otherwise the declared length is
said to be wrong, unless a size inside the block is refused. -/
structure Judges (F : Format α) (v : UInt8) (header b : Bytes) (declared : UInt32)
    (overstates : Nat → Prop) (r : Reader) : Prop where
  taken : r.Passed (header ++ b) (after (F.decode v r))
  accepted : ∀ m, outcome (F.decode v r) = .ok m ↔ F.encode m = .ok (header ++ b)
  mismatched : (∀ n, ¬ overstates n) → (∀ m, F.encode m ≠ .ok (header ++ b)) →
    ∃ consumed ≤ b.size, outcome (F.decode v r) = .error (.lengthMismatch declared consumed)
  overstated : ∀ n, overstates n → outcome (F.decode v r) = .error (.payloadTooLarge n)

/-- A format whose messages are a header and a block judges the block as its decoding does. -/
theorem Judges.of_block {F : Format α} {v : UInt8} {header b rest : Bytes} {declared : UInt32}
    {overstates : Nat → Prop} {r : Reader} {x : Read β} {mk : β → α}
    (hr : r.unread = header ++ b ++ rest)
    (hrun : ∃ r', r.Passed (header ++ b) r' ∧ F.decode v r =
      (do let body ← Reader.lift (Reader.decodeBlock x b declared); return mk body) r')
    (hcanonical : ∀ m r', F.decode v r = .ok m r' → ∃ c, F.encode m = .ok c ∧ r.Passed c r')
    (htakes : ∀ m, F.encode m = .ok (header ++ b) → Takes (F.decode v) (header ++ b) m)
    (hconfined : (∀ n, ¬ overstates n) → Reader.Confined x (Reader.ofBytes b))
    (hoverstated : ∀ n, overstates n →
      ∃ r', x (Reader.ofBytes b) = .error (.payloadTooLarge n) r') :
    F.Judges v header b declared overstates r := by
  obtain ⟨r', p, hrun⟩ := hrun
  have htaken : r.Passed (header ++ b) (after (F.decode v r)) := by
    rwa [hrun, after_map, Reader.after_lift]
  have haccepted : ∀ m, outcome (F.decode v r) = .ok m ↔ F.encode m = .ok (header ++ b) := by
    intro m
    constructor
    · intro h
      obtain ⟨c, hc, pc⟩ := hcanonical m _ (eq_ok_of_outcome h)
      -- Both are what stands in front of what is left.
      have hcut := pc.unread.symm.trans htaken.unread
      rwa [(ByteArray.append_left_inj _).mp hcut] at hc
    · intro h
      obtain ⟨r₁, hr₁, -⟩ := (htakes m h).whole r rest hr
      rw [hr₁]
      rfl
  refine ⟨htaken, haccepted, fun hnone hother => ?_, fun n hn => ?_⟩
  · rcases Reader.decodeBlock_of_confined (hconfined hnone) declared with ⟨a, ha⟩ | ⟨c, hc, he⟩
    · have hok : outcome (F.decode v r) = .ok (mk a) := by
        rw [hrun, outcome_map, Reader.outcome_lift, ha]
        rfl
      exact absurd ((haccepted _).mp hok) (hother _)
    · exact ⟨c, hc, by rw [hrun, outcome_map, Reader.outcome_lift, he]; rfl⟩
  · obtain ⟨s, hs⟩ := hoverstated n hn
    have herror : Reader.decodeBlock x b declared = .error (.payloadTooLarge n) := by
      simp only [Reader.decodeBlock, hs, Reader.finish]
    rw [hrun, outcome_map, Reader.outcome_lift, herror]
    rfl

end Format

section Judged

variable {v : UInt8} {declared : UInt32} {b rest : Bytes} {r : Reader}

theorem ClientMessage.judges {sender : ClientId} {code : ClientCode}
    (hle : declared.toNat ≤ maxPayload) (hsize : b.size = declared.toNat)
    (h : r.unread = ClientMessage.header sender v code declared ++ b ++ rest) :
    Format.clientMessages.Judges v (ClientMessage.header sender v code declared) b declared
      (code.Overstates b) r := by
  refine .of_block h (ClientMessage.run_decode hle hsize h) (fun m r' hm => ?_) (fun m hm => ?_)
    (fun hnone => ?_) fun n hn => ?_
  · exact (ClientMessage.encode_of_decode hm).2
  · obtain rfl := ClientMessage.version_of_encode hm
    exact ClientMessage.takes_of_encode hm
  · refine ClientBody.confined_read rfl ?_ ?_
    · rwa [Reader.unread_ofBytes, hsize]
    · rwa [Reader.unread_ofBytes]
  · exact ClientBody.read_of_overstates (by rwa [Reader.unread_ofBytes])

theorem ServerMessage.judges {code : ServerCode} (hle : declared.toNat ≤ maxPayload)
    (hsize : b.size = declared.toNat)
    (h : r.unread = ServerMessage.header v code declared ++ b ++ rest) :
    Format.serverMessages.Judges v (ServerMessage.header v code declared) b declared
      (fun _ => False) r := by
  refine .of_block h (ServerMessage.run_decode hle hsize h) (fun m r' hm => ?_) (fun m hm => ?_)
    (fun _ => ?_) fun n hn => hn.elim
  · exact (ServerMessage.encode_of_decode hm).2
  · obtain ⟨rfl, -, -⟩ := ServerMessage.of_encode hm
    exact ServerMessage.takes_of_encode hm
  · exact ServerBody.confined_read rfl (by rwa [Reader.unread_ofBytes, hsize])

/-- **A block is decoded exactly, or its length is said to be wrong**, in both upload formats: for
every code, every declared length within the limit and every block of this length, wherever it
stands on a stream and however the stream is cut.  Only an upload that states a content larger than
any payload is refused for that size. -/
theorem blocks_judged (hle : declared.toNat ≤ maxPayload) (hsize : b.size = declared.toNat) :
    (∀ (sender : ClientId) (code : ClientCode),
      r.unread = ClientMessage.header sender v code declared ++ b ++ rest →
        Format.clientMessages.Judges v (ClientMessage.header sender v code declared) b declared
          (code.Overstates b) r) ∧
    ∀ code : ServerCode, r.unread = ServerMessage.header v code declared ++ b ++ rest →
      Format.serverMessages.Judges v (ServerMessage.header v code declared) b declared
        (fun _ => False) r :=
  ⟨fun _ _ h => ClientMessage.judges hle hsize h, fun _ h => ServerMessage.judges hle hsize h⟩

end Judged

/-- A block of one byte after the code of a message that has none. -/
theorem blocks_judged_excess_byte :
    (1 : UInt32).toNat ≤ maxPayload ∧ (Bytes.ofList [0]).size = (1 : UInt32).toNat ∧
      ∃ consumed ≤ 1, outcome (ServerMessage.decode 3
        (Reader.ofBytes (ServerMessage.header 3 .success 1 ++ Bytes.ofList [0]))) =
          .error (.lengthMismatch 1 consumed) := by
  have hle : (1 : UInt32).toNat ≤ maxPayload := by decide
  have hunread : (Reader.ofBytes (ServerMessage.header 3 .success 1 ++ Bytes.ofList [0])).unread =
      ServerMessage.header 3 .success 1 ++ Bytes.ofList [0] ++ ByteArray.empty := by
    rw [Reader.unread_ofBytes, ByteArray.append_empty]
  refine ⟨hle, rfl, ((blocks_judged hle rfl).2 .success hunread).mismatched (fun _ => id) ?_⟩
  intro m hm
  obtain ⟨-, hcode, hpayload⟩ := ServerMessage.of_encode hm
  -- No message of this code has a payload.
  cases hbody : m.body with
  | success =>
    rw [hbody] at hpayload
    exact absurd (congrArg ByteArray.size hpayload) (by decide)
  | _ =>
    rw [hbody] at hcode
    cases hcode

/-- An upload whose fixed fields fill its block, and which states one byte more than the limit. -/
def ClientMessage.overstated : Bytes :=
  Bytes.ofNatLE 4 (67108865 : UInt32).toNat ++ (Name.padded ByteArray.empty).bytes

/-- The content of this upload runs past the end of its block, and nothing is encoded as it, but
the declared length is not said to be wrong. -/
theorem overstated_not_mismatched :
    ClientMessage.overstated.size = (259 : UInt32).toNat ∧
      let sent := ClientMessage.header .unregistered 3 .upload 259 ++ ClientMessage.overstated
      (∀ m, ClientMessage.encode m ≠ .ok sent) ∧
        outcome (ClientMessage.decode 3 (Reader.ofBytes sent)) =
          .error (.payloadTooLarge 67108865) ∧
        ¬ ∃ consumed, outcome (ClientMessage.decode 3 (Reader.ofBytes sent)) =
          .error (.lengthMismatch 259 consumed) := by
  have hsize : ClientMessage.overstated.size = (259 : UInt32).toNat := by
    rw [ClientMessage.overstated, ByteArray.size_append, Bytes.size_ofNatLE, Name.size_eq]
    rfl
  have hover : ClientCode.upload.Overstates ClientMessage.overstated 67108865 :=
    ⟨rfl, by decide, 67108865, Name.padded ByteArray.empty, ByteArray.empty, rfl,
      by rw [ByteArray.append_empty, ClientMessage.overstated]⟩
  have hunread : (Reader.ofBytes (ClientMessage.header .unregistered 3 .upload 259 ++
      ClientMessage.overstated)).unread = ClientMessage.header .unregistered 3 .upload 259 ++
        ClientMessage.overstated ++ ByteArray.empty := by
    rw [Reader.unread_ofBytes, ByteArray.append_empty]
  have hjudged := ClientMessage.judges (by decide) hsize hunread
  have htold := hjudged.overstated 67108865 hover
  refine ⟨hsize, fun m hm => ?_, htold, fun ⟨consumed, h⟩ => ?_⟩
  · cases htold.symm.trans ((hjudged.accepted m).mpr hm)
  · cases htold.symm.trans h

end BackupVault
