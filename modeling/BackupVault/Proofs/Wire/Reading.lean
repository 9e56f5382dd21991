import BackupVault.Proofs.Bytes
import BackupVault.Proofs.Outcome
import BackupVault.Wire.Frame
import BackupVault.Wire.Reader

/-!
# What a reading takes

A reading is described by the bytes that it takes: in front of whatever else is on the stream it
gives its value and leaves the rest, and on a stream that ends inside those bytes it ends as the
stream does.  Readings compose as their bytes do, so that what a message reader takes follows from
what its fields take.

## Overview

- `Reader.unread`, `Reader.Passed`: the position of a reader, and moving it
- `Takes`: a reading takes exactly these bytes; `Closes`: it takes all there are
- `Takes.bind`: one reading after another
- §3: the bytes of each field
-/

set_option autoImplicit false

namespace BackupVault

/-! ## §1 Positions -/

/-- The bytes of a stream that were not taken yet. -/
def Source.unread (s : Source) : Bytes := s.bytes.extract s.taken s.bytes.size

/-- The bytes that a reader has before it. -/
def Reader.unread (r : Reader) : Bytes := r.source.unread

/-- `r'` is the reader `r` once the next bytes `b` were read. -/
structure Reader.Passed (r : Reader) (b : Bytes) (r' : Reader) : Prop where
  unread : r.unread = b ++ r'.unread
  consumed : r'.consumed = r.consumed + b.size
  bytes : r'.source.bytes = r.source.bytes
  taken : r'.source.taken = r.source.taken + b.size
  ending : r'.source.ending = r.source.ending

theorem Reader.Passed.unread_eq {r r' : Reader} {b rest : Bytes} (p : r.Passed b r')
    (h : r.unread = b ++ rest) : r'.unread = rest :=
  (ByteArray.append_right_inj b).mp (p.unread ▸ h)

theorem Reader.Passed.refl (r : Reader) : r.Passed ByteArray.empty r :=
  ⟨ByteArray.empty_append.symm, rfl, rfl, rfl, rfl⟩

theorem Reader.Passed.trans {r₁ r₂ r₃ : Reader} {b c : Bytes} (p : r₁.Passed b r₂)
    (q : r₂.Passed c r₃) : r₁.Passed (b ++ c) r₃ where
  unread := by rw [p.unread, q.unread, ByteArray.append_assoc]
  consumed := by rw [q.consumed, p.consumed, ByteArray.size_append, Nat.add_assoc]
  bytes := by rw [q.bytes, p.bytes]
  taken := by rw [q.taken, p.taken, ByteArray.size_append, Nat.add_assoc]
  ending := by rw [q.ending, p.ending]

theorem Source.size_unread (s : Source) : s.unread.size = s.left := by
  rw [unread, ByteArray.size_extract, Nat.min_self, left]

theorem Reader.size_unread (r : Reader) : r.unread.size = r.remaining := r.source.size_unread

theorem Reader.unread_ofBytes (b : Bytes) : (Reader.ofBytes b).unread = b :=
  ByteArray.extract_zero_size

/-- Taking bytes read by read comes to taking them at once, as far as there are any; the cuts of
the stream show only in the number of reads. -/
theorem Source.skip_eq (s : Source) (need : Nat) :
    ∃ reads, s.skip need =
      ({ s with taken := s.taken + min need s.left, reads }, need - s.left) := by
  fun_induction Source.skip s need with
  | case1 s => exact ⟨s.reads, by simp⟩
  | case2 s need hneed hleft step ih =>
    obtain ⟨reads, ih⟩ := ih
    -- Each read takes at least one byte and no more than are left.
    have hstep : step ≤ need ∧ step ≤ s.left := by simp only [step, left]; omega
    refine ⟨reads, ih.trans ?_⟩
    simp only [left] at hstep ⊢
    have htaken : s.taken + step + min (need - step) (s.bytes.size - (s.taken + step)) =
        s.taken + min need (s.bytes.size - s.taken) := by omega
    have hmissing : need - step - (s.bytes.size - (s.taken + step)) =
        need - (s.bytes.size - s.taken) := by omega
    rw [htaken, hmissing]
  -- The stream has run out.
  | case3 s need hneed hleft =>
    have hnone : s.left = 0 := by simp only [left]; omega
    exact ⟨s.reads, by simp [hnone]⟩

namespace Reader

/-- The bytes before a reader are those that a read would give and those after it. -/
theorem peek_append (s : Source) {n : Nat} (h : n ≤ s.left) :
    s.unread = s.peek n ++ s.bytes.extract (s.taken + n) s.bytes.size := by
  simp only [Source.left] at h
  rcases Nat.eq_zero_or_pos n with rfl | hn
  · rw [Source.peek, Nat.add_zero, ByteArray.extract_same, ByteArray.empty_append, Source.unread]
  · exact ByteArray.extract_eq_extract_append_extract (s.taken + n) (Nat.le_add_right ..)
      (by omega)

theorem size_peek (s : Source) {n : Nat} (h : n ≤ s.left) : (s.peek n).size = n := by
  simp only [Source.left] at h
  rw [Source.peek, ByteArray.size_extract]
  omega

/-- A read that the stream can fill. -/
theorem fill_of_unread {r : Reader} {b rest : Bytes} (h : r.unread = b ++ rest) :
    ∃ r', fill b.size r = .ok b r' ∧ r.Passed b r' := by
  have hsize : b.size ≤ r.source.left := by
    rw [← Source.size_unread, show r.source.unread = b ++ rest from h, ByteArray.size_append]
    exact Nat.le_add_right ..
  obtain ⟨reads, hskip⟩ := r.source.skip_eq b.size
  rw [Nat.min_eq_left hsize, Nat.sub_eq_zero_of_le hsize] at hskip
  -- The bytes before the reader begin with `b`, which is as long as the read.
  have hcut : r.source.peek b.size ++ _ = b ++ rest := (peek_append r.source hsize).symm.trans h
  have hpeek : r.source.peek b.size = b := ByteArray.append_inj_left hcut (size_peek _ hsize)
  refine ⟨{ source := { r.source with taken := r.source.taken + b.size, reads },
            consumed := r.consumed + b.size }, ?_, ⟨?_, rfl, rfl, rfl, rfl⟩⟩
  · simp only [fill, hskip, hpeek, ↓reduceIte]
  · exact (peek_append r.source hsize).trans (by rw [hpeek]; rfl)

theorem fill_of_le {r : Reader} {n : Nat} (h : n ≤ r.unread.size) :
    ∃ b r', b.size = n ∧ fill n r = .ok b r' ∧ r.Passed b r' := by
  have hcut : (r.unread.extract 0 n).size = n := by
    rw [ByteArray.size_extract]
    omega
  obtain ⟨r', hfill, p⟩ := fill_of_unread (Bytes.extract_append_extract r.unread h).symm
  rw [hcut] at hfill
  exact ⟨_, r', hcut, hfill, p⟩

/-- A read that the stream cannot fill uses up the stream, and does not count. -/
theorem fill_exhausts {r : Reader} {n : Nat} (h : r.unread.size < n) :
    ∃ r', fill n r = .error (endError n r.source.ending) r' ∧ r'.unread = ByteArray.empty ∧
      r'.consumed = r.consumed ∧ r'.source.ending = r.source.ending := by
  have hleft : r.source.left < n := r.source.size_unread ▸ h
  obtain ⟨reads, hskip⟩ := r.source.skip_eq n
  have hmissing : n - r.source.left ≠ 0 := Nat.sub_ne_zero_of_lt hleft
  refine ⟨{ r with source :=
    { r.source with taken := r.source.taken + min n r.source.left, reads } }, ?_, ?_, rfl, rfl⟩
  · simp only [fill, hskip, hmissing, ↓reduceIte]
  · -- All bytes that were left are taken.
    apply ByteArray.size_eq_zero_iff.mp
    rw [size_unread, remaining, Nat.min_eq_right (Nat.le_of_lt hleft)]
    simp only [Source.left]
    omega

theorem fill_of_short {r : Reader} {n : Nat} (h : r.unread.size < n) :
    ∃ r', fill n r = .error (endError n r.source.ending) r' := by
  obtain ⟨r', hr', -⟩ := fill_exhausts h
  exact ⟨r', hr'⟩

theorem outcome_lift {α : Type} (x : Except WireError α) (r : Reader) : outcome (lift x r) = x := by
  cases x <;> rfl

theorem after_lift {α : Type} (x : Except WireError α) (r : Reader) : after (lift x r) = r := by
  cases x <;> rfl

end Reader

/-! ## §2 Readings -/

/-- The reading gives the value and takes exactly these bytes, whatever follows them; a stream that
ends inside them makes it end as the stream does. -/
structure Takes {α : Type} (x : Read α) (b : Bytes) (a : α) : Prop where
  whole : ∀ (r : Reader) (rest : Bytes), r.unread = b ++ rest →
    ∃ r', x r = .ok a r' ∧ r.Passed b r'
  short : ∀ (r : Reader) (more : Bytes), b = r.unread ++ more → r.unread.size < b.size →
    ∃ n r', x r = .error (Reader.endError n r.source.ending) r'

/-- The reading gives the value where these bytes are all there are, and leaves none of them. -/
def Closes {α : Type} (x : Read α) (b : Bytes) (a : α) : Prop :=
  ∀ r : Reader, r.unread = b → ∃ r', x r = .ok a r' ∧ r'.remaining = 0

namespace Takes

variable {α β : Type} {x : Read α} {b c : Bytes} {a : α}

theorem pure (a : α) : Takes (Pure.pure a : Read α) ByteArray.empty a where
  whole r _ _ := ⟨r, rfl, .refl r⟩
  short _ _ _ h := absurd h (Nat.not_lt_zero _)

/-- One reading after another takes the bytes of both. -/
theorem bind {f : α → Read β} {y : β} (hx : Takes x b a) (hf : Takes (f a) c y) :
    Takes (x >>= f) (b ++ c) y where
  whole r rest h := by
    rw [ByteArray.append_assoc] at h
    obtain ⟨r₁, hr₁, p₁⟩ := hx.whole r _ h
    obtain ⟨r₂, hr₂, p₂⟩ := hf.whole r₁ rest (p₁.unread_eq h)
    exact ⟨r₂, (bind_run_ok hr₁).trans hr₂, p₁.trans p₂⟩
  short r more h hlt := by
    rcases Nat.lt_or_ge r.unread.size b.size with hb | hb
    · -- The stream ends inside the first part.
      obtain ⟨m, hm, -⟩ := Bytes.append_eq_append h.symm (Nat.le_of_lt hb)
      obtain ⟨n, r', hr'⟩ := hx.short r m hm hb
      exact ⟨n, r', bind_run_error hr'⟩
    · -- It holds the first part, and ends inside the second.
      obtain ⟨m, hm, hc⟩ := Bytes.append_eq_append h hb
      obtain ⟨r₁, hr₁, p₁⟩ := hx.whole r m hm
      have hleft : r₁.unread = m := p₁.unread_eq hm
      have hshort : r₁.unread.size < c.size := by
        rw [hm, ByteArray.size_append, ByteArray.size_append] at hlt
        rw [hleft]
        exact Nat.lt_of_add_lt_add_left hlt
      obtain ⟨n, r', hr'⟩ := hf.short r₁ more (hleft ▸ hc) hshort
      exact ⟨n, r', p₁.ending ▸ (bind_run_ok hr₁).trans hr'⟩

theorem map {f : α → β} (hx : Takes x b a) :
    Takes (x >>= fun v => Pure.pure (f v)) b (f a) := by
  have h := hx.bind (f := fun v => Pure.pure (f v)) (Takes.pure (f a))
  rwa [ByteArray.append_empty] at h

theorem closes (hx : Takes x b a) : Closes x b a := by
  intro r hr
  obtain ⟨r', hr', p⟩ := hx.whole r ByteArray.empty (hr.trans ByteArray.append_empty.symm)
  refine ⟨r', hr', ?_⟩
  have hnone : b ++ r'.unread = b ++ ByteArray.empty := by
    rw [← p.unread, hr, ByteArray.append_empty]
  rw [← Reader.size_unread, (ByteArray.append_right_inj b).mp hnone, ByteArray.size_empty]

/-- A reading, and then one of all that is left. -/
theorem bind_closes {f : α → Read β} {y : β} (hx : Takes x b a) (hf : Closes (f a) c y) :
    Closes (x >>= f) (b ++ c) y := by
  intro r hr
  obtain ⟨r₁, hr₁, p₁⟩ := hx.whole r c hr
  obtain ⟨r₂, hr₂, hnone⟩ := hf r₁ (p₁.unread_eq hr)
  exact ⟨r₂, (bind_run_ok hr₁).trans hr₂, hnone⟩

end Takes

theorem Closes.map {α β : Type} {x : Read α} {b : Bytes} {a : α} {f : α → β} (hx : Closes x b a) :
    Closes (x >>= fun v => pure (f v)) b (f a) := by
  intro r hr
  obtain ⟨r', hr', hnone⟩ := hx r hr
  exact ⟨r', bind_run_ok hr', hnone⟩

/-! ## §3 Fields -/

namespace Reader

theorem takes_fill (b : Bytes) : Takes (fill b.size) b b where
  whole _ _ h := fill_of_unread h
  short _ _ _ h := ⟨b.size, fill_of_short h⟩

/-- A number is read off any bytes of its width. -/
theorem takes_u8_of_size {b : Bytes} (h : b.size = 1) : Takes u8 b (UInt8.ofNat b.toNatLE) := by
  have hfill := (takes_fill b).map (f := fun b => UInt8.ofNat b.toNatLE)
  rwa [h] at hfill

theorem takes_u16_of_size {b : Bytes} (h : b.size = 2) : Takes u16 b (UInt16.ofNat b.toNatLE) := by
  have hfill := (takes_fill b).map (f := fun b => UInt16.ofNat b.toNatLE)
  rwa [h] at hfill

theorem takes_u32_of_size {b : Bytes} (h : b.size = 4) : Takes u32 b (UInt32.ofNat b.toNatLE) := by
  have hfill := (takes_fill b).map (f := fun b => UInt32.ofNat b.toNatLE)
  rwa [h] at hfill

theorem takes_u8 (v : UInt8) : Takes u8 (Bytes.ofList [v]) v := by
  have h := takes_u8_of_size (b := Bytes.ofList [v]) rfl
  rwa [Bytes.toNatLE, Bytes.toList_ofList, Bytes.natOfListLE, Bytes.natOfListLE, Nat.mul_zero,
    Nat.add_zero, UInt8.ofNat_toNat] at h

theorem takes_u16 (v : UInt16) : Takes u16 (Bytes.ofNatLE 2 v.toNat) v := by
  have h := takes_u16_of_size (Bytes.size_ofNatLE 2 v.toNat)
  rwa [Bytes.toNatLE_ofNatLE v.toNat_lt, UInt16.ofNat_toNat] at h

theorem takes_u32 (v : UInt32) : Takes u32 (Bytes.ofNatLE 4 v.toNat) v := by
  have h := takes_u32_of_size (Bytes.size_ofNatLE 4 v.toNat)
  rwa [Bytes.toNatLE_ofNatLE v.toNat_lt, UInt32.ofNat_toNat] at h

theorem takes_bytes {b : Bytes} (h : b.size ≤ maxPayload) : Takes (bytes b.size) b b := by
  rw [bytes, if_neg (Nat.not_lt.mpr h)]
  exact takes_fill b

theorem takes_name (n : Name) : Takes name n.bytes n := by
  have h := (takes_fill n.bytes).map (f := Name.padded)
  -- A field of full width is not padded.
  have hn : Name.padded n.bytes = n := by
    obtain ⟨b, hb⟩ := n
    simp only [Name.padded, Bytes.fit_eq_self hb]
  rwa [n.size_eq, hn] at h

theorem takes_clientId (id : ClientId) : Takes clientId id.bytes id := by
  have h := (takes_fill id.bytes).map (f := ClientId.padded)
  have hid : ClientId.padded id.bytes = id := by
    obtain ⟨b, hb⟩ := id
    simp only [ClientId.padded, Bytes.fit_eq_self hb]
  rwa [id.size_eq, hid] at h

/-- The decoding of a text that was encoded. -/
theorem fromUTF8_ofText (s : String) : String.fromUTF8? (Bytes.ofText s) = some s := by
  rw [Bytes.ofText, String.toUTF8_eq_toByteArray, String.fromUTF8?, dif_pos s.isValidUTF8]
  rfl

/-- The encoding of a text that was decoded. -/
theorem ofText_fromUTF8 {b : Bytes} {s : String} (h : String.fromUTF8? b = some s) :
    Bytes.ofText s = b := by
  unfold String.fromUTF8? at h
  split at h
  · cases h
    rfl
  · cases h

theorem takes_textOf {s : String} (h : (Bytes.ofText s).size ≤ maxPayload) (field : String) :
    Takes (textOf (Bytes.ofText s).size field) (Bytes.ofText s) s := by
  suffices ht : Takes (textOf (Bytes.ofText s).size field) (Bytes.ofText s ++ ByteArray.empty) s by
    rwa [ByteArray.append_empty] at ht
  refine (takes_bytes h).bind ?_
  simp only [fromUTF8_ofText]
  exact Takes.pure s

end Reader

end BackupVault
