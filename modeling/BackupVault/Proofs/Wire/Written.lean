import BackupVault.Proofs.Wire.RoundTrip
import BackupVault.Wire.Sink

/-!
# What was written

The bytes on a connection tell which messages were written to it: no message is empty, and each
is read back from its bytes, so that only one list of messages of a version has these bytes.

## Overview

- `Format.Wrote`: the bytes of some messages came after those that were there
- `Format.Wrote.unique`: the bytes determine the messages
- `Sink.write_of_unlimited`: a peer that takes everything gets what is written
-/

set_option autoImplicit false

namespace BackupVault

theorem Bytes.join_append (bs cs : List Bytes) :
    Bytes.join (bs ++ cs) = Bytes.join bs ++ Bytes.join cs := by
  induction bs with
  | nil => rw [List.nil_append, join_nil, ByteArray.empty_append]
  | cons b bs ih => rw [List.cons_append, join_cons, join_cons, ih, ByteArray.append_assoc]

/-! ## §1 Messages on a connection -/

namespace Format

variable {α : Type} {F : Format α} {v : UInt8} {before mid after : Bytes}

/-- The bytes of some messages of a version came after those that were there before. -/
structure Wrote (F : Format α) (v : UInt8) (ms : List α) (before after : Bytes) : Prop where
  encoded : ∃ bs, ms.mapM F.encode = .ok bs ∧ after = before ++ Bytes.join bs
  version : ∀ m ∈ ms, F.version m = v

theorem Wrote.nil (b : Bytes) : F.Wrote v [] b b where
  encoded := ⟨[], rfl, ByteArray.append_empty.symm⟩
  version _ h := absurd h List.not_mem_nil

theorem Wrote.one {m : α} {b : Bytes} (h : F.encode m = .ok b) (hv : F.version m = v) :
    F.Wrote v [m] before (before ++ b) where
  encoded := ⟨[b], by rw [List.mapM_cons, h]; rfl, by simp⟩
  version m' h' := by rw [List.mem_singleton.mp h', hv]

theorem Wrote.append {ms ns : List α} (h : F.Wrote v ms before mid) (h' : F.Wrote v ns mid after) :
    F.Wrote v (ms ++ ns) before after where
  encoded := by
    obtain ⟨bs, hbs, rfl⟩ := h.encoded
    obtain ⟨cs, hcs, rfl⟩ := h'.encoded
    refine ⟨bs ++ cs, by rw [List.mapM_append, hbs, hcs]; rfl, ?_⟩
    rw [Bytes.join_append, ByteArray.append_assoc]
  version m hm := (List.mem_append.mp hm).elim (h.version m) (h'.version m)

/-- A format whose messages are never empty. -/
def Bulky (F : Format α) : Prop := ∀ m b, F.encode m = .ok b → 0 < b.size

theorem Bulky.join_ne (hb : F.Bulky) {m : α} {b c : Bytes} (h : F.encode m = .ok b) :
    b ++ c ≠ ByteArray.empty := by
  intro he
  have hsize := congrArg ByteArray.size he
  rw [ByteArray.size_append, ByteArray.size_empty] at hsize
  exact absurd (hb m b h) (by omega)

/-- Lists of messages with the same bytes are the same, by induction on one of them. -/
theorem Bulky.encodings_injective (hb : F.Bulky) (hF : F.RoundTrips) {ms ns : List α}
    {bs cs : List Bytes} (hbs : ms.mapM F.encode = .ok bs) (hcs : ns.mapM F.encode = .ok cs)
    (hms : ∀ m ∈ ms, F.version m = v) (hns : ∀ n ∈ ns, F.version n = v)
    (hjoin : Bytes.join bs = Bytes.join cs) : ms = ns := by
  induction ms generalizing bs ns cs with
  | nil =>
    obtain rfl := mapM_nil_eq_ok.mp hbs
    cases ns with
    | nil => rfl
    | cons n ns =>
      obtain ⟨c, cs, hn, -, rfl⟩ := mapM_cons_eq_ok.mp hcs
      -- No message has no bytes.
      exact absurd hjoin.symm (hb.join_ne hn)
  | cons m ms ih =>
    obtain ⟨b, bs', hm, hbs', rfl⟩ := mapM_cons_eq_ok.mp hbs
    cases ns with
    | nil =>
      obtain rfl := mapM_nil_eq_ok.mp hcs
      exact absurd hjoin (hb.join_ne hm)
    | cons n ns =>
      obtain ⟨c, cs', hn, hcs', rfl⟩ := mapM_cons_eq_ok.mp hcs
      rw [List.forall_mem_cons] at hms hns
      -- One reader over the bytes reads both first messages.
      have hread := Reader.unread_ofBytes (b ++ Bytes.join bs')
      obtain ⟨r₁, hr₁, -, hleft₁⟩ := hF.one m b (Bytes.join bs') _ hm hread
      obtain ⟨r₂, hr₂, -, hleft₂⟩ := hF.one n c (Bytes.join cs') _ hn (hread.trans hjoin)
      rw [hms.1] at hr₁
      rw [hns.1, hr₁] at hr₂
      cases hr₂
      rw [ih hbs' hcs' hms.2 hns.2 (hleft₁.symm.trans hleft₂)]

theorem Wrote.unique (hb : F.Bulky) (hF : F.RoundTrips) {ms ns : List α}
    (h : F.Wrote v ms before after) (h' : F.Wrote v ns before after) : ms = ns := by
  obtain ⟨bs, hbs, rfl⟩ := h.encoded
  obtain ⟨cs, hcs, hjoin⟩ := h'.encoded
  exact hb.encodings_injective hF hbs hcs h.version h'.version
    ((ByteArray.append_right_inj before).mp hjoin)

end Format

/-! ## §2 The upload formats -/

theorem clientMessages_bulky : Format.clientMessages.Bulky := by
  intro m b h
  obtain ⟨g, -, h⟩ := bind_eq_ok.mp h
  obtain ⟨n, -, h⟩ := bind_eq_ok.mp h
  cases h
  -- The length of the payload alone takes four bytes.
  simp only [Frame.bytes_putFrame, Frame.bytes_putU32, ByteArray.size_append, Bytes.size_ofNatLE]
  omega

theorem serverMessages_bulky : Format.serverMessages.Bulky := by
  intro m b h
  obtain ⟨n, -, h⟩ := bind_eq_ok.mp h
  cases h
  simp only [Frame.bytes_putFrame, Frame.bytes_putU32, ByteArray.size_append, Bytes.size_ofNatLE]
  omega

/-! ## §3 Sinks -/

theorem Sink.write_of_unlimited {s : Sink} (h : s.limit = none) (b : Bytes) :
    s.write b = (.ok (), { s with written := s.written ++ b }) := by
  simp only [write, h]

end BackupVault
