import BackupVault.Proofs.Wire.Sizes
import BackupVault.Proofs.Wire.Written

/-!
# Bytes on the way

One end of a connection has written some bytes, and the reader at the other end has got the first
of them.  What the reader has not taken yet, on the way or already there, is pending: carrying
bytes leaves it as it is, writing adds to it, and reading a message takes it off once the whole
message has come in.

## Overview

- `Piped`, `Piped.pending`: a reader that gets what was written, and what it has not taken
- `Piped.write`, `Piped.carry`: writing and carrying
- `Piped.whole`, `Piped.short`: reading a message, and waiting for the rest of it
-/

set_option autoImplicit false

namespace BackupVault

theorem Source.toList_unread (s : Source) :
    s.unread.data.toList = s.bytes.data.toList.drop s.taken := by
  rw [unread, Bytes.toList_extract, ← Bytes.length_toList, List.take_length]

/-- Bytes that come in are unread after those that were. -/
theorem Source.unread_append {s s' : Source} {b : Bytes} (h : s.taken ≤ s.bytes.size)
    (hbytes : s'.bytes = s.bytes ++ b) (htaken : s'.taken = s.taken) :
    s'.unread = s.unread ++ b := by
  apply Bytes.ext_toList
  rw [toList_unread, hbytes, htaken, ByteArray.toList_data_append, ByteArray.toList_data_append,
    toList_unread, List.drop_append_of_le_length h]

/-- The reader gets the written bytes, in order, and so far some of them have come in. -/
structure Piped (written : Bytes) (r : Reader) : Prop where
  ending : r.source.ending = .closed
  taken_le : r.source.taken ≤ r.source.bytes.size
  arrived : ∃ onWay, written = r.source.bytes ++ onWay

/-- The bytes on the way to a reader. -/
def onWay (written : Bytes) (r : Reader) : Bytes :=
  written.extract r.source.bytes.size written.size

/-- The bytes that a reader has not taken yet: those that are there, and those on the way. -/
def pending (written : Bytes) (r : Reader) : Bytes := r.unread ++ onWay written r

namespace Piped

variable {written : Bytes} {r r' : Reader} {α : Type} {x : Read α} {b : Bytes} {a : α}

theorem bytes_append (h : Piped written r) : r.source.bytes ++ onWay written r = written := by
  obtain ⟨rest, rfl⟩ := h.arrived
  rw [onWay, ByteArray.size_append, ByteArray.extract_append_eq_right rfl rfl]

theorem size_onWay (h : Piped written r) :
    r.source.bytes.size + (onWay written r).size = written.size := by
  rw [← ByteArray.size_append, h.bytes_append]

theorem onWay_eq (h : Piped written r) {rest : Bytes} (hrest : written = r.source.bytes ++ rest) :
    onWay written r = rest :=
  (ByteArray.append_right_inj r.source.bytes).mp (h.bytes_append.trans hrest)

/-- A reader of nothing, before anything was written. -/
theorem start : Piped ByteArray.empty (Reader.ofBytes ByteArray.empty) ∧
    pending ByteArray.empty (Reader.ofBytes ByteArray.empty) = ByteArray.empty :=
  ⟨⟨rfl, Nat.le_refl _, ByteArray.empty, ByteArray.append_empty.symm⟩, rfl⟩

/-- What is written is pending after what was. -/
theorem write (h : Piped written r) (b : Bytes) :
    Piped (written ++ b) r ∧ pending (written ++ b) r = pending written r ++ b := by
  have hsplit : written ++ b = r.source.bytes ++ (onWay written r ++ b) := by
    rw [← ByteArray.append_assoc, h.bytes_append]
  have hp : Piped (written ++ b) r := ⟨h.ending, h.taken_le, _, hsplit⟩
  exact ⟨hp, by rw [pending, pending, hp.onWay_eq hsplit, ByteArray.append_assoc]⟩

/-- Carrying the next bytes leaves less on the way, and as much pending. -/
theorem carry (h : Piped written r) (r' : Reader) {n : Nat}
    (hn : r.source.bytes.size + n ≤ written.size)
    (hbytes : r'.source.bytes = r.source.bytes ++
      written.extract r.source.bytes.size (r.source.bytes.size + n))
    (htaken : r'.source.taken = r.source.taken) (hending : r'.source.ending = .closed) :
    Piped written r' ∧ pending written r' = pending written r ∧
      (onWay written r').size + n = (onWay written r).size := by
  -- What is on the way begins with the bytes that are carried.
  have hsplit : onWay written r =
      written.extract r.source.bytes.size (r.source.bytes.size + n) ++
        written.extract (r.source.bytes.size + n) written.size :=
    ByteArray.extract_eq_extract_append_extract _ (Nat.le_add_right ..) hn
  have hwhole : written = r'.source.bytes ++
      written.extract (r.source.bytes.size + n) written.size := by
    rw [hbytes, ByteArray.append_assoc, ← hsplit, h.bytes_append]
  have hp : Piped written r' := by
    refine ⟨hending, ?_, _, hwhole⟩
    rw [htaken, hbytes, ByteArray.size_append]
    exact Nat.le_add_right_of_le h.taken_le
  have hunread : r'.unread = r.unread ++
      written.extract r.source.bytes.size (r.source.bytes.size + n) :=
    Source.unread_append h.taken_le hbytes htaken
  have honWay := hp.onWay_eq hwhole
  refine ⟨hp, ?_, ?_⟩
  · rw [pending, pending, hunread, honWay, ByteArray.append_assoc, ← hsplit]
  · rw [honWay, hsplit, ByteArray.size_append, ByteArray.size_extract, ByteArray.size_extract]
    omega

/-- A message that is pending, and is all there, is read, and nothing is pending any more. -/
theorem whole (h : Piped written r) (hx : Takes x b a) (hpending : pending written r = b)
    (hthere : onWay written r = ByteArray.empty) :
    ∃ r', x r = .ok a r' ∧ Piped written r' ∧ pending written r' = ByteArray.empty := by
  have hunread : r.unread = b ++ ByteArray.empty := by
    rw [ByteArray.append_empty, ← hpending, pending, hthere, ByteArray.append_empty]
  obtain ⟨r', hr', p⟩ := hx.whole r _ hunread
  -- The message lies within the bytes that have come in.
  have hsize : b.size + r.source.taken ≤ r.source.bytes.size := by
    have hsize := congrArg ByteArray.size hunread
    rw [ByteArray.append_empty, Reader.size_unread, Reader.remaining, Source.left] at hsize
    have := h.taken_le
    omega
  refine ⟨r', hr', ⟨p.ending.trans h.ending, ?_, ?_⟩, ?_⟩
  · rw [p.taken, p.bytes]
    omega
  · rw [p.bytes]
    exact h.arrived
  · rw [pending, p.unread_eq hunread, onWay, p.bytes, ByteArray.empty_append]
    exact hthere

/-- While part of a message is on the way, reading it comes to an early end. -/
theorem short (h : Piped written r) (hx : Takes x b a) {more : Bytes}
    (hunread : b = r.unread ++ more) (hmore : 0 < more.size) :
    ∃ n r', x r = .error (.shortRead n) r' := by
  have hlt : r.unread.size < b.size := by
    rw [hunread, ByteArray.size_append]
    omega
  obtain ⟨n, r', hr'⟩ := hx.short r more hunread hlt
  rw [h.ending] at hr'
  exact ⟨n, r', hr'⟩

end Piped

/-! ## Messages -/

/-- A reader of client messages waits while nothing is pending. -/
theorem ClientMessage.short_of_nothing {written : Bytes} {r : Reader} (h : Piped written r)
    (hnone : pending written r = ByteArray.empty) (v : UInt8) :
    ∃ n r', ClientMessage.decode v r = .error (.shortRead n) r' := by
  -- Any message will do: nothing of it is there.
  let m : ClientMessage :=
    { sender := ClientId.unregistered, version := v, body := .accept (Name.padded ByteArray.empty) }
  obtain ⟨b, hb⟩ := ClientMessage.encode_eq_ok (m := m) (Nat.le_of_ble_eq_true rfl)
  have hmore : b = r.unread ++ b := by
    rw [(ByteArray.append_eq_empty_iff.mp hnone).1, ByteArray.empty_append]
  exact h.short (ClientMessage.takes_of_encode hb) hmore (clientMessages_bulky m b hb)

/-- A reader of server messages waits while nothing is pending. -/
theorem ServerMessage.short_of_nothing {written : Bytes} {r : Reader} (h : Piped written r)
    (hnone : pending written r = ByteArray.empty) (v : UInt8) :
    ∃ n r', ServerMessage.decode v r = .error (.shortRead n) r' := by
  let m : ServerMessage := { version := v, body := .success }
  obtain ⟨b, hb⟩ := ServerMessage.encode_eq_ok (m := m) (Nat.zero_le _)
  have hmore : b = r.unread ++ b := by
    rw [(ByteArray.append_eq_empty_iff.mp hnone).1, ByteArray.empty_append]
  exact h.short (ServerMessage.takes_of_encode hb) hmore (serverMessages_bulky m b hb)

end BackupVault
