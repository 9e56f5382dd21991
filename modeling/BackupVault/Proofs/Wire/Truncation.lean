import BackupVault.Proofs.Wire.RoundTrip

/-!
# Messages that are cut short

A message of which only the first bytes arrive is never read as a message, and never refused for
what it says: the reading ends as the stream does.  This holds wherever the cut falls, also inside
the block of an upload message, since a block is read as a whole before it is decoded.

## Overview

- `Format.CutShort`: what is told of a message that is cut short, alone and after whole ones
- `formats_cutShort`: it is told in all four formats
-/

set_option autoImplicit false

namespace BackupVault

/-! ## §1 Cut messages -/

/-- What is told of a message of which the first bytes are there and the others are not.  As
always, the stream may be cut into reads of any sizes and may have been read before. -/
structure Format.CutShort {α : Type} (F : Format α) : Prop where
  /-- Where the stream is at its end, a read came out short. -/
  ended : ∀ (m : α) (front more : Bytes) (r : Reader), F.encode m = .ok (front ++ more) →
    0 < more.size → r.unread = front →
    r.source.ending = .closed ∨ r.source.ending = .failing .unexpectedEnd →
    ∃ needed, outcome (F.decode (F.version m) r) = .error (.shortRead needed)
  /-- Where the stream fails, it is this failure. -/
  failed : ∀ (m : α) (front more : Bytes) (r : Reader) (cause : IoFailure),
    F.encode m = .ok (front ++ more) → 0 < more.size → r.unread = front →
    r.source.ending = .failing cause → cause ≠ .unexpectedEnd →
    outcome (F.decode (F.version m) r) = .error (.io cause)
  /-- Whole messages in front of the one that is cut short are read all the same, and nothing is
  read after it. -/
  many : ∀ (v : UInt8) (ms : List α) (bs : List Bytes) (m : α) (front more : Bytes) (r : Reader)
    (count : Nat), (∀ m' ∈ ms, F.version m' = v) → ms.mapM F.encode = .ok bs →
    F.version m = v → F.encode m = .ok (front ++ more) → 0 < more.size →
    r.unread = Bytes.join bs ++ front → ms.length < count →
    ∃ needed, (Reader.each (F.decode v) count r).map Prod.fst =
      ms.map .ok ++ [.error (Reader.endError needed r.source.ending)]

/-- A stream that stops ends every read that it cannot fill in a short read. -/
theorem Reader.endError_of_ended {ending : Ending} (needed : Nat)
    (h : ending = .closed ∨ ending = .failing .unexpectedEnd) :
    endError needed ending = .shortRead needed := by
  rcases h with rfl | rfl <;> rfl

/-- A stream that fails in any other way shows its failure. -/
theorem Reader.endError_of_failed {cause : IoFailure} (needed : Nat) (h : cause ≠ .unexpectedEnd) :
    endError needed (.failing cause) = .io cause := by
  cases cause <;> first | rfl | exact absurd rfl h

/-! ## §2 Readings -/

/-- A reading that finds only the first of its bytes ends as the stream does. -/
theorem Takes.cut {α : Type} {x : Read α} {front more : Bytes} {a : α}
    (hx : Takes x (front ++ more) a) (hmore : 0 < more.size) {r : Reader} (hr : r.unread = front) :
    ∃ needed, outcome (x r) = .error (Reader.endError needed r.source.ending) := by
  have hshort : r.unread.size < (front ++ more).size := by
    rw [hr, ByteArray.size_append]
    omega
  obtain ⟨needed, r', hr'⟩ := hx.short r more (by rw [hr]) hshort
  exact ⟨needed, by rw [hr']; rfl⟩

/-- The values of whole byte strings are read, up to the one that is cut short; by induction on the
list, as for a stream that holds them all. -/
theorem Reader.each_of_cut {α : Type} {x : Read α} {encode : α → Except WireError Bytes}
    {ms : List α} (hx : ∀ m ∈ ms, ∀ b, encode m = .ok b → Takes x b m) {bs : List Bytes}
    (hbs : ms.mapM encode = .ok bs) {m : α} {front more : Bytes} (hm : Takes x (front ++ more) m)
    (hmore : 0 < more.size) {r : Reader} (hr : r.unread = Bytes.join bs ++ front) {count : Nat}
    (hcount : ms.length < count) :
    ∃ needed, (each x count r).map Prod.fst =
      ms.map .ok ++ [.error (endError needed r.source.ending)] := by
  induction ms generalizing bs r count with
  | nil =>
    obtain rfl := mapM_nil_eq_ok.mp hbs
    obtain ⟨needed, hcut⟩ := hm.cut hmore (hr.trans ByteArray.empty_append)
    obtain ⟨count, rfl⟩ := Nat.exists_eq_succ_of_ne_zero (Nat.ne_of_gt hcount)
    exact ⟨needed, by rw [each_of_error (eq_error_of_outcome hcut)]; rfl⟩
  | cons first ms ih =>
    obtain ⟨b, bs', hb, hbs', rfl⟩ := mapM_cons_eq_ok.mp hbs
    rw [Bytes.join_cons, ByteArray.append_assoc] at hr
    obtain ⟨r₁, hr₁, p⟩ := (hx first List.mem_cons_self b hb).whole r _ hr
    -- The reader of the first message has the others before it, and the same end.
    obtain ⟨count, rfl⟩ := Nat.exists_eq_succ_of_ne_zero (Nat.ne_zero_of_lt hcount)
    obtain ⟨needed, hrest⟩ := ih (fun m' h => hx m' (List.mem_cons_of_mem first h)) hbs'
      (p.unread_eq hr) (Nat.lt_of_succ_lt_succ hcount)
    refine ⟨needed, ?_⟩
    rw [each_of_ok hr₁, List.map_cons, hrest, p.ending, List.map_cons, List.cons_append]

/-! ## §3 The four formats -/

/-- A format whose messages are taken from their bytes tells of every cut. -/
theorem Format.CutShort.of_takes {α : Type} {F : Format α}
    (h : ∀ m b, F.encode m = .ok b → Takes (F.decode (F.version m)) b m) : F.CutShort where
  ended m front more r hm hmore hr hend := by
    obtain ⟨needed, hcut⟩ := (h m _ hm).cut hmore hr
    exact ⟨needed, by rw [hcut, Reader.endError_of_ended needed hend]⟩
  failed m front more r cause hm hmore hr hend hcause := by
    obtain ⟨needed, hcut⟩ := (h m _ hm).cut hmore hr
    rw [hcut, hend, Reader.endError_of_failed needed hcause]
  many v ms bs m front more r count hv hbs hm hb hmore hr hcount := by
    have hcut : Takes (F.decode v) (front ++ more) m := hm ▸ h m _ hb
    exact Reader.each_of_cut (takes_of_version h hv) hbs hcut hmore hr hcount

/-- **A truncated message is a short read, or the failure of its stream**, in all four formats, for
every message that can be encoded and wherever it is cut. -/
theorem formats_cutShort :
    Format.requests.CutShort ∧ Format.responses.CutShort ∧
      Format.clientMessages.CutShort ∧ Format.serverMessages.CutShort :=
  ⟨.of_takes fun _ _ h => Request.takes_of_encode h,
    .of_takes fun _ _ h => Response.takes_of_encode h,
    .of_takes fun _ _ h => ClientMessage.takes_of_encode h,
    .of_takes fun _ _ h => ServerMessage.takes_of_encode h⟩

end BackupVault
