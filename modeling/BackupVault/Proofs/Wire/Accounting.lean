import BackupVault.Proofs.Wire.Reading
import BackupVault.Wire.Fields

/-!
# The accounts of a reader

A reader of bytes in memory counts what it takes.  The count and the bytes that remain come to all
the bytes until a read is short; a short read takes whatever remains and counts none of it.  So at
any time the count is that of the reads that were filled.

## Overview

- `Get.lead`, `Get.body`, `Get.Small`: the reads that a field is made of
- `Get.read_eq`: a field is its length, then its bytes, then what they say
- `Taken`: what taking a field may come to
- `Accounts`: what holds of the count and of the bytes that remain, step by step
- `Reader.Accounted`, `Reader.accounted`: the accounts after any fields
-/

set_option autoImplicit false

namespace BackupVault

/-! ## §1 The reads of a field -/

namespace Get

/-- The bytes of the length that is read before the field, if the field brings its length. -/
def lead : Get → Nat
  | text => 2
  | blob => 4
  | _ => 0

/-- The length of the field, once the bytes that give it were read. -/
def body (length : Bytes) : Get → Nat
  | u8 => 1
  | u16 => 2
  | u32 => 4
  | bytes n => n
  | block n => n.toNat
  | textOf n => n
  | text => (UInt16.ofNat length.toNatLE).toNat
  | blob => (UInt32.ofNat length.toNatLE).toNat
  | name => nameCapacity
  | clientId => 16

/-- The text that some bytes are. -/
def decodeText (b : Bytes) : Except WireError Field :=
  match String.fromUTF8? b with
  | some s => .ok (.text s)
  | none => .error (.invalidText "text")

/-- What the bytes of the field say. -/
def decode (b : Bytes) : Get → Except WireError Field
  | u8 => .ok (.number (UInt8.ofNat b.toNatLE).toNat)
  | u16 => .ok (.number (UInt16.ofNat b.toNatLE).toNat)
  | u32 => .ok (.number (UInt32.ofNat b.toNatLE).toNat)
  | bytes _ | block _ | blob => .ok (.bytes b)
  | textOf _ | text => decodeText b
  | name => .ok (.name (Name.padded b))
  | clientId => .ok (.clientId (ClientId.padded b))

/-- The bytes that the field needs of those before it. -/
def need (g : Get) (before : Bytes) : Nat := g.lead + g.body (before.extract 0 g.lead)

/-- The field is not longer than a payload may be. -/
def Small (g : Get) (before : Bytes) : Prop := g.body (before.extract 0 g.lead) ≤ maxPayload

instance (g : Get) (before : Bytes) : Decidable (g.Small before) :=
  inferInstanceAs (Decidable (_ ≤ _))

/-- The bytes of those reads of the field that are filled: the read of its length, and that of the
field, which is made only if the field is small. -/
def filled (g : Get) (before : Bytes) : Nat :=
  (if g.lead ≤ before.size then g.lead else 0) +
    (if g.Small before ∧ g.need before ≤ before.size then g.body (before.extract 0 g.lead) else 0)

end Get

namespace Reader

theorem fill_zero : fill 0 = pure ByteArray.empty := by
  funext r
  have hskip : r.source.skip 0 = (r.source, 0) := by rw [Source.skip, if_pos rfl]
  simp only [fill, hskip, Source.peek, Nat.add_zero, ByteArray.extract_same, ↓reduceIte]
  rfl

theorem bytes_of_le {n : Nat} (h : n ≤ maxPayload) : bytes n = fill n := if_neg (Nat.not_lt.mpr h)

theorem bytes_of_lt {n : Nat} (h : maxPayload < n) : bytes n = throw (.payloadTooLarge n) :=
  if_pos h

end Reader

theorem Reader.textOf_eq (n : Nat) :
    (do return Field.text (← textOf n "text")) = bytes n >>= fun b => lift (Get.decodeText b) := by
  rw [textOf, bind_assoc]
  congr 1
  funext b
  cases h : String.fromUTF8? b <;> simp only [Get.decodeText, h] <;> rfl

/-- A field is read as its length, if it brings one, then its bytes, and then what they say. -/
theorem Get.read_eq (g : Get) : g.read = (do
    let length ← Reader.fill g.lead
    let b ← Reader.bytes (g.body length)
    Reader.lift (g.decode b)) := by
  cases g with
  | textOf n =>
    simp only [read, lead, body, decode, Reader.fill_zero, pure_bind]
    exact Reader.textOf_eq n
  | text =>
    simp only [read, lead, body, decode, Reader.text, Reader.u16, bind_assoc, pure_bind]
    congr 1
    funext length
    exact Reader.textOf_eq _
  | blob =>
    simp only [read, lead, body, decode, Reader.blob, Reader.u32, bind_assoc, pure_bind,
      Reader.lift]
  | bytes n | block n =>
    simp only [read, lead, body, decode, Reader.block, Reader.fill_zero, pure_bind, Reader.lift]
  | u8 | u16 | u32 | name | clientId =>
    simp (disch := decide) only [read, lead, body, decode, Reader.u8, Reader.u16, Reader.u32,
      Reader.name, Reader.clientId, Reader.fill_zero, Reader.bytes_of_le, bind_assoc, pure_bind,
      Reader.lift]

/-! ## §2 Taking a field -/

/-- What taking a field from a reader that ends in peace may come to. -/
inductive Taken (g : Get) (r : Reader) : Except WireError Field → Reader → Prop
  /-- The bytes end in the field, or in its length. -/
  | short {n : Nat} {r' : Reader} (hsmall : g.Small r.unread)
      (hneed : r.remaining < g.need r.unread) (hempty : r'.remaining = 0)
      (hconsumed : r'.consumed = r.consumed + g.filled r.unread)
      (hending : r'.source.ending = r.source.ending) : Taken g r (.error (.shortRead n)) r'
  /-- The field is too long, and only its length is taken. -/
  | tooLarge {n : Nat} {length : Bytes} {r' : Reader} (hlarge : ¬ g.Small r.unread)
      (hsize : length.size = g.lead) (hpassed : r.Passed length r') :
      Taken g r (.error (.payloadTooLarge n)) r'
  /-- The field is taken, whatever its bytes say. -/
  | whole {length b : Bytes} {r' : Reader} (hsmall : g.Small r.unread)
      (hsize : (length ++ b).size = g.need r.unread) (hpassed : r.Passed (length ++ b) r') :
      Taken g r (g.decode b) r'

namespace Get

variable {g : Get} {length before rest : Bytes}

theorem extract_lead (hsize : length.size = g.lead) (h : before = length ++ rest) :
    before.extract 0 g.lead = length := by
  rw [h, ← hsize, ByteArray.extract_append_eq_left rfl]

/-- A length that is not all there is no large one. -/
theorem small_of_lt (h : before.size < g.lead) : g.Small before := by
  cases g with
  | text => exact Nat.le_trans (Nat.le_of_lt (UInt16.toNat_lt _)) (by decide)
  | blob =>
    have hsize : (before.extract 0 4).data.toList.length ≤ 3 := by
      rw [Bytes.length_toList, ByteArray.size_extract]
      simp only [lead] at h
      omega
    have hlt : Bytes.toNatLE (before.extract 0 4) < 256 ^ 3 :=
      Nat.lt_of_lt_of_le (Bytes.natOfListLE_lt _) (Nat.pow_le_pow_right (by decide) hsize)
    exact Nat.le_trans (Nat.mod_le _ _) (Nat.le_trans (Nat.le_of_lt hlt) (by decide))
  | _ => exact absurd h (Nat.not_lt_zero _)

theorem lead_le_need : g.lead ≤ g.need before := Nat.le_add_right _ _

theorem filled_of_lt (h : before.size < g.lead) : g.filled before = 0 := by
  have hneed : ¬ g.need before ≤ before.size :=
    Nat.not_le.mpr (Nat.lt_of_lt_of_le h lead_le_need)
  rw [filled, if_neg (Nat.not_le.mpr h), if_neg fun hbody => hneed hbody.2]

theorem filled_of_lead (hlead : g.lead ≤ before.size)
    (hbody : ¬ (g.Small before ∧ g.need before ≤ before.size)) : g.filled before = g.lead := by
  rw [filled, if_pos hlead, if_neg hbody, Nat.add_zero]

theorem filled_of_whole (hsmall : g.Small before) (hneed : g.need before ≤ before.size) :
    g.filled before = g.need before := by
  rw [filled, if_pos (Nat.le_trans lead_le_need hneed), if_pos ⟨hsmall, hneed⟩, need]

theorem filled_le : g.filled before ≤ before.size := by
  by_cases hwhole : g.Small before ∧ g.need before ≤ before.size
  · rw [filled_of_whole hwhole.1 hwhole.2]
    exact hwhole.2
  · rcases Nat.lt_or_ge before.size g.lead with hlead | hlead
    · rw [filled_of_lt hlead]
      exact Nat.zero_le _
    · rw [filled_of_lead hlead hwhole]
      exact hlead

end Get

namespace Reader

variable {r r' : Reader} {g : Get} {b : Bytes}

theorem Passed.remaining_eq (p : r.Passed b r') : r.remaining = b.size + r'.remaining := by
  rw [← r.size_unread, ← r'.size_unread, p.unread, ByteArray.size_append]

theorem Passed.size_le_unread (p : r.Passed b r') : b.size ≤ r.unread.size := by
  rw [r.size_unread, p.remaining_eq]
  exact Nat.le_add_right ..

/-- A read that the bytes cannot fill takes them all. -/
theorem fill_short {n : Nat} (hclosed : r.source.ending = .closed) (h : r.remaining < n) :
    ∃ r', fill n r = .error (.shortRead n) r' ∧ r'.remaining = 0 ∧ r'.consumed = r.consumed ∧
      r'.source.ending = r.source.ending := by
  obtain ⟨r', hfill, hempty, hconsumed, hending⟩ := fill_exhausts (r.size_unread ▸ h)
  rw [hclosed] at hfill
  exact ⟨r', hfill, by rw [← size_unread, hempty, ByteArray.size_empty], hconsumed, hending⟩

theorem get_eq (r : Reader) (g : Get) : r.get g = (outcome (g.read r), after (g.read r)) := by
  rw [get]
  cases g.read r <;> rfl

/-- **Taking a field** comes to one of three things, as the bytes before the reader have it. -/
theorem taken (g : Get) (hclosed : r.source.ending = .closed) :
    Taken g r (r.get g).1 (r.get g).2 := by
  rw [get_eq, g.read_eq]
  rcases Nat.lt_or_ge r.remaining g.lead with hlead | hlead
  · -- The bytes end in the length.
    obtain ⟨r', hfill, hempty, hconsumed, hending⟩ := fill_short hclosed hlead
    rw [bind_run_error hfill]
    have hneed : r.remaining < g.need r.unread := Nat.lt_of_lt_of_le hlead Get.lead_le_need
    rw [← r.size_unread] at hlead
    exact .short (Get.small_of_lt hlead) hneed hempty
      (by rw [Get.filled_of_lt hlead]; exact hconsumed) hending
  · rw [← r.size_unread] at hlead
    obtain ⟨length, r₁, hsize, hfill, p⟩ := fill_of_le hlead
    have hlength : r.unread.extract 0 g.lead = length := Get.extract_lead hsize p.unread
    rw [bind_run_ok hfill, ← hlength]
    by_cases hsmall : g.Small r.unread
    · rw [bytes_of_le hsmall]
      rcases Nat.lt_or_ge r₁.remaining (g.body (r.unread.extract 0 g.lead)) with hbody | hbody
      · -- They end in what comes after it.
        obtain ⟨r', hfill', hempty, hconsumed, hending⟩ := fill_short (p.ending.trans hclosed) hbody
        rw [bind_run_error hfill']
        have hneed : r.unread.size < g.need r.unread := by
          rw [r.size_unread, p.remaining_eq, hsize]
          exact Nat.add_lt_add_left hbody _
        have hfilled := Get.filled_of_lead hlead fun h => Nat.not_le.mpr hneed h.2
        exact .short hsmall (r.size_unread ▸ hneed) hempty
          (by rw [hfilled, ← hsize, ← p.consumed]; exact hconsumed) (hending.trans p.ending)
      · -- All that the field needs is there.
        obtain ⟨b, r', hsize', hfill', p'⟩ := fill_of_le (r₁.size_unread.symm ▸ hbody)
        rw [bind_run_ok hfill', outcome_lift, after_lift]
        exact .whole hsmall (by rw [ByteArray.size_append, hsize, hsize', Get.need]) (p.trans p')
    · -- The field is refused, and so its bytes are not read.
      rw [bytes_of_lt (Nat.not_le.mp hsmall)]
      exact .tooLarge hsmall hsize p

end Reader

/-! ## §3 Accounts -/

/-- A read that was short. -/
def ShortRead (told : Except WireError Field) : Prop := ∃ n, told = .error (.shortRead n)

/-- The accounts of a reader `r` that has become `r'`, where `told` is what came of the fields that
were taken and `counted` the bytes of the reads that were filled. -/
structure Accounts (r : Reader) (told : List (Except WireError Field)) (counted : Nat)
    (r' : Reader) : Prop where
  consumed : r'.consumed = r.consumed + counted
  whole : (∀ t ∈ told, ¬ ShortRead t) → r'.consumed + r'.remaining = r.consumed + r.remaining
  within : r'.consumed + r'.remaining ≤ r.consumed + r.remaining
  emptied : (∃ t ∈ told, ShortRead t) → r'.remaining = 0
  ending : r'.source.ending = r.source.ending

namespace Get

theorem decode_eq_error {g : Get} {b : Bytes} {e : WireError} (h : g.decode b = .error e) :
    e = .invalidText "text" := by
  cases g with
  | textOf _ | text =>
    simp only [decode, decodeText] at h
    split at h <;> cases h
    rfl
  | _ => cases h

theorem not_shortRead_decode (g : Get) (b : Bytes) : ¬ ShortRead (g.decode b) := by
  rintro ⟨n, h⟩
  cases decode_eq_error h

end Get

namespace Accounts

variable {r r₁ r' : Reader} {told more : List (Except WireError Field)} {n m : Nat}

theorem refl (r : Reader) : Accounts r [] 0 r where
  consumed := rfl
  whole _ := rfl
  within := Nat.le_refl _
  emptied := fun ⟨_, h, _⟩ => absurd h List.not_mem_nil
  ending := rfl

theorem trans (h : Accounts r told n r₁) (h' : Accounts r₁ more m r') :
    Accounts r (told ++ more) (n + m) r' where
  consumed := by rw [h'.consumed, h.consumed, Nat.add_assoc]
  whole hwhole := by
    rw [h'.whole fun t ht => hwhole t (List.mem_append_right told ht)]
    exact h.whole fun t ht => hwhole t (List.mem_append_left more ht)
  within := Nat.le_trans h'.within h.within
  emptied := by
    rintro ⟨t, ht, hshort⟩
    rcases List.mem_append.mp ht with ht | ht
    · -- The count does not fall, so nothing can come back.
      have hnone := h.emptied ⟨t, ht, hshort⟩
      have hwithin := h'.within
      rw [h'.consumed] at hwithin
      omega
    · exact h'.emptied ⟨t, ht, hshort⟩
  ending := h'.ending.trans h.ending

/-- A reader that moved on by some bytes counts them, and does not have them before it. -/
theorem of_passed {t : Except WireError Field} {b : Bytes} (p : r.Passed b r')
    (h : ¬ ShortRead t) : Accounts r [t] b.size r' := by
  have hwhole : r'.consumed + r'.remaining = r.consumed + r.remaining := by
    rw [p.consumed, p.remaining_eq, Nat.add_assoc]
  refine ⟨p.consumed, fun _ => hwhole, Nat.le_of_eq hwhole, ?_, p.ending⟩
  rintro ⟨t', ht', hshort⟩
  rw [List.mem_singleton.mp ht'] at hshort
  exact absurd hshort h

end Accounts

/-- **Taking a field keeps the accounts.** -/
theorem Taken.accounts {g : Get} {r r' : Reader} {told : Except WireError Field}
    (h : Taken g r told r') : Accounts r [told] (g.filled r.unread) r' := by
  cases h with
  | short hsmall hneed hempty hconsumed hending =>
    refine ⟨hconsumed, fun h => ?_, ?_, fun _ => hempty, hending⟩
    · exact absurd ⟨_, rfl⟩ (h _ List.mem_cons_self)
    · rw [hconsumed, hempty, ← r.size_unread]
      exact Nat.add_le_add_left Get.filled_le _
  | @tooLarge _ length _ hlarge hsize p =>
    have hlead : g.lead ≤ r.unread.size := hsize ▸ p.size_le_unread
    rw [Get.filled_of_lead hlead fun h => hlarge h.1, ← hsize]
    exact .of_passed p (by rintro ⟨_, h⟩; cases h)
  | @whole length b _ hsmall hsize p =>
    have hneed : g.need r.unread ≤ r.unread.size := hsize ▸ p.size_le_unread
    rw [Get.filled_of_whole hsmall hneed, ← hsize]
    exact .of_passed p (g.not_shortRead_decode b)

namespace Reader

/-- The bytes of the reads that are filled as the fields are taken. -/
def filledBy (r : Reader) : List Get → Nat
  | [] => 0
  | g :: rest => g.filled r.unread + (r.get g).2.filledBy rest

/-- Taking fields keeps the accounts, whatever comes of each; by induction on the list. -/
theorem accounts_getEach (r : Reader) (gs : List Get) (hclosed : r.source.ending = .closed) :
    Accounts r (r.getEach gs).1 (r.filledBy gs) (r.getEach gs).2 := by
  induction gs generalizing r with
  | nil => exact .refl r
  | cons g rest ih =>
    have hstep := (taken (r := r) g hclosed).accounts
    exact hstep.trans (ih (r.get g).2 (hstep.ending.trans hclosed))

/-- What is told of a field that is taken, and what is taken and counted of it. -/
structure Judged (g : Get) (r : Reader) (told : Except WireError Field) (r' : Reader) : Prop where
  /-- The read of a field that is not too long is short if the field needs more than remains. -/
  short : g.Small r.unread → (ShortRead told ↔ r.remaining < g.need r.unread)
  /-- After a short read there is nothing left. -/
  emptied : ShortRead told → r'.remaining = 0
  /-- A field is refused for its length exactly if it is too long. -/
  large : (∃ n, told = .error (.payloadTooLarge n)) ↔ ¬ g.Small r.unread
  /-- Of a field that is refused so, its length is taken and counted, if it brings one. -/
  refused : ∀ n, told = .error (.payloadTooLarge n) →
    ∃ length, length.size = g.lead ∧ r.Passed length r'
  /-- Bytes that are no text are taken and counted as all others are. -/
  invalid : ∀ field, told = .error (.invalidText field) →
    ∃ b, b.size = g.need r.unread ∧ r.Passed b r'

/-- The accounts of a reader of the bytes `b` that has become `r`, after some fields of which `told`
came were taken. -/
structure Accounted (b : Bytes) (gs : List Get) (told : List (Except WireError Field))
    (r : Reader) : Prop where
  /-- Until a read is short, the count and what remains come to all the bytes. -/
  whole : (∀ t ∈ told, ¬ ShortRead t) → r.consumed + r.remaining = b.size
  /-- Once a read was short, nothing remains. -/
  emptied : (∃ t ∈ told, ShortRead t) → r.remaining = 0
  /-- The count is always that of the reads that were filled, and never more than the bytes. -/
  counted : r.consumed = (ofBytes b).filledBy gs
  within : r.consumed ≤ b.size
  /-- Whichever field is taken next, this is what comes of it. -/
  next : ∀ g, Judged g r (r.get g).1 (r.get g).2
  /-- A block that was decoded is good exactly if nothing remains of it. -/
  closed : ∀ {α : Type} (v : α) (declared : UInt32),
    r.finish (.ok v) declared = .ok v ↔ r.remaining = 0

end Reader

theorem Taken.judged {g : Get} {r r' : Reader} {told : Except WireError Field}
    (h : Taken g r told r') : Reader.Judged g r told r' := by
  cases h with
  | short hsmall hneed hempty =>
    exact {
      short := fun _ => iff_of_true ⟨_, rfl⟩ hneed
      emptied := fun _ => hempty
      large := iff_of_false (fun ⟨_, h⟩ => nomatch h) (not_not_intro hsmall)
      refused := fun _ h => nomatch h
      invalid := fun _ h => nomatch h }
  | @tooLarge _ length _ hlarge hsize p =>
    exact {
      short := fun hsmall => absurd hsmall hlarge
      emptied := fun ⟨_, h⟩ => nomatch h
      large := iff_of_true ⟨_, rfl⟩ hlarge
      refused := fun _ _ => ⟨length, hsize, p⟩
      invalid := fun _ h => nomatch h }
  | @whole length b _ hsmall hsize p =>
    have hneed : g.need r.unread ≤ r.remaining := r.size_unread ▸ hsize ▸ p.size_le_unread
    have hlarge : ∀ n, g.decode b ≠ .error (.payloadTooLarge n) := fun n h =>
      nomatch Get.decode_eq_error h
    exact {
      short := fun _ => iff_of_false (g.not_shortRead_decode b) (Nat.not_lt.mpr hneed)
      emptied := fun hshort => absurd hshort (g.not_shortRead_decode b)
      large := iff_of_false (fun ⟨n, h⟩ => hlarge n h) (not_not_intro hsmall)
      refused := fun n h => absurd h (hlarge n)
      invalid := fun _ _ => ⟨length ++ b, hsize, p⟩ }

namespace Reader

theorem finish_ok_iff {α : Type} (r : Reader) (v : α) (declared : UInt32) :
    r.finish (.ok v) declared = .ok v ↔ r.remaining = 0 := by
  simp [finish]

/-- **The accounts of a reader are exact**, whatever fields are taken from it, in whatever order and
whatever comes of them. -/
theorem accounted (b : Bytes) (gs : List Get) :
    Accounted b gs ((ofBytes b).getEach gs).1 ((ofBytes b).getEach gs).2 := by
  have haccounts := accounts_getEach (ofBytes b) gs rfl
  have hall : (ofBytes b).consumed + (ofBytes b).remaining = b.size := Nat.zero_add b.size
  exact {
    whole := fun hwhole => (haccounts.whole hwhole).trans hall
    emptied := haccounts.emptied
    counted := haccounts.consumed.trans (Nat.zero_add _)
    within := Nat.le_trans (Nat.le_add_right ..) (hall ▸ haccounts.within)
    next := fun g => (taken g (haccounts.ending.trans rfl)).judged
    closed := finish_ok_iff _ }

end Reader

end BackupVault
