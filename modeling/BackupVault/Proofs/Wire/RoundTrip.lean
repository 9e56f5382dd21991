import BackupVault.Proofs.Wire.Encoding
import BackupVault.Wire.Messages

/-!
# Round trips over a stream

A message that can be encoded is read back from its encoding, whatever follows it on the stream
and however the stream is cut; so is any list of messages written one after another.

## Overview

- `Format`: a way to write and to read messages, with the four of this library
- `Format.RoundTrips`: reading undoes writing, for one message and for many
- `formats_roundTrip`: it does in all four formats
-/

set_option autoImplicit false

namespace BackupVault

/-- The byte strings of a list, one after another. -/
def Bytes.join (bs : List Bytes) : Bytes := bs.foldr (· ++ ·) ByteArray.empty

@[simp]
theorem Bytes.join_nil : Bytes.join [] = ByteArray.empty := rfl

@[simp]
theorem Bytes.join_cons (b : Bytes) (bs : List Bytes) :
    Bytes.join (b :: bs) = b ++ Bytes.join bs := rfl

/-! ## §1 Formats -/

/-- A way to write messages, each of which carries its version, and to read those of a version. -/
structure Format (α : Type) where
  version : α → UInt8
  encode : α → Except WireError Bytes
  decode : UInt8 → Read α

namespace Format

def requests : Format Request := ⟨Request.version, Request.encode, Request.decode⟩

def responses : Format Response := ⟨Response.version, Response.encode, Response.decode⟩

def clientMessages : Format ClientMessage :=
  ⟨ClientMessage.version, ClientMessage.encode, ClientMessage.decode⟩

def serverMessages : Format ServerMessage :=
  ⟨ServerMessage.version, ServerMessage.encode, ServerMessage.decode⟩

variable {α : Type}

/-- Reading undoes writing.  The reader is any reader: its stream may be cut into reads of any
sizes, may have been read before, and may go on and end in any way. -/
structure RoundTrips (F : Format α) : Prop where
  /-- One message is read back, with exactly its bytes. -/
  one : ∀ (m : α) (b rest : Bytes) (r : Reader), F.encode m = .ok b → r.unread = b ++ rest →
    ∃ r', F.decode (F.version m) r = .ok m r' ∧
      r'.consumed = r.consumed + b.size ∧ r'.unread = rest
  /-- Messages of one version are read back in order, with exactly their bytes. -/
  many : ∀ (v : UInt8) (ms : List α) (bs : List Bytes) (rest : Bytes) (r : Reader),
    (∀ m ∈ ms, F.version m = v) → ms.mapM F.encode = .ok bs → r.unread = Bytes.join bs ++ rest →
    (Reader.each (F.decode v) ms.length r).map Prod.fst = ms.map .ok ∧
      let last := ((Reader.each (F.decode v) ms.length r).map Prod.snd).getLastD r
      last.consumed = r.consumed + (Bytes.join bs).size ∧ last.unread = rest

end Format

/-! ## §2 From one message to many -/

theorem Reader.each_of_ok {α : Type} {x : Read α} {r r' : Reader} {a : α} (h : x r = .ok a r')
    (count : Nat) : each x (count + 1) r = (.ok a, r') :: each x count r' := by
  rw [each, h]

theorem Reader.each_of_error {α : Type} {x : Read α} {r r' : Reader} {e : WireError}
    (h : x r = .error e r') (count : Nat) : each x (count + 1) r = [(.error e, r')] := by
  rw [each, h]

/-- A reading that takes each of some byte strings for a value reads the values off all of them, by
induction on the list. -/
theorem Reader.each_of_takes {α : Type} {x : Read α} {encode : α → Except WireError Bytes}
    {ms : List α} (hx : ∀ m ∈ ms, ∀ b, encode m = .ok b → Takes x b m) {bs : List Bytes}
    (hbs : ms.mapM encode = .ok bs) {rest : Bytes} {r : Reader}
    (hr : r.unread = Bytes.join bs ++ rest) :
    (each x ms.length r).map Prod.fst = ms.map .ok ∧
      r.Passed (Bytes.join bs) (((each x ms.length r).map Prod.snd).getLastD r) := by
  induction ms generalizing bs r with
  | nil =>
    obtain rfl := mapM_nil_eq_ok.mp hbs
    exact ⟨rfl, Passed.refl r⟩
  | cons m ms ih =>
    obtain ⟨b, bs', hb, hbs', rfl⟩ := mapM_cons_eq_ok.mp hbs
    rw [Bytes.join_cons, ByteArray.append_assoc] at hr
    -- The reader of the first message has the bytes of the others before it.
    obtain ⟨r₁, hr₁, p₁⟩ := (hx m List.mem_cons_self b hb).whole r _ hr
    obtain ⟨hfst, hlast⟩ := ih (fun n hn => hx n (List.mem_cons_of_mem m hn)) hbs'
      (p₁.unread_eq hr)
    rw [List.length_cons, each_of_ok hr₁]
    refine ⟨by rw [List.map_cons, List.map_cons, hfst], ?_⟩
    rw [List.map_cons, List.getLastD_cons, Bytes.join_cons]
    exact p₁.trans hlast

/-- Messages that all carry one version are taken from their bytes by the reading of this version. -/
theorem Format.takes_of_version {α : Type} {F : Format α}
    (h : ∀ m b, F.encode m = .ok b → Takes (F.decode (F.version m)) b m) {v : UInt8} {ms : List α}
    (hv : ∀ m ∈ ms, F.version m = v) :
    ∀ m ∈ ms, ∀ b, F.encode m = .ok b → Takes (F.decode v) b m := by
  intro m hm b hb
  rw [← hv m hm]
  exact h m b hb

/-- A format whose messages are taken from their bytes round-trips. -/
theorem Format.RoundTrips.of_takes {α : Type} {F : Format α}
    (h : ∀ m b, F.encode m = .ok b → Takes (F.decode (F.version m)) b m) : F.RoundTrips where
  one m b rest r hb hr := by
    obtain ⟨r', hr', p⟩ := (h m b hb).whole r rest hr
    exact ⟨r', hr', p.consumed, p.unread_eq hr⟩
  many v ms bs rest r hv hbs hr := by
    obtain ⟨hfst, p⟩ := Reader.each_of_takes (takes_of_version h hv) hbs hr
    exact ⟨hfst, p.consumed, p.unread_eq hr⟩

/-! ## §3 The four formats -/

theorem clientMessages_roundTrip : Format.clientMessages.RoundTrips :=
  .of_takes fun _ _ h => ClientMessage.takes_of_encode h

/-- **Reading undoes writing** in all four formats, inside a longer stream and for any number of
messages. -/
theorem formats_roundTrip :
    Format.requests.RoundTrips ∧ Format.responses.RoundTrips ∧
      Format.clientMessages.RoundTrips ∧ Format.serverMessages.RoundTrips :=
  ⟨.of_takes fun _ _ h => Request.takes_of_encode h,
    .of_takes fun _ _ h => Response.takes_of_encode h,
    .of_takes fun _ _ h => ClientMessage.takes_of_encode h,
    .of_takes fun _ _ h => ServerMessage.takes_of_encode h⟩

end BackupVault
