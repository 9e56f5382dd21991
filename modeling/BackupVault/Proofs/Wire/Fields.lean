import BackupVault.Proofs.Wire.RoundTrip
import BackupVault.Proofs.Wire.Sizes
import BackupVault.Wire.Fields

/-!
# Fields that are put are read back

A frame is put together field by field, with frames in it that were put together in the same way.
The frame then holds the fields that could be put, and reading these fields off it gives what was
put, with whatever follows it left alone.  A field that cannot be put leaves no trace.

## Overview

- `Part`, `Put.parts`: the fields that lie in a field, with what there is to say of each
- `Frame.Writes`: a step writes certain parts, unless one of them is too large; `Frame.atOnce`: it
  is done as a whole or not at all
- `Reader.getEach_of_takes`: parts are read off their bytes
- `Frame.ReadsBack`, `Frame.fields_read_back`: fields are read back
- `Frame.slice_refused`: bytes that were put without a length may be too many for one reading
-/

set_option autoImplicit false

namespace BackupVault

/-! ## §1 The parts of a field -/

/-- A field without others in it: how it is read, and as what, the bytes that it comes to, and why
it cannot be put, if it cannot. -/
structure Part where
  get : Get
  value : Field
  encoding : Bytes
  excess : Option WireError := none

namespace Part

/-- What is too much for a limit. -/
def beyond (field : String) (size limit : Nat) : Option WireError :=
  if size ≤ limit then none else some (.fieldTooLong field size limit)

theorem beyond_eq_none {field : String} {size limit : Nat} :
    beyond field size limit = none ↔ size ≤ limit := by
  simp [beyond]

/-- The bytes of the parts, one after another. -/
def encodings (parts : List Part) : Bytes := Bytes.join (parts.map encoding)

/-- Why the parts cannot be put: the first of them that is too large. -/
def excesses (parts : List Part) : Option WireError := parts.findSome? excess

@[simp]
theorem encodings_nil : encodings [] = ByteArray.empty := rfl

@[simp]
theorem encodings_append (parts more : List Part) :
    encodings (parts ++ more) = encodings parts ++ encodings more := by
  induction parts with
  | nil => simp
  | cons part parts ih =>
    show part.encoding ++ encodings (parts ++ more) = part.encoding ++ encodings parts ++ _
    rw [ih, ByteArray.append_assoc]

theorem encodings_single (part : Part) : encodings [part] = part.encoding := ByteArray.append_empty

@[simp]
theorem excesses_append (parts more : List Part) :
    excesses (parts ++ more) = (excesses parts).or (excesses more) := by
  simp [excesses, List.findSome?_append]

theorem excesses_single (part : Part) : excesses [part] = part.excess := by
  cases h : part.excess <;> simp [excesses, h]

theorem excesses_eq_none {parts : List Part} :
    excesses parts = none ↔ ∀ part ∈ parts, part.excess = none := by
  simp [excesses, List.findSome?_eq_none_iff]

end Part

namespace Put

mutual

/-- The fields in a field, in order.  A field that is no frame is its own only part. -/
def parts : Put → List Part
  | .u8 v => [{ get := .u8, value := .number v.toNat, encoding := Bytes.ofList [v] }]
  | .u16 v => [{ get := .u16, value := .number v.toNat, encoding := Bytes.ofNatLE 2 v.toNat }]
  | .u32 v => [{ get := .u32, value := .number v.toNat, encoding := Bytes.ofNatLE 4 v.toNat }]
  | .bytes b => [{ get := .bytes b.size, value := .bytes b, encoding := b }]
  | .frame fields => partsOfAll fields
  | .name n => [{ get := .name, value := .name n, encoding := n.bytes }]
  | .clientId id => [{ get := .clientId, value := .clientId id, encoding := id.bytes }]
  | .text s =>
    let b := Bytes.ofText s
    [{ get := .text, value := .text s, encoding := Bytes.ofNatLE 2 b.size ++ b,
       excess := Part.beyond "text" b.size maxText }]
  | .blob b =>
    [{ get := .blob, value := .bytes b, encoding := Bytes.ofNatLE 4 b.size ++ b,
       excess := Part.beyond "blob" b.size maxPayload }]

def partsOfAll : List Put → List Part
  | [] => []
  | p :: rest => parts p ++ partsOfAll rest

end

theorem partsOfAll_eq (ps : List Put) : partsOfAll ps = ps.flatMap parts := by
  induction ps with
  | nil => rfl
  | cons p rest ih => rw [partsOfAll, ih, List.flatMap_cons]

/-- The field can be put: nothing in it is too large. -/
def fits (p : Put) : Bool := (Part.excesses p.parts).isNone

theorem excesses_eq_none {p : Put} : Part.excesses p.parts = none ↔ p.fits = true := by
  simp [fits]

end Put

/-! ## §2 Writing -/

namespace Frame

/-- The step writes the parts at the end of any frame, unless one of them is too large. -/
def Writes (step : Step) (parts : List Part) : Prop :=
  ∀ f, match Part.excesses parts with
    | none => step f = .ok () (f.putBytes (Part.encodings parts))
    | some e => ∃ g, step f = .error e g

namespace Writes

variable {step next : Step} {parts more : List Part}

theorem of_none (h : Writes step parts) (hnone : Part.excesses parts = none) (f : Frame) :
    step f = .ok () (f.putBytes (Part.encodings parts)) := by
  have hf := h f
  rwa [hnone] at hf

theorem of_some (h : Writes step parts) {e : WireError} (hsome : Part.excesses parts = some e)
    (f : Frame) : ∃ g, step f = .error e g := by
  have hf := h f
  rwa [hsome] at hf

theorem nothing : Writes (pure ()) [] := by
  intro f
  show EStateM.Result.ok () f = .ok () (f.putBytes ByteArray.empty)
  rw [putBytes, ByteArray.append_empty]

/-- A part that is always small enough is written. -/
theorem part {part : Part} (hnone : part.excess = none)
    (h : ∀ f, step f = .ok () (f.putBytes part.encoding)) : Writes step [part] := by
  intro f
  rw [Part.excesses_single, hnone, Part.encodings_single]
  exact h f

/-- A part that may be too large is written if it is not. -/
theorem limited {part : Part} {field : String} {size limit : Nat}
    (hpart : part.excess = Part.beyond field size limit)
    (hok : size ≤ limit → ∀ f, step f = .ok () (f.putBytes part.encoding))
    (herror : ¬ size ≤ limit → ∀ f, ∃ g, step f = .error (.fieldTooLong field size limit) g) :
    Writes step [part] := by
  intro f
  rw [Part.excesses_single, Part.encodings_single, hpart]
  by_cases hsize : size ≤ limit
  · rw [Part.beyond_eq_none.mpr hsize]
    exact hok hsize f
  · rw [show Part.beyond field size limit = some _ from if_neg hsize]
    exact herror hsize f

/-- One step after another writes the parts of both. -/
theorem bind (h : Writes step parts) (hnext : Writes next more) :
    Writes (do step; next) (parts ++ more) := by
  intro f
  rw [Part.excesses_append, Part.encodings_append]
  cases hparts : Part.excesses parts with
  | some e =>
    obtain ⟨g, hg⟩ := h.of_some hparts f
    exact ⟨g, bind_run_error hg⟩
  | none =>
    have hstep := h.of_none hparts f
    cases hmore : Part.excesses more with
    | some e =>
      obtain ⟨g, hg⟩ := hnext.of_some hmore (f.putBytes (Part.encodings parts))
      exact ⟨g, (bind_run_ok hstep).trans hg⟩
    | none =>
      refine (bind_run_ok hstep).trans ((hnext.of_none hmore _).trans ?_)
      simp only [putBytes, ByteArray.append_assoc]

end Writes

variable {f g : Frame} {e : WireError}

/-- A step that is done as a whole or not at all. -/
def atOnce (x : Frame → Except WireError Frame) : Step := fun f =>
  match x f with
  | .ok g => .ok () g
  | .error e => .error e f

theorem eq_of_atOnce_error {x : Frame → Except WireError Frame} (h : atOnce x f = .error e g) :
    g = f := by
  unfold atOnce at h
  split at h
  · cases h
  · cases h
    rfl

/-- A text that is too long is refused before its length is written. -/
theorem textStep_eq (field s : String) : textStep field s = atOnce (·.putText field s) := by
  funext f
  unfold textStep
  by_cases hsize : (Bytes.ofText s).size ≤ maxText
  · have hput : f.putText field s = .ok _ := if_pos hsize
    rw [if_neg (Nat.not_lt.mpr hsize), atOnce, hput]
    rfl
  · have hput : f.putText field s = .error _ := if_neg hsize
    rw [if_pos (Nat.not_le.mp hsize), atOnce, hput]
    rfl

/-- Bytes that are too many are refused before their length is written. -/
theorem blobStep_eq (field : String) (b : Bytes) :
    blobStep field b = atOnce (·.putBlob field b) := by
  funext f
  unfold blobStep atOnce putBlob
  cases checkedSize field b.size with
  | ok size => rfl
  | error e => rfl

/-- A frame whose fields cannot all be put is not put at all. -/
theorem put_frame_eq (fields : List Put) : put (.frame fields) = atOnce fun f =>
    match putAll fields empty with
    | .ok _ built => .ok (f.putFrame built)
    | .error e _ => .error e := by
  funext f
  rw [put, atOnce]
  cases putAll fields empty <;> rfl

theorem eq_putBytes {b : Bytes} (h : g.bytes = f.bytes ++ b) : g = f.putBytes b := by
  cases g
  simpa [putBytes] using h

theorem writes_text (s : String) : Writes (textStep "text" s) (Put.text s).parts := by
  apply Writes.limited rfl
  · intro hsize f
    obtain ⟨g, hput, hg⟩ := putText_of_le "text" hsize f
    rw [textStep_eq, atOnce, hput, eq_putBytes hg]
  · intro hsize f
    exact ⟨f, by rw [textStep_eq, atOnce, putText, if_neg hsize]⟩

theorem writes_blob (b : Bytes) : Writes (blobStep "blob" b) (Put.blob b).parts := by
  apply Writes.limited rfl
  · intro hsize f
    obtain ⟨g, hput, hg⟩ := putBlob_of_le "blob" hsize f
    rw [blobStep_eq, atOnce, hput, eq_putBytes hg]
  · intro hsize f
    have hchecked : checkedSize "blob" b.size = .error _ := if_neg hsize
    exact ⟨f, by rw [blobStep_eq, atOnce, putBlob, hchecked]; rfl⟩

/-- A frame is written as a whole, once its own fields are. -/
theorem writes_frame {fields : List Put} (h : Writes (putAll fields) (Put.partsOfAll fields)) :
    Writes (put (.frame fields)) (Put.partsOfAll fields) := by
  intro f
  cases hparts : Part.excesses (Put.partsOfAll fields) with
  | none =>
    show put (.frame fields) f = .ok () (f.putBytes (Part.encodings (Put.partsOfAll fields)))
    rw [put, h.of_none hparts empty]
    simp [putFrame, putBytes]
  | some e =>
    obtain ⟨g, hg⟩ := h.of_some hparts empty
    exact ⟨f, by rw [put, hg]⟩

mutual

theorem writes_put : (p : Put) → Writes (put p) p.parts
  | .u8 v => .part rfl fun f => by rw [put, ← eq_putBytes (bytes_putU8 f v)]; rfl
  | .u16 _ => .part rfl fun _ => rfl
  | .u32 _ => .part rfl fun _ => rfl
  | .bytes _ => .part rfl fun _ => rfl
  | .frame fields => writes_frame (writes_putAll fields)
  | .name _ => .part rfl fun _ => rfl
  | .clientId _ => .part rfl fun _ => rfl
  | .text s => writes_text s
  | .blob b => writes_blob b

theorem writes_putAll : (ps : List Put) → Writes (putAll ps) (Put.partsOfAll ps)
  | [] => .nothing
  | p :: rest => (writes_put p).bind (writes_putAll rest)

end

/-- A field that cannot be put leaves the frame as it was. -/
theorem eq_of_put_error {p : Put} (h : put p f = .error e g) : g = f := by
  cases p with
  | frame fields =>
    rw [put_frame_eq] at h
    exact eq_of_atOnce_error h
  | text s =>
    rw [put, textStep_eq] at h
    exact eq_of_atOnce_error h
  | blob b =>
    rw [put, blobStep_eq] at h
    exact eq_of_atOnce_error h
  | _ => cases h

theorem putEach_of_ok {p : Put} (h : put p f = .ok () g) (rest : List Put) :
    f.putEach (p :: rest) = (.ok g.size :: (g.putEach rest).1, (g.putEach rest).2) := by
  rw [putEach, h]

theorem putEach_of_error {p : Put} (h : put p f = .error e g) (rest : List Put) :
    f.putEach (p :: rest) = (.error e :: (f.putEach rest).1, (f.putEach rest).2) := by
  rw [putEach, h, eq_of_put_error h]

/-- What is in a frame after some fields were put: the parts of those that fit, in order. -/
theorem putEach_eq (ps : List Put) (f : Frame) :
    (f.putEach ps).1.map Except.isOk = ps.map Put.fits ∧
      (f.putEach ps).2 =
        f.putBytes (Part.encodings ((ps.filter Put.fits).flatMap Put.parts)) := by
  induction ps generalizing f with
  | nil => exact ⟨rfl, (eq_putBytes ByteArray.append_empty.symm)⟩
  | cons p rest ih =>
    cases hfits : p.fits with
    | true =>
      have hput := (writes_put p).of_none (Put.excesses_eq_none.mpr hfits) f
      obtain ⟨htold, hrest⟩ := ih (f.putBytes (Part.encodings p.parts))
      rw [putEach_of_ok hput, List.filter_cons_of_pos hfits]
      refine ⟨by simp [htold, hfits, Except.isOk, Except.toBool], ?_⟩
      rw [hrest, List.flatMap_cons, Part.encodings_append]
      simp only [putBytes, ByteArray.append_assoc]
    | false =>
      obtain ⟨e, he⟩ := Option.isSome_iff_exists.mp (Option.isNone_eq_false_iff.mp hfits)
      obtain ⟨g, hput⟩ := (writes_put p).of_some he f
      obtain ⟨htold, hrest⟩ := ih f
      rw [putEach_of_error hput, List.filter_cons_of_neg (by simp [hfits])]
      exact ⟨by simp [htold, hfits, Except.isOk, Except.toBool], hrest⟩

end Frame

/-! ## §3 Reading -/

/-- The part is no run of bytes that is too long to be read at once. -/
def Part.Short (part : Part) : Prop := ∀ n, part.get = .bytes n → n ≤ maxPayload

/-- A part that could be put, and is short, is read off its bytes. -/
def Part.Reads (part : Part) : Prop :=
  part.excess = none → part.Short → Takes part.get.read part.encoding part.value

namespace Put

theorem reads_only {part : Part} (h : part.Reads) : ∀ part' ∈ [part], part'.Reads := by
  intro part' hpart
  rwa [List.mem_singleton.mp hpart]

mutual

theorem reads_parts : (p : Put) → ∀ part ∈ p.parts, part.Reads
  | .u8 v => reads_only fun _ _ => (Reader.takes_u8 v).map
  | .u16 v => reads_only fun _ _ => (Reader.takes_u16 v).map
  | .u32 v => reads_only fun _ _ => (Reader.takes_u32 v).map
  | .bytes b => reads_only fun _ hshort => (Reader.takes_bytes (hshort b.size rfl)).map
  | .frame fields => reads_partsOfAll fields
  | .name n => reads_only fun _ _ => (Reader.takes_name n).map
  | .clientId id => reads_only fun _ _ => (Reader.takes_clientId id).map
  | .text _ => reads_only fun hfits _ =>
    (Reader.takes_text (Part.beyond_eq_none.mp hfits) "text").map
  | .blob _ => reads_only fun hfits _ => (Reader.takes_blob (Part.beyond_eq_none.mp hfits)).map

theorem reads_partsOfAll : (ps : List Put) → ∀ part ∈ partsOfAll ps, part.Reads
  | [] => fun _ h => absurd h List.not_mem_nil
  | p :: rest => fun part h =>
    (List.mem_append.mp h).elim (reads_parts p part) (reads_partsOfAll rest part)

end

end Put

/-- Parts are read off their bytes in order, whatever follows them; by induction on the list. -/
theorem Reader.getEach_of_takes {parts : List Part}
    (h : ∀ part ∈ parts, Takes part.get.read part.encoding part.value) {r : Reader} {rest : Bytes}
    (hr : r.unread = Part.encodings parts ++ rest) :
    (r.getEach (parts.map Part.get)).1 = parts.map (fun part => .ok part.value) ∧
      r.Passed (Part.encodings parts) (r.getEach (parts.map Part.get)).2 := by
  induction parts generalizing r with
  | nil => exact ⟨rfl, .refl r⟩
  | cons part parts ih =>
    have hsplit : r.unread = part.encoding ++ (Part.encodings parts ++ rest) := by
      rw [hr, ← ByteArray.append_assoc]
      rfl
    obtain ⟨r₁, hr₁, p₁⟩ := (h part List.mem_cons_self).whole r _ hsplit
    obtain ⟨htold, p⟩ := ih (fun part' hpart => h part' (List.mem_cons_of_mem part hpart))
      (p₁.unread_eq hsplit)
    have hget : r.get part.get = (.ok part.value, r₁) := by rw [get, hr₁]
    rw [List.map_cons, getEach, hget]
    exact ⟨congrArg (.ok part.value :: ·) htold, p₁.trans p⟩

/-! ## §4 Fields -/

namespace Frame

/-- The fields that can be put are put, and read back from the frame. -/
structure ReadsBack (ps : List Put) : Prop where
  /-- A field is put if there is not too much in it. -/
  told : (empty.putEach ps).1.map Except.isOk = ps.map Put.fits
  /-- Reading the fields that were put, in any reader that has the frame before it, gives what was
  put, takes the bytes of the frame, and leaves what follows them. -/
  back : ∀ (r : Reader) (rest : Bytes), r.unread = (empty.putEach ps).2.bytes ++ rest →
    let parts := (ps.filter Put.fits).flatMap Put.parts
    (r.getEach (parts.map Part.get)).1 = parts.map (fun part => .ok part.value) ∧
      (r.getEach (parts.map Part.get)).2.consumed = r.consumed + (empty.putEach ps).2.size ∧
      (r.getEach (parts.map Part.get)).2.unread = rest
  /-- The frame may itself be put into another one, as the fields in it. -/
  nested : ∀ f, put (.frame (ps.filter Put.fits)) f = .ok () (f.putFrame (empty.putEach ps).2)

/-- **Fields are read back as they were put**, whatever their number and however frames are nested.
A field that cannot be put leaves the frame as it was.  Bytes that are put without their length are
read back if they are no more than a payload. -/
theorem fields_read_back :
    (∀ (p : Put) (f g : Frame) (e : WireError), put p f = .error e g → g = f) ∧
      ∀ ps : List Put, (∀ part ∈ (ps.filter Put.fits).flatMap Put.parts, part.Short) →
        ReadsBack ps := by
  refine ⟨fun p f g e h => eq_of_put_error h, fun ps hshort => ?_⟩
  obtain ⟨htold, hbuilt⟩ := putEach_eq ps empty
  -- Whatever is in the frame could be put.
  have hfits : ∀ part ∈ (ps.filter Put.fits).flatMap Put.parts, part.excess = none := by
    intro part hpart
    obtain ⟨p, hp, hmem⟩ := List.mem_flatMap.mp hpart
    exact Part.excesses_eq_none.mp (Put.excesses_eq_none.mpr (List.mem_filter.mp hp).2) part hmem
  refine ⟨htold, fun r rest hr => ?_, fun f => ?_⟩
  · have hbytes : (empty.putEach ps).2.bytes =
        Part.encodings ((ps.filter Put.fits).flatMap Put.parts) := by
      rw [hbuilt, bytes_putBytes, bytes_empty, ByteArray.empty_append]
    have htakes : ∀ part ∈ (ps.filter Put.fits).flatMap Put.parts,
        Takes part.get.read part.encoding part.value := by
      intro part hpart
      obtain ⟨p, -, hmem⟩ := List.mem_flatMap.mp hpart
      exact p.reads_parts part hmem (hfits part hpart) (hshort part hpart)
    rw [hbytes] at hr
    obtain ⟨hvalues, p⟩ := Reader.getEach_of_takes htakes hr
    exact ⟨hvalues, by rw [p.consumed, size, hbytes], p.unread_eq hr⟩
  · have hparts : (Put.frame (ps.filter Put.fits)).parts =
        (ps.filter Put.fits).flatMap Put.parts := Put.partsOfAll_eq _
    have hput := (writes_put (.frame (ps.filter Put.fits))).of_none
      (by rw [hparts]; exact Part.excesses_eq_none.mpr hfits) f
    rw [hput, hbuilt, hparts]
    simp [putFrame, putBytes]

/-- Fields with a frame in a frame, and one that is too large between them. -/
def nestedFields : List Put :=
  [.u8 7, .blob (Bytes.replicate (maxPayload + 1) 0),
    .frame [.u16 300, .frame [.text "naïve", .frame []], .blob (Bytes.ofList [1, 2])],
    .bytes (Bytes.ofList [9])]

theorem filter_nestedFields : nestedFields.filter Put.fits =
    [.u8 7, .frame [.u16 300, .frame [.text "naïve", .frame []], .blob (Bytes.ofList [1, 2])],
      .bytes (Bytes.ofList [9])] := by
  have hlong : (Put.blob (Bytes.replicate (maxPayload + 1) 0)).fits = false := by
    simp [Put.fits, Put.parts, Part.excesses_single, Part.beyond]
  rw [nestedFields, List.filter_cons_of_pos (by decide), List.filter_cons_of_neg (by simp [hlong]),
    List.filter_cons_of_pos (by decide +kernel), List.filter_cons_of_pos (by decide),
    List.filter_nil]

/-- These fields are read back, whatever follows them. -/
theorem fields_read_back_nested :
    (∀ part ∈ (nestedFields.filter Put.fits).flatMap Put.parts, part.Short) ∧
      ReadsBack nestedFields := by
  have hshort : ∀ part ∈ (nestedFields.filter Put.fits).flatMap Put.parts, part.Short := by
    rw [filter_nestedFields]
    simp [Put.parts, Put.partsOfAll, Part.Short]
    decide
  exact ⟨hshort, fields_read_back.2 nestedFields hshort⟩

/-- Bytes that are more than a payload can be put without a length, but not read at once. -/
theorem slice_refused {b : Bytes} (h : maxPayload < b.size) :
    (empty.putEach [.bytes b]).1 = [.ok b.size] ∧ (empty.putEach [.bytes b]).2.bytes = b ∧
      ((Reader.ofBytes b).getEach [.bytes b.size]).1 = [.error (.payloadTooLarge b.size)] := by
  have hput : put (.bytes b) empty = .ok () (empty.putBytes b) := rfl
  have hread : Reader.bytes b.size = throw (.payloadTooLarge b.size) := if_pos h
  rw [putEach_of_ok hput, putEach]
  refine ⟨?_, ?_, ?_⟩
  · rw [size_putBytes, size_empty, Nat.zero_add]
  · rw [bytes_putBytes, bytes_empty, ByteArray.empty_append]
  · simp only [Reader.getEach, Reader.get, Get.read, hread]
    rfl

/-- One byte more than a payload may have. -/
def longSlice : Bytes := Bytes.replicate (maxPayload + 1) 0

theorem size_longSlice : longSlice.size = maxPayload + 1 := Bytes.size_replicate _ _

/-- These bytes are put, but what is read is not what was put. -/
theorem longSlice_not_read_back :
    (empty.putEach [.bytes longSlice]).1 = [.ok (maxPayload + 1)] ∧
      ((Reader.ofBytes (empty.putEach [.bytes longSlice]).2.bytes).getEach
        [.bytes longSlice.size]).1 ≠ [.ok (.bytes longSlice)] := by
  have hlong : maxPayload < longSlice.size := by
    rw [size_longSlice]
    exact Nat.lt_succ_self maxPayload
  obtain ⟨htold, hbytes, hread⟩ := slice_refused hlong
  refine ⟨by rw [htold, size_longSlice], ?_⟩
  rw [hbytes, hread]
  simp

end Frame

end BackupVault
