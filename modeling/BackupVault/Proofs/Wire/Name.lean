import BackupVault.Proofs.Text.Ascii
import BackupVault.Proofs.Wire.Reading

/-!
# Texts in name fields

A text without zeros that is not too long fits into a name field, and is read back from it, also
after the field was on the wire.  Whatever bytes come from the wire as a field, its content is what
stands before the first zero, and the bytes stay as they came.

## Overview

- `Name.content_padded`, `Name.ofText_eq_ok`: the field of a text
- `Name.ofText_eq_ok_iff`: which texts have a field
- `Name.content_prefix`, `Name.prefix_content`: the content is the longest beginning without zeros
- `Name.Carries`, `Name.Received`, `Name.carries_text`: fields carry texts exactly
-/

set_option autoImplicit false

namespace BackupVault.Name

/-! ## §1 Fields of texts -/

/-- The content of a field that begins with some bytes other than zero. -/
theorem content_padded {b : Bytes} (hsize : b.size ≤ nameCapacity)
    (hzero : ∀ x ∈ b.data.toList, x ≠ 0) : (padded b).content = b := by
  have hlength : b.data.toList.length ≤ nameCapacity := hsize
  -- The zeros after the content are cut to the width of the field.
  have hfield : (padded b).bytes.data.toList =
      b.data.toList ++
        List.replicate (min (nameCapacity - b.data.toList.length) nameCapacity) 0 := by
    change ((b.data.toList ++ List.replicate nameCapacity 0).take nameCapacity) = _
    rw [List.take_append, List.take_of_length_le hlength, List.take_replicate]
  apply Bytes.ext_toList
  rw [content, Bytes.toList_ofList, hfield, List.takeWhile_append_of_pos
    fun x hx => decide_eq_true (hzero x hx), List.takeWhile_replicate]
  simp

variable {b c : Bytes} {n m : Name} {s t : String}

/-- A text is that of a field exactly if its bytes are the content. -/
theorem toText_eq_ok : n.toText = .ok s ↔ n.content = Bytes.ofText s := by
  unfold toText
  constructor
  · intro h
    cases hs : String.fromUTF8? n.content with
    | none =>
      rw [hs] at h
      cases h
    | some t =>
      rw [hs] at h
      cases h
      exact (Reader.ofText_fromUTF8 hs).symm
  · intro h
    rw [h, Reader.fromUTF8_ofText]

/-- The bytes that have a field: those that fit, without a zero. -/
theorem ofContent_eq_ok :
    ofContent b = .ok n ↔ b.size ≤ nameCapacity ∧ (0 : UInt8) ∉ b.data.toList ∧ n = padded b := by
  have hcontains : b.data.contains 0 = true ↔ (0 : UInt8) ∈ b.data.toList := by
    rw [Array.contains_iff_mem, ← Array.mem_toList_iff]
  simp only [ofContent, hcontains]
  by_cases hsize : b.size ≤ nameCapacity
  · rw [if_neg (Nat.not_lt.mpr hsize)]
    by_cases hzero : (0 : UInt8) ∈ b.data.toList
    · rw [if_pos hzero]
      exact iff_of_false (fun h => nomatch h) fun h => h.2.1 hzero
    · rw [if_neg hzero]
      exact ⟨fun h => ⟨hsize, hzero, by cases h; rfl⟩, fun h => congrArg Except.ok h.2.2.symm⟩
  · rw [if_pos (Nat.not_le.mp hsize)]
    exact iff_of_false (fun h => nomatch h) fun h => hsize h.1

/-- A text has a zero character exactly if it has a zero byte. -/
theorem zero_mem_ofText : (0 : UInt8) ∈ (Bytes.ofText s).data.toList ↔ Char.ofNat 0 ∈ s.toList := by
  have hsmall : (Char.ofNat 0).toNat < 128 := by decide
  refine ⟨fun h => ?_, Bytes.mem_ofText hsmall⟩
  exact Decidable.by_contra fun hs => Bytes.not_mem_ofText hsmall hs h

theorem ofText_eq_ok_iff : ofText s = .ok n ↔
    (Bytes.ofText s).size ≤ nameCapacity ∧ Char.ofNat 0 ∉ s.toList ∧
      n = padded (Bytes.ofText s) := by
  rw [ofText, ofContent_eq_ok, zero_mem_ofText]

theorem content_of_ofText (h : ofText s = .ok n) : n.content = Bytes.ofText s := by
  obtain ⟨hsize, hzero, rfl⟩ := ofText_eq_ok_iff.mp h
  exact content_padded hsize fun x hx hx0 => hzero (zero_mem_ofText.mp (hx0 ▸ hx))

/-- A text that fits into a name field is read back from it. -/
theorem ofText_eq_ok (hsize : (Bytes.ofText s).size ≤ nameCapacity)
    (hzero : Char.ofNat 0 ∉ s.toList) : ∃ n, ofText s = .ok n ∧ n.toText = .ok s := by
  have h : ofText s = .ok (padded (Bytes.ofText s)) := ofText_eq_ok_iff.mpr ⟨hsize, hzero, rfl⟩
  exact ⟨_, h, toText_eq_ok.mpr (content_of_ofText h)⟩

/-! ## §2 Fields from the wire -/

theorem toList_content (n : Name) :
    n.content.data.toList = n.bytes.data.toList.takeWhile (· ≠ 0) := rfl

/-- The content is a beginning of the field without zeros. -/
theorem content_prefix (n : Name) :
    (0 : UInt8) ∉ n.content.data.toList ∧ ∃ rest, n.bytes = n.content ++ rest := by
  refine ⟨fun hzero => ?_, ?_⟩
  · have hall := List.all_eq_true.mp (List.all_takeWhile (l := n.bytes.data.toList)) 0 hzero
    exact of_decide_eq_true hall rfl
  · refine ⟨Bytes.ofList (n.bytes.data.toList.dropWhile (· ≠ 0)), Bytes.ext_toList ?_⟩
    rw [ByteArray.toList_data_append, toList_content, Bytes.toList_ofList,
      List.takeWhile_append_dropWhile]

/-- Every such beginning is one of the content. -/
theorem prefix_content {rest : Bytes} (hzero : (0 : UInt8) ∉ b.data.toList)
    (h : n.bytes = b ++ rest) : ∃ more, n.content = b ++ more := by
  refine ⟨Bytes.ofList (rest.data.toList.takeWhile (· ≠ 0)), Bytes.ext_toList ?_⟩
  have hne : ∀ x ∈ b.data.toList, decide (x ≠ 0) = true := fun x hx =>
    decide_eq_true fun hx0 => hzero (hx0 ▸ hx)
  rw [toList_content, h, ByteArray.toList_data_append, List.takeWhile_append_of_pos hne,
    ByteArray.toList_data_append, Bytes.toList_ofList]

theorem size_content_le (n : Name) : n.content.size ≤ nameCapacity := by
  obtain ⟨-, rest, hrest⟩ := n.content_prefix
  rw [← n.size_eq, hrest, ByteArray.size_append]
  exact Nat.le_add_right ..

/-- A field is empty if its first byte is a zero, and so has no content. -/
theorem isEmpty_iff (n : Name) : n.isEmpty = true ↔ n.content = ByteArray.empty := by
  have hcontent : n.content = ByteArray.empty ↔ n.bytes.data.toList.takeWhile (· ≠ 0) = [] :=
    ⟨fun h => congrArg (·.data.toList) h, fun h => Bytes.ext_toList h⟩
  rw [hcontent, isEmpty, Bytes.at0_eq, beq_iff_eq]
  have hlength : n.bytes.data.toList.length = nameCapacity := n.size_eq
  cases hfield : n.bytes.data.toList with
  | nil =>
    rw [hfield] at hlength
    exact absurd hlength (by decide)
  | cons x xs =>
    show x = 0 ↔ _
    by_cases hx : x = 0 <;> simp [hx]

/-- The content of a field, if it is a text, has a field with the same content. -/
theorem ofText_of_toText (h : n.toText = .ok s) :
    ∃ m, ofText s = .ok m ∧ m.content = n.content := by
  have hcontent := toText_eq_ok.mp h
  have hsize := n.size_content_le
  have hzero := n.content_prefix.1
  rw [hcontent] at hsize hzero
  have hm : ofText s = .ok _ := ofText_eq_ok_iff.mpr ⟨hsize, mt zero_mem_ofText.mpr hzero, rfl⟩
  exact ⟨_, hm, (content_of_ofText hm).trans hcontent.symm⟩

/-! ## §3 Texts -/

/-- What is told of a text that is put into a name field. -/
structure Carries (s : String) : Prop where
  /-- A text has a field if it fits and has no zero in it. -/
  fits : (∃ n, ofText s = .ok n) ↔
    (Bytes.ofText s).size ≤ nameCapacity ∧ Char.ofNat 0 ∉ s.toList
  content : ∀ n, ofText s = .ok n → n.content = Bytes.ofText s
  text : ∀ n, ofText s = .ok n → n.toText = .ok s
  /-- The field may be put after anything and before anything, and is read there as it was. -/
  read : ∀ n, ofText s = .ok n → ∀ (f : Frame) (rest : Bytes) (start r : Reader),
    start.unread = (f.putName n).bytes ++ rest → start.Passed f.bytes r →
    ∃ r', Reader.name r = .ok n r' ∧ r'.unread = rest
  /-- The fields of two texts are the same only if the texts are. -/
  same : ∀ t n m, ofText s = .ok n → ofText t = .ok m → (n = m ↔ s = t)

/-- What is told of the field that some bytes from the wire are. -/
structure Received (b : Bytes) (n : Name) : Prop where
  bytes : n.bytes = b
  /-- The content is the longest beginning without zeros. -/
  content : (0 : UInt8) ∉ n.content.data.toList ∧ ∃ rest, b = n.content ++ rest
  longest : ∀ c rest, b = c ++ rest → (0 : UInt8) ∉ c.data.toList → ∃ more, n.content = c ++ more
  empty : n.isEmpty = true ↔ n.content = ByteArray.empty
  /-- If the content is a text, the text has a field with this content. -/
  text : ∀ s, n.toText = .ok s → ∃ m, ofText s = .ok m ∧ m.content = n.content

theorem ofText_carries (s : String) : Carries s where
  fits := ⟨fun ⟨_, h⟩ => ⟨(ofText_eq_ok_iff.mp h).1, (ofText_eq_ok_iff.mp h).2.1⟩,
    fun h => ⟨_, ofText_eq_ok_iff.mpr ⟨h.1, h.2, rfl⟩⟩⟩
  content _ h := content_of_ofText h
  text _ h := toText_eq_ok.mpr (content_of_ofText h)
  read n _ f rest start r hstart p := by
    have hunread : r.unread = n.bytes ++ rest := by
      apply p.unread_eq
      rw [hstart, ← ByteArray.append_assoc]
      rfl
    obtain ⟨r', hr', p'⟩ := (Reader.takes_name n).whole r rest hunread
    exact ⟨r', hr', p'.unread_eq hunread⟩
  same t n m hs ht := by
    refine ⟨fun h => Bytes.ofText_injective ?_, fun h => ?_⟩
    · rw [← content_of_ofText hs, ← content_of_ofText ht, h]
    · rw [h, ht] at hs
      exact (Except.ok.inj hs).symm

theorem ofWire_received (n : Name) : Received n.bytes n where
  bytes := rfl
  content := n.content_prefix
  longest _ _ h hzero := prefix_content hzero h
  empty := n.isEmpty_iff
  text _ h := ofText_of_toText h

/-- **Name fields carry texts exactly**, and bytes from the wire are kept exactly. -/
theorem carries_text : (∀ s, Carries s) ∧
    ∀ b : Bytes, b.size = nameCapacity → ∃ n, ofWire? b = some n ∧ Received b n :=
  ⟨ofText_carries, fun b h => ⟨⟨b, h⟩, dif_pos h, ofWire_received ⟨b, h⟩⟩⟩

/-- A field in which something stands after the zero. -/
def strayField : Bytes := Bytes.fit nameCapacity (Bytes.ofList [97, 0, 98])

/-- A text with a character of two bytes is carried, and a field with stray bytes is kept. -/
theorem carries_text_stray :
    (∃ n, ofText "naïve" = .ok n ∧ n.toText = .ok "naïve") ∧
      strayField.size = nameCapacity ∧
      ∃ n, ofWire? strayField = some n ∧ Received strayField n ∧ n.toText = .ok "a" := by
  have hsize : strayField.size = nameCapacity := Bytes.size_fit _ _
  obtain ⟨n, hn⟩ := (carries_text.1 "naïve").fits.mpr ⟨by decide, by decide⟩
  obtain ⟨m, hm, hreceived⟩ := carries_text.2 strayField hsize
  refine ⟨⟨n, hn, (carries_text.1 "naïve").text n hn⟩, hsize, m, hm, hreceived, ?_⟩
  apply toText_eq_ok.mpr
  apply Bytes.ext_toList
  rw [toList_content, hreceived.bytes]
  decide

end BackupVault.Name
