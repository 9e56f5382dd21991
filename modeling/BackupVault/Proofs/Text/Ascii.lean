import BackupVault.Bytes
import BackupVault.Proofs.Bytes

/-!
# Texts and their bytes

What the bytes of an encoded text tell about its characters: a byte below 128 is a character of
its own, so that separators and zeros are found in the bytes exactly where they are in the text.

## Overview

- `Bytes.char_of_mem_ofText`: a byte below 128 is a character
- `Bytes.ofText_injective`: the bytes determine the text
- `Bytes.size_ofText_of_ascii`: one byte for each character below 128
-/

set_option autoImplicit false

namespace BackupVault.Bytes

theorem toList_ofText (s : String) :
    (ofText s).data.toList = s.toList.flatMap String.utf8EncodeChar := by
  rw [ofText, String.toUTF8_eq_toByteArray, ← String.utf8Encode_toList, List.utf8Encode,
    List.toList_data_toByteArray]

theorem ofText_injective {s t : String} (h : ofText s = ofText t) : s = t :=
  String.toByteArray_inj.mp h

theorem ofText_eq_empty {s : String} (h : (ofText s).isEmpty = true) : s = "" := by
  apply ofText_injective
  apply ext_toList
  have hsize : (ofText s).size = 0 := by simpa [ByteArray.isEmpty] using h
  exact List.length_eq_zero_iff.mp ((length_toList _).trans hsize)

/-- The encoding of a character from 128 on consists of bytes from 128 on. -/
theorem encodeChar_of_large {c : Char} {x : UInt8} (hc : 128 ≤ c.toNat)
    (h : x ∈ String.utf8EncodeChar c) : 128 ≤ x.toNat := by
  -- Each of the longer forms only has bytes with the highest bit set.
  have hc' : ¬ c.val.toNat ≤ 0x7f := by
    change ¬ c.toNat ≤ 0x7f
    omega
  unfold String.utf8EncodeChar at h
  simp only [hc', ↓reduceIte] at h
  split at h
  · simp only [List.mem_cons, List.not_mem_nil, or_false] at h
    rcases h with rfl | rfl <;> rw [UInt8.toNat_ofNat'] <;> omega
  · split at h
    · simp only [List.mem_cons, List.not_mem_nil, or_false] at h
      rcases h with rfl | rfl | rfl <;> rw [UInt8.toNat_ofNat'] <;> omega
    · simp only [List.mem_cons, List.not_mem_nil, or_false] at h
      rcases h with rfl | rfl | rfl | rfl <;> rw [UInt8.toNat_ofNat'] <;> omega

theorem encodeChar_of_small {c : Char} (hc : c.toNat < 128) :
    String.utf8EncodeChar c = [UInt8.ofNat c.toNat] := by
  have hc' : c.val.toNat ≤ 0x7f := Nat.le_of_lt_succ hc
  unfold String.utf8EncodeChar
  simp only [hc', ↓reduceIte]
  rfl

/-- A byte below 128 is a character of its own. -/
theorem char_of_mem_ofText {s : String} {x : UInt8} (h : x ∈ (ofText s).data.toList)
    (hx : x.toNat < 128) : ∃ c ∈ s.toList, c.toNat = x.toNat := by
  rw [toList_ofText] at h
  obtain ⟨c, hc, hmem⟩ := List.mem_flatMap.mp h
  -- The byte belongs to a character, which is a small one, since large ones have large bytes only.
  rcases Nat.lt_or_ge c.toNat 128 with hsmall | hlarge
  · rw [encodeChar_of_small hsmall, List.mem_singleton] at hmem
    refine ⟨c, hc, ?_⟩
    rw [hmem, UInt8.toNat_ofNat', Nat.mod_eq_of_lt (by omega)]
  · exact absurd (encodeChar_of_large hlarge hmem) (by omega)

/-- A character below 128 that does not occur in a text does not occur in its bytes. -/
theorem not_mem_ofText {s : String} {c : Char} (hc : c.toNat < 128) (h : c ∉ s.toList) :
    UInt8.ofNat c.toNat ∉ (ofText s).data.toList := by
  have htoNat : (UInt8.ofNat c.toNat).toNat = c.toNat := by
    rw [UInt8.toNat_ofNat', Nat.mod_eq_of_lt (by omega)]
  intro hmem
  obtain ⟨d, hd, heq⟩ := char_of_mem_ofText hmem (by omega)
  rw [htoNat] at heq
  exact h (Char.toNat_inj.mp heq ▸ hd)

/-- A character below 128 of a text occurs in its bytes. -/
theorem mem_ofText {s : String} {c : Char} (hc : c.toNat < 128) (h : c ∈ s.toList) :
    UInt8.ofNat c.toNat ∈ (ofText s).data.toList := by
  rw [toList_ofText]
  apply List.mem_flatMap_of_mem h
  rw [encodeChar_of_small hc]
  exact List.mem_singleton_self _

/-- A text of characters below 128 takes one byte for each of them. -/
theorem size_ofText_of_ascii {s : String} (h : ∀ c ∈ s.toList, c.toNat < 128) :
    (ofText s).size = s.toList.length := by
  rw [← length_toList, toList_ofText]
  -- The text is forgotten, so that the induction is on any list of small characters.
  generalize s.toList = cs at h
  induction cs with
  | nil => rfl
  | cons c cs ih =>
    rw [List.forall_mem_cons] at h
    rw [List.flatMap_cons, List.length_append, encodeChar_of_small h.1, ih h.2, List.length_cons,
      List.length_cons, List.length_nil]
    omega

end BackupVault.Bytes
