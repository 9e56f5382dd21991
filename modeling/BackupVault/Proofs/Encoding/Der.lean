import BackupVault.Proofs.Crypto.PublicKey

/-!
# Distinguished encodings are read back

An element is read off the beginning of any bytes that follow it, and what is left are those
bytes.  So a public key that is acceptable is read back from its encoding.

## Overview

- `Der.length_lengthBytes`, `Der.element_element`, `Der.natural_natural`: reading undoes writing
- `PublicKey.ofDer_toDer`: keys are read back
-/

set_option autoImplicit false

namespace BackupVault

namespace Der

/-! ## §1 Lengths -/

/-- A length is read back, with the bytes after it. -/
theorem length_lengthBytes {n : Nat} (h : n ≤ maxLength) (rest : List UInt8) :
    length? (lengthBytes n ++ rest) = some (n, rest) := by
  have hmax : n < 256 ^ 4 := Nat.lt_of_le_of_lt h (by decide)
  by_cases hshort : n < 0x80
  · -- A short length is its only byte.
    have hn : (UInt8.ofNat n).toNat = n := by
      rw [UInt8.toNat_ofNat', Nat.mod_eq_of_lt (by omega)]
    have hlt : UInt8.ofNat n < 0x80 := by
      rw [UInt8.lt_iff_toNat_lt, hn]
      exact hshort
    rw [lengthBytes, if_pos hshort, List.singleton_append, length?, if_pos hlt, hn]
  · -- A longer one comes after its width, which is at most four.
    have hwidth : Bytes.byteLength n ≤ 4 := Bytes.byteLength_le hmax
    have hpos : 1 ≤ Bytes.byteLength n := by
      rw [Bytes.byteLength, if_neg (by omega)]
      omega
    have hx : (UInt8.ofNat (0x80 + Bytes.byteLength n)).toNat = 0x80 + Bytes.byteLength n := by
      rw [UInt8.toNat_ofNat', Nat.mod_eq_of_lt (by omega)]
    have hlt : ¬ UInt8.ofNat (0x80 + Bytes.byteLength n) < 0x80 := by
      rw [UInt8.lt_iff_toNat_lt, hx]
      exact Nat.not_lt.mpr (Nat.le_add_right 0x80 _)
    have hlength : (Bytes.listOfNatLE (Bytes.byteLength n) n).reverse.length =
        Bytes.byteLength n := by
      rw [List.length_reverse, Bytes.length_listOfNatLE]
    have hvalue : Bytes.natOfListLE (Bytes.listOfNatLE (Bytes.byteLength n) n) = n := by
      rw [Bytes.natOfListLE_listOfNatLE, Nat.mod_eq_of_lt (Bytes.lt_pow_byteLength n)]
    have hbytes : lengthBytes n = UInt8.ofNat (0x80 + Bytes.byteLength n) ::
        (Bytes.listOfNatLE (Bytes.byteLength n) n).reverse := by
      rw [lengthBytes, if_neg hshort]
    rw [hbytes, List.cons_append, length?, if_neg hlt]
    simp only [hx, Nat.add_sub_cancel_left, List.take_left' hlength, List.drop_left' hlength,
      List.reverse_reverse, hvalue, hbytes, hlength]
    rw [if_pos ⟨hpos, hwidth, trivial, h, trivial⟩]

/-! ## §2 Elements -/

variable {tag : UInt8} {content : List UInt8}

theorem anyElement_element (htag : isTag tag = true) (h : content.length ≤ maxLength)
    (rest : List UInt8) :
    anyElement? (element tag content ++ rest) = some (tag, content, rest) := by
  have hle : content.length ≤ (content ++ rest).length := by
    rw [List.length_append]
    exact Nat.le_add_right ..
  rw [element, List.cons_append, List.append_assoc, anyElement?, htag, length_lengthBytes h]
  simp only [Bool.not_true, Bool.false_eq_true, ↓reduceIte, Option.bind_eq_bind, Option.bind_some,
    hle, List.take_left, List.drop_left]

theorem length_le_element (tag : UInt8) (content : List UInt8) :
    content.length ≤ (element tag content).length := by
  rw [element, List.length_cons, List.length_append]
  omega

/-- An element is read back, with the bytes after it. -/
theorem element_element (htag : isTag tag = true) (h : content.length ≤ maxLength)
    (rest : List UInt8) : element? tag (element tag content ++ rest) = some (content, rest) := by
  rw [element?, anyElement_element htag h]
  simp only [Option.bind_eq_bind, Option.bind_some, ↓reduceIte]

/-- An element on its own is read as a whole. -/
theorem whole_element (htag : isTag tag = true) (h : content.length ≤ maxLength) :
    whole? (element? tag (element tag content)) = some content := by
  have hread := element_element htag h []
  rw [List.append_nil] at hread
  rw [hread]
  rfl

/-! ## §3 Numbers -/

theorem natOfListLE_append_zero (xs : List UInt8) :
    Bytes.natOfListLE (xs ++ [0]) = Bytes.natOfListLE xs := by
  induction xs with
  | nil => rfl
  | cons x xs ih => rw [List.cons_append, Bytes.natOfListLE, Bytes.natOfListLE, ih]

/-- The zero that may stand before a number does not count. -/
theorem natOfListLE_naturalContent (n : Nat) :
    Bytes.natOfListLE (naturalContent n).reverse = n := by
  have hlt : n < 256 ^ max 1 (Bytes.byteLength n) :=
    Nat.lt_of_lt_of_le (Bytes.lt_pow_byteLength n)
      (Nat.pow_le_pow_right (by decide) (Nat.le_max_right ..))
  have hvalue : Bytes.natOfListLE (Bytes.listOfNatLE (max 1 (Bytes.byteLength n)) n) = n := by
    rw [Bytes.natOfListLE_listOfNatLE, Nat.mod_eq_of_lt hlt]
  unfold naturalContent
  dsimp only
  split
  · rw [List.reverse_reverse, hvalue]
  · rw [List.reverse_cons, List.reverse_reverse, natOfListLE_append_zero, hvalue]

/-- A number is read back, with the bytes after it. -/
theorem natural_natural {n : Nat} (h : (naturalContent n).length ≤ maxLength)
    (rest : List UInt8) : natural? (natural n ++ rest) = some (n, rest) := by
  rw [natural, natural?, element_element (by decide) h]
  simp only [Option.bind_eq_bind, Option.bind_some, natOfListLE_naturalContent, ↓reduceIte]

end Der

/-! ## §4 Public keys -/

namespace PublicKey

variable {k : PublicKey}

theorem algorithm_append (rest : List UInt8) :
    algorithm? (rsaAlgorithm ++ rest) = some ((), rest) := by
  rw [algorithm?, List.take_left, if_pos rfl, List.drop_left]

/-- All parts of the encoding of an acceptable key are short, since the whole is. -/
theorem lengths (h : k.isAcceptable = true) :
    (rsaAlgorithm ++ Der.bitString k.numbers).length ≤ 1200 ∧ (0 :: k.numbers).length ≤ 1200 ∧
      (Der.natural k.modulus ++ Der.natural k.exponent).length ≤ 1200 := by
  have hwhole := size_toDer_le h
  rw [toDer, Bytes.size_ofList] at hwhole
  have hcontent := Der.length_le_element Der.sequenceTag (rsaAlgorithm ++ Der.bitString k.numbers)
  have hbits := Der.length_le_element Der.bitStringTag (0 :: k.numbers)
  have hnumbers := Der.length_le_element Der.sequenceTag
    (Der.natural k.modulus ++ Der.natural k.exponent)
  rw [← numbers] at hnumbers
  rw [← Der.bitString] at hbits
  have hsum := hcontent
  rw [List.length_append] at hsum
  have hcons : (0 :: k.numbers).length = k.numbers.length + 1 := List.length_cons
  omega

theorem ofNumbers_numbers (h : k.isAcceptable = true) : ofNumbers? k.numbers = some k := by
  obtain ⟨-, -, hlength⟩ := lengths h
  have hmodulus := Der.length_le_element Der.integerTag (Der.naturalContent k.modulus)
  have hexponent := Der.length_le_element Der.integerTag (Der.naturalContent k.exponent)
  rw [← Der.natural] at hmodulus hexponent
  have hmax : 1200 ≤ Der.maxLength := by decide
  have hsum := hlength
  rw [List.length_append] at hsum
  have hread := Der.natural_natural (n := k.exponent) (by omega) []
  rw [List.append_nil] at hread
  rw [ofNumbers?, numbers, Der.whole_element (by decide) (by omega)]
  simp only [Option.bind_eq_bind, Option.bind_some]
  rw [Der.natural_natural (by omega), Option.bind_some, hread]
  rfl

/-- An acceptable key is read back from its encoding. -/
theorem ofDer_toDer (h : k.isAcceptable = true) : ofDer k.toDer = .ok k := by
  obtain ⟨hcontent, hbits, -⟩ := lengths h
  have hmax : 1200 ≤ Der.maxLength := by decide
  have hread : ofDer? k.toDer = some k := by
    rw [ofDer?, toDer, Bytes.toList_ofList, Der.whole_element (by decide) (by omega)]
    simp only [Option.bind_eq_bind, Option.bind_some]
    rw [algorithm_append, Option.bind_some, Der.bitString, Der.whole_element (by decide) (by omega),
      Option.bind_some, Der.wholeBits?, Option.bind_some, ofNumbers_numbers h]
  rw [ofDer, hread]
  simp only [h, ↓reduceIte]

end PublicKey

end BackupVault
