import BackupVault.Crypto.PublicKey
import BackupVault.Proofs.Bytes

/-!
# Sizes of keys and of what they encrypt

A key that is acceptable has a short encoding, and what is encrypted under it is as long as its
modulus.

## Overview

- `PublicKey.size_le`, `PublicKey.size_toDer_le`: acceptable keys
- `PublicKey.encryptWith_eq_ok`: what can be encrypted
-/

set_option autoImplicit false

namespace BackupVault

/-! ## §1 Encodings -/

namespace Der

theorem length_lengthBytes_le {n : Nat} (h : n < 65536) : (lengthBytes n).length ≤ 3 := by
  have hbytes : Bytes.byteLength n ≤ 2 := Bytes.byteLength_le h
  unfold lengthBytes
  split
  · exact Nat.le_of_ble_eq_true rfl
  · simp only [List.length_cons, List.length_reverse, Bytes.length_listOfNatLE]
    omega

theorem length_element_le (tag : UInt8) (content : List UInt8) (h : content.length < 65536) :
    (element tag content).length ≤ content.length + 4 := by
  have hlength := length_lengthBytes_le h
  rw [element, List.length_cons, List.length_append]
  omega

theorem length_naturalContent_le {n k : Nat} (h : Bytes.byteLength n ≤ k) :
    (naturalContent n).length ≤ k + 2 := by
  unfold naturalContent
  dsimp only
  split <;> simp only [List.length_cons, List.length_reverse, Bytes.length_listOfNatLE] <;> omega

theorem length_natural_le {n k : Nat} (h : Bytes.byteLength n ≤ k) (hk : k < 60000) :
    (natural n).length ≤ k + 6 := by
  have hcontent := length_naturalContent_le h
  have helement := length_element_le integerTag _ (Nat.lt_of_le_of_lt hcontent (by omega))
  rw [natural]
  omega

end Der

namespace PublicKey

variable {k : PublicKey}

/-! ## §2 Acceptable keys -/

/-- The key that an encoding is taken for is acceptable. -/
theorem isAcceptable_of_ofDer {b : Bytes} (h : ofDer b = .ok k) : k.isAcceptable = true := by
  unfold ofDer at h
  split at h
  · cases h
  · split at h
    · rename_i haccept
      cases h
      exact haccept
    · cases h

theorem modulus_lt (h : k.isAcceptable = true) : k.modulus < 256 ^ 512 := by
  simp only [isAcceptable, Bool.and_eq_true, decide_eq_true_eq] at h
  have hlt := h.1.1.1.1.1
  -- The limit is given in bits, and the bytes are counted.
  have hshift (m : Nat) : 1 <<< (8 * m) = 256 ^ m := by rw [Nat.one_shiftLeft, Nat.pow_mul]
  rwa [show maxBits = 8 * 512 from rfl, hshift] at hlt

theorem size_le (h : k.isAcceptable = true) : k.size ≤ 512 := Bytes.byteLength_le (modulus_lt h)

theorem size_toDer_le (h : k.isAcceptable = true) : k.toDer.size ≤ 1200 := by
  -- Both numbers are below the modulus limit, and each element around them adds four bytes at most.
  have hmodulus := Der.length_natural_le (size_le h) (by decide)
  have hexponent := Der.length_natural_le (n := k.exponent)
    (Bytes.byteLength_le (Nat.lt_trans (by
      simp only [isAcceptable, Bool.and_eq_true, decide_eq_true_eq] at h
      exact h.1.1.1.1.2) (modulus_lt h))) (by decide)
  have hnumbers := Der.length_element_le Der.sequenceTag
    (Der.natural k.modulus ++ Der.natural k.exponent)
    (by rw [List.length_append]; omega)
  rw [List.length_append] at hnumbers
  have hbits := Der.length_element_le Der.bitStringTag (0 :: k.numbers)
    (by rw [List.length_cons, numbers]; omega)
  rw [List.length_cons] at hbits
  have halgorithm : rsaAlgorithm.length = 15 := by decide
  have hwhole := Der.length_element_le Der.sequenceTag
    (rsaAlgorithm ++ Der.bitString k.numbers)
    (by rw [List.length_append, Der.bitString, numbers] at *; omega)
  rw [List.length_append, halgorithm] at hwhole
  rw [toDer, Bytes.size_ofList]
  rw [numbers, Der.bitString] at *
  omega

/-! ## §3 Encryption -/

/-- A message with room for its padding is encrypted, to as many bytes as the modulus has. -/
theorem encryptWith_eq_ok {message : Bytes} (h : message.size + Oaep.overhead ≤ k.size)
    (seed : Bytes) : ∃ c, k.encryptWith seed message = .ok c ∧ c.size = k.size := by
  obtain ⟨block, hblock⟩ : ∃ block, Oaep.pad? k.size seed message = some block := by
    simp only [Oaep.pad?, h, ↓reduceIte]
    exact ⟨_, rfl⟩
  refine ⟨k.raise block, by rw [encryptWith, hblock], ?_⟩
  rw [raise, Bytes.ofNatBE, Bytes.size_ofList, List.length_reverse, Bytes.length_listOfNatLE]

/-- One without is not. -/
theorem encryptWith_eq_error {message : Bytes} (h : k.size < message.size + Oaep.overhead)
    (seed : Bytes) : k.encryptWith seed message = .error (.encrypt "message too long") := by
  rw [encryptWith, Oaep.pad?, if_neg (Nat.not_le_of_lt h)]

end PublicKey

end BackupVault
