import BackupVault.Proofs.Crypto.KeyLine
import BackupVault.Proofs.Crypto.KeyPair
import Mathlib.Data.Nat.Size

/-!
# Key material survives its encodings

A key pair is kept as a line of text, its public key is sent as a distinguished encoding, and
messages go to it as ciphertexts.  For every pair of sound numbers the pair is read back from its
line, the public key from its encoding, and every message that fits from its ciphertexts.

## Overview

- `KeyPair.Proper`: the numbers of a pair are what they should be
- `KeyPair.Travels`: the pair, its public key and what is encrypted under it are read back
- `KeyPair.Proper.travels`: this is so for every proper pair
-/

set_option autoImplicit false

namespace BackupVault.KeyPair

/-! ## §1 Sound numbers -/

/-- Two different odd primes, their product of 464 to 4096 bits, an odd public exponent of 3 or
more and less than 34 bits, and a private exponent that undoes it modulo each prime less one. -/
structure Proper (k : KeyPair) : Prop where
  prime_p : k.p.Prime
  prime_q : k.q.Prime
  odd_p : Odd k.p
  odd_q : Odd k.q
  different : k.p ≠ k.q
  modulus_eq : k.modulus = k.p * k.q
  bits_ge : 464 ≤ k.modulus.size
  bits_le : k.modulus.size ≤ 4096
  odd_exponent : Odd k.exponent
  exponent_ge : 3 ≤ k.exponent
  exponent_le : k.exponent ≤ 2 ^ 33 - 1
  privateExponent_pos : 0 < k.privateExponent
  privateExponent_lt : k.privateExponent < k.modulus
  inverse_p : k.privateExponent * k.exponent ≡ 1 [MOD k.p - 1]
  inverse_q : k.privateExponent * k.exponent ≡ 1 [MOD k.q - 1]

/-- An odd prime is three or more. -/
theorem three_le_of_odd {p : Nat} (hp : p.Prime) (hodd : Odd p) : 3 ≤ p := by
  have htwo := hp.two_le
  have hne : p ≠ 2 := by
    rintro rfl
    revert hodd
    decide
  omega

/-- Exponents that undo one another do so in the terms of the check. -/
theorem mod_eq_one {p d e : Nat} (hp : 3 ≤ p) (h : d * e ≡ 1 [MOD p - 1]) :
    e * d % (p - 1) = 1 := by
  have hone : 1 % (p - 1) = 1 := Nat.mod_eq_of_lt (by omega)
  rw [Nat.mul_comm, h, hone]

/-- A byte has eight bits. -/
theorem size_le_of_lt {n k : Nat} (h : n < 256 ^ k) : n.size ≤ 8 * k := by
  rw [Nat.size_le, Nat.pow_mul]
  exact h

namespace Proper

variable {k : KeyPair}

theorem isAcceptable (h : k.Proper) : k.publicKey.isAcceptable = true := by
  have hmodulus : Odd k.modulus := h.modulus_eq ▸ h.odd_p.mul h.odd_q
  have hexponent : k.exponent < k.modulus := by
    have hlong : 2 ^ 33 ≤ k.modulus := Nat.lt_size.mp (Nat.lt_of_lt_of_le (by decide) h.bits_ge)
    have hle := h.exponent_le
    omega
  have hbits : k.modulus < 1 <<< PublicKey.maxBits := by
    rw [Nat.one_shiftLeft]
    exact Nat.size_le.mp h.bits_le
  have hmax : k.exponent ≤ PublicKey.maxExponent := h.exponent_le
  simp only [PublicKey.isAcceptable, Bool.and_eq_true, decide_eq_true_eq, beq_iff_eq]
  exact ⟨⟨⟨⟨⟨hbits, hexponent⟩, Nat.odd_iff.mp hmodulus⟩, Nat.odd_iff.mp h.odd_exponent⟩,
    Nat.le_of_succ_le h.exponent_ge⟩, hmax⟩

theorem isConsistent (h : k.Proper) : k.isConsistent = true := by
  have hp := three_le_of_odd h.prime_p h.odd_p
  have hq := three_le_of_odd h.prime_q h.odd_q
  simp only [KeyPair.isConsistent, Bool.and_eq_true, decide_eq_true_eq, beq_iff_eq]
  exact ⟨⟨⟨⟨⟨h.isAcceptable, h.modulus_eq.symm⟩, h.prime_p.two_le⟩, h.prime_q.two_le⟩,
    mod_eq_one hp h.inverse_p⟩, mod_eq_one hq h.inverse_q⟩

theorem coprime (h : k.Proper) : Nat.Coprime k.q k.p :=
  (Nat.coprime_primes h.prime_q h.prime_p).mpr h.different.symm

/-- Its modulus has 58 bytes at least, so that there is room for a session key. -/
theorem size_ge (h : k.Proper) : 16 + Oaep.overhead ≤ k.publicKey.size := by
  have hoverhead : Oaep.overhead = 42 := by decide
  have hbits : k.modulus.size ≤ 8 * k.publicKey.size := size_le_of_lt (Bytes.lt_pow_byteLength _)
  have hlong := h.bits_ge
  omega

end Proper

/-! ## §2 What survives -/

/-- The pair is read back from its line, its public key from its encoding, and what is encrypted
under the public key from the ciphertext. -/
structure Travels (k : KeyPair) : Prop where
  /-- The pair can be kept in a line, and the line is read back as the pair. -/
  line : ∃ line, k.toBase64 = .ok line ∧ ofBase64 line = .ok k
  /-- The encoding of the public key is read back as the key with the same two numbers, which has
  the same encoding. -/
  publicKey : PublicKey.ofDer k.publicDer = .ok k.publicKey ∧
    k.publicKey = { modulus := k.modulus, exponent := k.exponent } ∧ k.publicKey.toDer = k.publicDer
  /-- The size of the key is the number of bytes that its modulus needs. -/
  size : 256 ^ (k.publicKey.size - 1) ≤ k.modulus ∧ k.modulus < 256 ^ k.publicKey.size
  /-- There is room for a session key at least. -/
  room : 16 + 42 ≤ k.publicKey.size
  /-- A message that leaves 42 bytes free is encrypted, whatever the seed, and decrypted. -/
  sealed : ∀ message seed : Bytes, message.size + 42 ≤ k.publicKey.size → seed.size = 20 →
    ∃ c, k.publicKey.encryptWith seed message = .ok c ∧ c.size = k.publicKey.size ∧
      k.decrypt c = .ok message
  /-- A longer message is refused, whatever the seed. -/
  refused : ∀ message seed : Bytes, k.publicKey.size < message.size + 42 →
    k.publicKey.encryptWith seed message = .error (.encrypt "message too long")
  /-- Encryption uses some seed of this length, and any seed may come up. -/
  seeded : (∀ (message : Bytes) (e : Entropy), ∃ seed : Bytes, seed.size = 20 ∧
      (k.publicKey.encrypt message e).1 = k.publicKey.encryptWith seed message) ∧
    ∀ seed : Bytes, seed.size = 20 → ∃ e : Entropy, ∀ message : Bytes,
      (k.publicKey.encrypt message e).1 = k.publicKey.encryptWith seed message

/-- Any bytes of the right number can be the seed. -/
theorem exists_draw (seed : Bytes) : ∃ e : Entropy, (e.draw seed.size).1 = seed := by
  refine ⟨{ byte := fun i => seed.data.toList.getD i 0 }, ?_⟩
  apply Bytes.ext_toList
  rw [Entropy.draw, Bytes.toList_ofList]
  apply List.ext_getElem
  · simp only [List.length_map, List.length_range, Bytes.length_toList]
  · intro i _ hi
    rw [List.getElem_map, List.getElem_range]
    change seed.data.toList.getD (0 + i) 0 = _
    rw [Nat.zero_add, List.getD_eq_getElem?_getD, List.getElem?_eq_getElem hi, Option.getD_some]

/-- **Key material survives every encoding it travels through.** -/
theorem Proper.travels {k : KeyPair} (h : k.Proper) : k.Travels where
  line := by
    obtain ⟨line, hline⟩ := toBase64_eq_ok_iff.mpr h.coprime
    have hshort := short_of_isConsistent h.isConsistent h.privateExponent_lt
    exact ⟨line, hline, ofBase64_toBase64 h.isConsistent hshort hline⟩
  publicKey := ⟨PublicKey.ofDer_toDer h.isAcceptable, rfl, rfl⟩
  size := by
    have hpos : k.modulus ≠ 0 := Nat.ne_zero_of_lt h.privateExponent_lt
    exact ⟨Bytes.pow_le_of_byteLength hpos, Bytes.lt_pow_byteLength k.modulus⟩
  room := h.size_ge
  sealed message seed hfits hseed := by
    obtain ⟨c, hc, hsize⟩ := PublicKey.encryptWith_eq_ok hfits seed
    exact ⟨c, hc, hsize,
      decrypt_encryptWith h.isConsistent h.prime_p h.prime_q h.different hseed hc⟩
  refused message seed hlong := PublicKey.encryptWith_eq_error hlong seed
  seeded := by
    constructor
    · intro message e
      exact ⟨(e.draw Sha1.size).1, size_draw e Sha1.size, rfl⟩
    · intro seed hseed
      obtain ⟨e, he⟩ := exists_draw seed
      refine ⟨e, fun message => ?_⟩
      change k.publicKey.encryptWith (e.draw Sha1.size).1 message = _
      rw [show Sha1.size = seed.size from hseed.symm, he]

theorem simple_proper : simple.Proper where
  prime_p := simple_prime_p
  prime_q := simple_prime_q
  odd_p := Nat.odd_iff.mpr (by decide +kernel)
  odd_q := Nat.odd_iff.mpr (by decide +kernel)
  different := by decide +kernel
  modulus_eq := rfl
  bits_ge := Nat.lt_size.mpr (by decide +kernel)
  bits_le := Nat.size_le.mpr (by decide +kernel)
  odd_exponent := Nat.odd_iff.mpr (by decide +kernel)
  exponent_ge := by decide +kernel
  exponent_le := by decide +kernel
  privateExponent_pos := by decide +kernel
  privateExponent_lt := by decide +kernel
  inverse_p := by decide +kernel
  inverse_q := by decide +kernel

/-- There are such pairs. -/
theorem simple_travels : simple.Proper ∧ simple.Travels :=
  ⟨simple_proper, simple_proper.travels⟩

end BackupVault.KeyPair
