import BackupVault.Crypto.KeyPair
import BackupVault.Proofs.Crypto.Oaep
import BackupVault.Proofs.Crypto.PublicKey
import Mathlib.FieldTheory.Finite.Basic
import Mathlib.NumberTheory.LucasPrimality

/-!
# Key pairs that work

For a pair of two different primes, raising to one exponent and then to the other changes nothing,
by Fermat's little theorem modulo each of them.  So what is encrypted under the public key is
decrypted by the pair.

## Overview

- `Modular.power_eq`: the powers that are computed
- `Modular.prime_of_powers`: a prime, recognized by three powers
- `KeyPair.decrypt_encryptWith`: decryption undoes encryption
-/

set_option autoImplicit false

namespace BackupVault

/-! ## §1 Powers -/

namespace Modular

theorem power_eq (b e m : Nat) : power b e m = b ^ e % m := by
  fun_induction power b e m with
  | case1 b => rw [Nat.pow_zero]
  | case2 b e he half heven ih =>
    -- Squaring the base halves an even exponent,
    have hhalf : e = 2 * (e / 2) := by omega
    change power (b * b % m) (e / 2) m = _
    rw [ih, ← Nat.pow_mod, ← Nat.pow_two, ← Nat.pow_mul, ← hhalf]
  | case3 b e he half hodd ih =>
    -- and an odd one leaves a factor over.
    have hhalf : e = 2 * (e / 2) + 1 := by omega
    change b * power (b * b % m) (e / 2) m % m = _
    rw [ih, ← Nat.pow_mod, ← Nat.pow_two, ← Nat.pow_mul, Nat.mul_mod_mod, ← pow_succ', ← hhalf]

/-- An exponent that is one modulo `p - 1` changes nothing modulo a prime `p`. -/
theorem pow_modEq {p k : Nat} (hp : p.Prime) (hk : k % (p - 1) = 1) (x : Nat) :
    x ^ k ≡ x [MOD p] := by
  have : Fact p.Prime := ⟨hp⟩
  rw [← ZMod.natCast_eq_natCast_iff, Nat.cast_pow]
  -- The exponent is a multiple of `p - 1`, and one more; the multiple does not count.
  have hsplit : k = (p - 1) * (k / (p - 1)) + 1 := by
    have hdiv := Nat.div_add_mod k (p - 1)
    rw [hk] at hdiv
    exact hdiv.symm
  by_cases hx : (x : ZMod p) = 0
  · rw [hx, hsplit, zero_pow (Nat.succ_ne_zero _)]
  · rw [hsplit, pow_succ, pow_mul, ZMod.pow_card_sub_one_eq_one hx, one_pow, one_mul]

/-- Two exponents whose product is one modulo each prime less one undo each other. -/
theorem power_power {p q e d x : Nat} (hp : p.Prime) (hq : q.Prime) (hne : p ≠ q)
    (hpe : e * d % (p - 1) = 1) (hqe : e * d % (q - 1) = 1) (hx : x < p * q) :
    power (power x e (p * q)) d (p * q) = x := by
  -- The primes are different, so that it is enough to look modulo each of them.
  have hboth : x ^ (e * d) ≡ x [MOD p * q] :=
    (Nat.modEq_and_modEq_iff_modEq_mul ((Nat.coprime_primes hp hq).mpr hne)).mp
      ⟨pow_modEq hp hpe x, pow_modEq hq hqe x⟩
  rw [power_eq, power_eq, ← Nat.pow_mod, ← Nat.pow_mul]
  exact Nat.mod_eq_of_modEq hboth hx

/-- A number of the form `3 * 2 ^ k + 1` is prime, if some number has the powers that a generator
would have. -/
theorem prime_of_powers {k p a : Nat} (hp : p = (3 <<< k) + 1)
    (hwhole : power a (p - 1) p = 1) (hhalf : power a ((p - 1) / 2) p ≠ 1)
    (hthird : power a ((p - 1) / 3) p ≠ 1) : p.Prime := by
  rw [Nat.shiftLeft_eq] at hp
  have hpos := Nat.one_le_two_pow (n := k)
  -- The powers that are computed are those in the ring modulo `p`.
  have hone (n : Nat) : (a : ZMod p) ^ n = 1 ↔ power a n p = 1 := by
    rw [power_eq, ← Nat.cast_pow, ← Nat.cast_one, ZMod.natCast_eq_natCast_iff',
      Nat.mod_eq_of_lt (by omega : 1 < p)]
  refine lucas_primality p (a : ZMod p) ((hone _).mpr hwhole) fun r hr hdvd => ?_
  -- The number before `p` has no prime factors but two and three.
  have hfactors : r = 3 ∨ r = 2 := by
    rw [hp, Nat.add_sub_cancel, hr.dvd_mul] at hdvd
    rcases hdvd with h | h
    · exact .inl ((Nat.prime_dvd_prime_iff_eq hr Nat.prime_three).mp h)
    · exact .inr ((Nat.prime_dvd_prime_iff_eq hr Nat.prime_two).mp (hr.dvd_of_dvd_pow h))
  rcases hfactors with rfl | rfl
  · exact fun h => hthird ((hone _).mp h)
  · exact fun h => hhalf ((hone _).mp h)

end Modular

/-! ## §2 Decryption -/

namespace KeyPair

variable {k : KeyPair}

/-- **Decryption undoes encryption**, for a consistent pair of two different primes. -/
theorem decrypt_encryptWith (hk : k.isConsistent = true) (hp : k.p.Prime) (hq : k.q.Prime)
    (hne : k.p ≠ k.q) {seed message c : Bytes} (hseed : seed.size = Sha1.size)
    (h : k.publicKey.encryptWith seed message = .ok c) : k.decrypt c = .ok message := by
  simp only [isConsistent, Bool.and_eq_true, beq_iff_eq, decide_eq_true_eq] at hk
  obtain ⟨⟨⟨⟨⟨haccept, hproduct⟩, -⟩, -⟩, hpe⟩, hqe⟩ := hk
  obtain ⟨block, hpad, rfl⟩ : ∃ block, Oaep.pad? k.publicKey.size seed message = some block ∧
      k.publicKey.raise block = c := by
    unfold PublicKey.encryptWith at h
    split at h
    · injection h with h
      exact ⟨_, ‹_›, h⟩
    · cases h
  obtain ⟨hunpad, hsize, rest, hrest⟩ := Oaep.unpad_pad hseed hpad
  have hpositive : 0 < k.modulus := by
    rw [← hproduct]
    exact Nat.mul_pos hp.pos hq.pos
  -- A block starts with a zero, so that it stands for a number below the modulus.
  have hblock : block.toNatBE < k.modulus := by
    have hlength : rest.size = Bytes.byteLength k.modulus - 1 := by
      have hlength := congrArg ByteArray.size hrest
      rw [hsize, ByteArray.size_append, Bytes.size_ofList, List.length_singleton,
        PublicKey.size] at hlength
      change Bytes.byteLength k.modulus = _ at hlength
      omega
    rw [hrest, Bytes.toNatBE_zero_append]
    refine Nat.lt_of_lt_of_le (Bytes.toNatBE_lt rest) ?_
    rw [hlength]
    exact Bytes.pow_le_of_byteLength (Nat.ne_of_gt hpositive)
  -- The power is below the modulus as well, so that none of it is cut off,
  have hcipher : (k.publicKey.raise block).toNatBE =
      Modular.power block.toNatBE k.exponent k.modulus := by
    refine Bytes.toNatBE_ofNatBE (Nat.lt_trans ?_ (Bytes.lt_pow_byteLength k.modulus))
    rw [Modular.power_eq]
    exact Nat.mod_lt _ hpositive
  -- and raising it to the other exponent gives the block again.
  have hback : Modular.power (Modular.power block.toNatBE k.exponent k.modulus)
      k.privateExponent k.modulus = block.toNatBE := by
    rw [← hproduct] at hblock ⊢
    exact Modular.power_power hp hq hne hpe hqe hblock
  have hlt : (k.publicKey.raise block).toNatBE < k.modulus := by
    rw [hcipher, Modular.power_eq]
    exact Nat.mod_lt _ hpositive
  have hwidth : (k.publicKey.raise block).size = k.publicKey.size := by
    rw [PublicKey.raise, Bytes.size_ofNatBE]
  -- What was decrypted passes the check of encrypting it once more.
  unfold decrypt
  simp only
  rw [if_pos ⟨hwidth, hlt⟩, hcipher, hback, if_pos rfl, ← hsize, Bytes.ofNatBE_toNatBE, hunpad]

theorem size_draw (e : Entropy) (n : Nat) : (e.draw n).1.size = n := by
  rw [Entropy.draw, Bytes.size_ofList, List.length_map, List.length_range]

/-- What is encrypted is decrypted, whatever the randomness. -/
theorem decrypt_encrypt (hk : k.isConsistent = true) (hp : k.p.Prime) (hq : k.q.Prime)
    (hne : k.p ≠ k.q) {message c : Bytes} {e : Entropy}
    (h : (k.publicKey.encrypt message e).1 = .ok c) : k.decrypt c = .ok message :=
  decrypt_encryptWith hk hp hq hne (size_draw e Sha1.size) h

/-! ### One pair -/

/-- A key pair whose primes are of a form that is easy to recognize. -/
def simple : KeyPair where
  modulus := ((3 <<< 276) + 1) * ((3 <<< 209) + 1)
  exponent := 65537
  privateExponent :=
    235245176958281796892605926809127652821726215352742126708493519084473835702338912257
  p := (3 <<< 276) + 1
  q := (3 <<< 209) + 1

/-- The number 19 has the powers that show it. -/
theorem simple_prime_p : simple.p.Prime :=
  Modular.prime_of_powers (k := 276) (a := 19) rfl (by decide +kernel) (by decide +kernel)
    (by decide +kernel)

/-- Here it is the number 7. -/
theorem simple_prime_q : simple.q.Prime :=
  Modular.prime_of_powers (k := 209) (a := 7) rfl (by decide +kernel) (by decide +kernel)
    (by decide +kernel)

end KeyPair

end BackupVault
