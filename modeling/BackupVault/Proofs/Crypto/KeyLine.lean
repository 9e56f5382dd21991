import BackupVault.Crypto.KeyPair
import BackupVault.Proofs.Encoding.Base64
import BackupVault.Proofs.Encoding.Der

/-!
# Key pairs are read back

The line of base 64 in which a key pair is kept can be written if the primes have no common divisor,
and the pair that is read from it is the one that was written, as long as its numbers are not longer
than a modulus may be.  The numbers of a pair that was generated never are.

## Overview

- `Modular.euclid_fst`, `Modular.isSome_inverse?`: which inverses there are
- `KeyPair.Short`: the numbers are not too long
- `KeyPair.ofBase64_toBase64`: pairs are read back
- `KeyPair.of_generate`: what is generated
-/

set_option autoImplicit false

namespace BackupVault

/-! ## §1 Inverses -/

namespace Modular

/-- Whatever the coefficients are, the number found is the greatest common divisor. -/
theorem euclid_fst (r₀ : Nat) (s₀ : Int) (r₁ : Nat) (s₁ : Int) :
    (euclid r₀ s₀ r₁ s₁).1 = Nat.gcd r₀ r₁ := by
  fun_induction euclid r₀ s₀ r₁ s₁ with
  | case1 r₀ s₀ s₁ => exact (Nat.gcd_zero_right r₀).symm
  | case2 r₀ s₀ r₁ s₁ hr ih => rw [ih, Nat.gcd_comm, ← Nat.gcd_rec, Nat.gcd_comm]

theorem isSome_inverse? (a m : Nat) : (inverse? a m).isSome ↔ Nat.Coprime a m := by
  have hgcd : (euclid (a % m) 1 m 0).1 = Nat.gcd a m := by
    rw [euclid_fst, ← Nat.gcd_rec, Nat.gcd_comm]
  unfold inverse?
  rw [Nat.Coprime, ← hgcd]
  dsimp only
  split
  · exact iff_of_true rfl ‹_›
  · exact iff_of_false Bool.false_ne_true ‹_›

theorem inverse?_lt {a m d : Nat} (hm : 0 < m) (h : inverse? a m = some d) : d < m := by
  unfold inverse? at h
  dsimp only at h
  split at h
  · cases h
    -- The coefficient is taken modulo `m`.
    have hlt : (euclid (a % m) 1 m 0).2.emod m < m := Int.emod_lt_of_pos _ (by omega)
    omega
  · cases h

end Modular

namespace Der

/-! ## §2 Numbers -/

variable {n : Nat}

/-- Numbers that are not longer than a modulus may be have short encodings, -/
theorem length_flatMap_natural_le {ns : List Nat} (h : ∀ n ∈ ns, Bytes.byteLength n ≤ 512) :
    (ns.flatMap natural).length ≤ 518 * ns.length := by
  induction ns with
  | nil => exact Nat.zero_le _
  | cons n ns ih =>
    rw [List.forall_mem_cons] at h
    have hfirst := length_natural_le h.1 (by decide)
    have hrest := ih h.2
    rw [List.flatMap_cons, List.length_append, List.length_cons]
    omega

/-- from which each is read back, with the bytes after it. -/
theorem natural_append (h : Bytes.byteLength n ≤ 512) (rest : List UInt8) :
    natural? (natural n ++ rest) = some (n, rest) := by
  have hcontent := length_naturalContent_le h
  have hmax : 514 ≤ maxLength := by decide
  exact natural_natural (Nat.le_trans hcontent hmax) rest

end Der

namespace KeyPair

variable {k : KeyPair}

/-! ## §3 Encodings -/

/-- The numbers of the pair are not longer than a modulus may be. -/
structure Short (k : KeyPair) : Prop where
  modulus : Bytes.byteLength k.modulus ≤ 512
  exponent : Bytes.byteLength k.exponent ≤ 512
  privateExponent : Bytes.byteLength k.privateExponent ≤ 512
  p : Bytes.byteLength k.p ≤ 512
  q : Bytes.byteLength k.q ≤ 512
  pos : 0 < k.p

/-- The numbers that are written of a pair.  The last three are not trusted when they are read. -/
def parts (k : KeyPair) (coefficient : Nat) : List Nat :=
  [0, k.modulus, k.exponent, k.privateExponent, k.p, k.q, k.privateExponent % (k.p - 1),
    k.privateExponent % (k.q - 1), coefficient]

theorem numbers_eq {bs : List UInt8} (h : k.numbers? = some bs) :
    ∃ c, Modular.inverse? k.q k.p = some c ∧
      bs = Der.element Der.sequenceTag ((k.parts c).flatMap Der.natural) := by
  obtain ⟨c, hc, hbs⟩ := Option.bind_eq_some_iff.mp h
  cases hbs
  refine ⟨c, hc, ?_⟩
  simp only [parts, List.flatMap_cons, List.flatMap_nil, List.append_assoc, List.append_nil]

theorem Short.parts (h : k.Short) {c : Nat} (hc : Modular.inverse? k.q k.p = some c) :
    ∀ n ∈ k.parts c, Bytes.byteLength n ≤ 512 := by
  have hrest (m : Nat) : Bytes.byteLength (k.privateExponent % m) ≤ 512 :=
    Nat.le_trans (Bytes.byteLength_mono (Nat.mod_le ..)) h.privateExponent
  have hc := Bytes.byteLength_mono (Nat.le_of_lt (Modular.inverse?_lt h.pos hc))
  simp only [KeyPair.parts, List.forall_mem_cons]
  exact ⟨by decide, h.modulus, h.exponent, h.privateExponent, h.p, h.q, hrest _, hrest _,
    Nat.le_trans hc h.p, by simp⟩

/-- The numbers of a short pair are read back. -/
theorem Short.ofNumbers_numbers (h : k.Short) {bs : List UInt8} (hbs : k.numbers? = some bs) :
    bs.length ≤ 4666 ∧ ofNumbers? bs = some k := by
  obtain ⟨c, hc, rfl⟩ := numbers_eq hbs
  have hall := h.parts hc
  have hlength : ((k.parts c).flatMap Der.natural).length ≤ 4662 :=
    Der.length_flatMap_natural_le hall
  have hmax : 4662 ≤ Der.maxLength := by decide
  refine ⟨Nat.le_trans (Der.length_element_le _ _ (by omega)) (Nat.add_le_add_right hlength 4), ?_⟩
  rw [ofNumbers?, Der.whole_element (by decide) (Nat.le_trans hlength hmax)]
  -- One after another they are read off what is left.
  simp only [KeyPair.parts, List.forall_mem_cons] at hall
  simp only [KeyPair.parts, List.flatMap_cons, List.flatMap_nil, Option.bind_eq_bind,
    Option.bind_some, Der.natural_append, hall]
  rfl

/-- A short pair is read back from its encoding. -/
theorem Short.ofDer_toDer (h : k.Short) {bs : List UInt8} (hbs : k.toDer? = some bs) :
    ofDer? (Bytes.ofList bs) = some k := by
  obtain ⟨numbers, hnumbers, hbs⟩ := Option.bind_eq_some_iff.mp hbs
  obtain ⟨hlength, hread⟩ := h.ofNumbers_numbers hnumbers
  cases hbs
  have hmax : 6000 ≤ Der.maxLength := by decide
  have hzero : Bytes.byteLength 0 ≤ 512 := by decide
  have hversion := Der.length_natural_le hzero (by decide)
  have halgorithm : rsaAlgorithm.length = 15 := by decide
  have hoctets := Der.length_element_le Der.octetStringTag numbers (by omega)
  have hnumbers : Der.element? Der.octetStringTag (Der.element Der.octetStringTag numbers) =
      some (numbers, []) := by
    have htag : Der.isTag Der.octetStringTag = true := by decide
    have hread := Der.element_element htag (Nat.le_trans hlength (by omega)) []
    rwa [List.append_nil] at hread
  rw [ofDer?, Bytes.toList_ofList, Der.whole_element (by decide)
    (by simp only [List.length_append]; omega)]
  simp only [List.append_assoc, Option.bind_eq_bind, Option.bind_some, Der.natural_append hzero,
    PublicKey.algorithm_append, hnumbers]
  -- Nothing comes after the numbers, so that there is no public key among them.
  exact hread

/-- **Key pairs are read back** from the line in which they are kept. -/
theorem ofBase64_toBase64 (hk : k.isConsistent = true) (h : k.Short) {key : String}
    (hkey : k.toBase64 = .ok key) : ofBase64 key = .ok k := by
  unfold toBase64 at hkey
  cases hder : k.toDer? with
  | none =>
    rw [hder] at hkey
    cases hkey
  | some bs =>
    rw [hder] at hkey
    cases hkey
    rw [ofBase64, Base64.trim_encode, Base64.decode_encode]
    simp only [h.ofDer_toDer hder, hk, ↓reduceIte]

/-- There is such a line exactly if the primes have no common divisor. -/
theorem toBase64_eq_ok_iff : (∃ key, k.toBase64 = .ok key) ↔ Nat.Coprime k.q k.p := by
  rw [← Modular.isSome_inverse?]
  unfold toBase64 toDer? numbers?
  cases Modular.inverse? k.q k.p with
  | none => exact iff_of_false (fun ⟨key, hkey⟩ => nomatch hkey) Bool.false_ne_true
  | some c => exact iff_of_true ⟨_, rfl⟩ rfl

/-! ## §4 Generated pairs -/

theorem isAcceptable_of_isConsistent (hk : k.isConsistent = true) :
    k.publicKey.isAcceptable = true := by
  simp only [isConsistent, Bool.and_eq_true] at hk
  exact hk.1.1.1.1.1

/-- The numbers of a consistent pair are short, if its private exponent is below the modulus. -/
theorem short_of_isConsistent (hk : k.isConsistent = true) (h : k.privateExponent < k.modulus) :
    k.Short := by
  have haccept := isAcceptable_of_isConsistent hk
  simp only [isConsistent, Bool.and_eq_true, beq_iff_eq, decide_eq_true_eq] at hk
  obtain ⟨⟨⟨⟨⟨-, hproduct⟩, hp⟩, hq⟩, -⟩, -⟩ := hk
  have hbelow (n : Nat) (h : n ≤ k.modulus) : Bytes.byteLength n ≤ 512 :=
    Nat.le_trans (Bytes.byteLength_mono h) (PublicKey.size_le haccept)
  have hexponent : k.exponent < k.modulus := by
    simp only [PublicKey.isAcceptable, Bool.and_eq_true, decide_eq_true_eq] at haccept
    exact haccept.1.1.1.1.2
  exact
    { modulus := hbelow _ (Nat.le_refl _)
      exponent := hbelow _ (Nat.le_of_lt hexponent)
      privateExponent := hbelow _ (Nat.le_of_lt h)
      p := hbelow _ (hproduct ▸ Nat.le_mul_of_pos_right _ (by omega))
      q := hbelow _ (hproduct ▸ Nat.le_mul_of_pos_left _ (by omega))
      pos := by omega }

/-- What the search for a pair finds, by induction on the tries. -/
theorem of_search {bits tries : Nat} {e e' : Entropy} (h : search bits tries e = (some k, e')) :
    k.isConsistent = true ∧ k.privateExponent < k.modulus := by
  induction tries generalizing e with
  | zero => cases h
  | succ tries ih =>
    unfold search at h
    dsimp only at h
    -- Unless two primes were found that fit together, the search goes on.
    split at h
    · rename_i p q _ _
      split at h
      · rename_i d hd
        split at h
        · rename_i hfit
          cases h
          have hpos : 0 < (p - 1) * (q - 1) := by
            have hconsistent := hfit.2
            simp only [isConsistent, Bool.and_eq_true, decide_eq_true_eq] at hconsistent
            exact Nat.mul_pos (by omega) (by omega)
          refine ⟨hfit.2, ?_⟩
          exact Nat.lt_of_lt_of_le (Modular.inverse?_lt hpos hd)
            (Nat.mul_le_mul (Nat.sub_le ..) (Nat.sub_le ..))
        · exact ih h
      · exact ih h
    · exact ih h

/-- A generated pair is consistent, and its numbers are short. -/
theorem of_generate {bits : Nat} {e : Entropy} (h : (generate bits e).1 = .ok k) :
    k.isConsistent = true ∧ k.Short := by
  unfold generate at h
  split at h
  · cases h
  · split at h
    · rename_i hsearch
      cases h
      obtain ⟨hk, hprivate⟩ := of_search hsearch
      exact ⟨hk, short_of_isConsistent hk hprivate⟩
    · cases h

end KeyPair

end BackupVault
