import BackupVault.Proofs.Bytes
import Mathlib.Algebra.Polynomial.Degree.Lemmas
import Mathlib.Algebra.Field.ZMod
import Mathlib.Data.List.GetD

/-!
# Bit strings as polynomials

A string of bits stands for a polynomial over the field of two elements, whose coefficients are its
bits, the most significant first.  Adding polynomials is exclusive or, and multiplying by a power of
the variable is shifting, up to the bits that are shifted out.

## Overview

- `Bits.ofWord`, `Bits.ofBytes`: the bits of words and of byte strings
- `Bits.polynomial`: the polynomial of a bit string
- `Bits.polynomial_append`, `Bits.polynomial_injective`: polynomials of strings
- `Bits.polynomial_xor`, `Bits.polynomial_shift`: polynomials of words
-/

set_option autoImplicit false

namespace BackupVault.Bits

open Polynomial

/-! ## §1 Bits -/

/-- The bits of a word, the most significant first. -/
def ofWord {n : Nat} (v : BitVec n) : List Bool := (List.range n).map v.getMsbD

/-- The bits of a byte string, the most significant of each byte first. -/
def ofBytes (l : List UInt8) : List Bool := l.flatMap fun x => ofWord x.toBitVec

@[simp]
theorem length_ofWord {n : Nat} (v : BitVec n) : (ofWord v).length = n := by
  rw [ofWord, List.length_map, List.length_range]

theorem ofBytes_nil : ofBytes [] = [] := rfl

theorem ofBytes_cons (x : UInt8) (l : List UInt8) :
    ofBytes (x :: l) = ofWord x.toBitVec ++ ofBytes l := List.flatMap_cons

theorem ofBytes_append (l m : List UInt8) : ofBytes (l ++ m) = ofBytes l ++ ofBytes m :=
  List.flatMap_append

@[simp]
theorem length_ofBytes (l : List UInt8) : (ofBytes l).length = 8 * l.length := by
  induction l with
  | nil => rfl
  | cons x l ih => rw [ofBytes_cons, List.length_append, ih, length_ofWord, List.length_cons]; omega

theorem ofWord_injective {n : Nat} {v w : BitVec n} (h : ofWord v = ofWord w) : v = w := by
  refine BitVec.eq_of_getMsbD_eq fun i hi => ?_
  have hbit := congrArg (·[i]?) h
  simpa [ofWord, List.getElem?_range hi] using hbit

theorem ofBytes_injective {l m : List UInt8} (h : ofBytes l = ofBytes m) : l = m := by
  have hlength := congrArg List.length h
  rw [length_ofBytes, length_ofBytes] at hlength
  induction l generalizing m with
  | nil => exact (List.length_eq_zero_iff.mp (by simpa using hlength.symm)).symm
  | cons x l ih =>
    cases m with
    | nil => simp at hlength
    | cons y m =>
      rw [ofBytes_cons, ofBytes_cons] at h
      obtain ⟨hfirst, hrest⟩ := List.append_inj h (by simp)
      rw [UInt8.eq_of_toBitVec_eq (ofWord_injective hfirst), ih hrest (by simpa using hlength)]

/-! ## §2 Polynomials -/

/-- A bit as a coefficient. -/
def coefficient (b : Bool) : ZMod 2 := if b then 1 else 0

theorem coefficient_injective {a b : Bool} (h : coefficient a = coefficient b) : a = b := by
  revert h
  cases a <;> cases b <;> decide

theorem coefficient_xor (a b : Bool) : coefficient (a ^^ b) = coefficient a + coefficient b := by
  cases a <;> cases b <;> decide

/-- The polynomial whose coefficients are the bits of a string, the highest first. -/
noncomputable def polynomial : List Bool → (ZMod 2)[X]
  | [] => 0
  | b :: bs => C (coefficient b) * X ^ bs.length + polynomial bs

theorem coeff_polynomial (bs : List Bool) (i : Nat) :
    (polynomial bs).coeff i = coefficient (bs.reverse.getD i false) := by
  induction bs with
  | nil => rfl
  | cons b bs ih =>
    rw [polynomial, coeff_add, coeff_C_mul, coeff_X_pow, ih, List.reverse_cons]
    -- The first bit is the coefficient at the length of the others.
    rcases Nat.lt_trichotomy i bs.length with hlt | heq | hgt
    · rw [if_neg (Nat.ne_of_lt hlt), mul_zero, zero_add, List.getD_append _ _ _ _ (by simpa)]
    · rw [heq, if_pos rfl, mul_one, List.getD_append_right _ _ _ _ (by simp),
        List.getD_eq_default _ _ (by simp)]
      simp [coefficient]
    · rw [if_neg (Nat.ne_of_gt hgt), mul_zero, zero_add,
        List.getD_append_right _ _ _ _ (by simp; omega),
        List.getD_eq_default _ _ (by simp; omega), List.getD_eq_default _ _ (by simp; omega)]

theorem polynomial_append (a b : List Bool) :
    polynomial (a ++ b) = polynomial a * X ^ b.length + polynomial b := by
  induction a with
  | nil => rw [List.nil_append, polynomial, zero_mul, zero_add]
  | cons x a ih =>
    rw [List.cons_append, polynomial, polynomial, ih, List.length_append, pow_add]
    ring

theorem polynomial_replicate_false (n : Nat) : polynomial (List.replicate n false) = 0 := by
  induction n with
  | zero => rfl
  | succ n ih => rw [List.replicate_succ, polynomial, ih]; simp [coefficient]

theorem degree_polynomial_lt (bs : List Bool) : (polynomial bs).degree < bs.length := by
  refine (degree_lt_iff_coeff_zero _ _).mpr fun i hi => ?_
  rw [coeff_polynomial, List.getD_eq_default _ _ (by simpa using hi)]
  rfl

/-- Strings of one length with the same polynomial are the same. -/
theorem polynomial_injective {a b : List Bool} (hlength : a.length = b.length)
    (h : polynomial a = polynomial b) : a = b := by
  apply List.reverse_injective
  refine List.ext_getElem (by simpa using hlength) fun i hi hi' => ?_
  have hcoeff := congrArg (coeff · i) h
  rw [coeff_polynomial, coeff_polynomial] at hcoeff
  have hbit := coefficient_injective hcoeff
  rwa [List.getD_eq_getElem _ _ hi, List.getD_eq_getElem _ _ hi'] at hbit

/-- Bytes of zeros in front change nothing. -/
theorem polynomial_zeros (k : Nat) (l : List UInt8) :
    polynomial (ofBytes (List.replicate k 0 ++ l)) = polynomial (ofBytes l) := by
  have hbits : ofWord (0 : UInt8).toBitVec = List.replicate 8 false := by decide
  induction k with
  | zero => rfl
  | succ k ih =>
    rw [List.replicate_succ, List.cons_append, ofBytes_cons, polynomial_append, hbits,
      polynomial_replicate_false, zero_mul, zero_add, ih]

/-! ## §3 Words -/

section Words

variable {n : Nat} (v w : BitVec n)

theorem coeff_ofWord (i : Nat) : (polynomial (ofWord v)).coeff i = coefficient (v.getLsbD i) := by
  rw [coeff_polynomial]
  congr 1
  by_cases hi : i < n
  · rw [List.getD_eq_getElem _ _ (by simpa), List.getElem_reverse]
    simp only [ofWord, List.getElem_map, List.getElem_range, List.length_map, List.length_range]
    rw [BitVec.getMsbD_eq_getLsbD, decide_eq_true (by omega : n - 1 - i < n), Bool.true_and]
    congr 1
    omega
  · rw [List.getD_eq_default _ _ (by simpa using hi), BitVec.getLsbD_of_ge v i (by omega)]

/-- Exclusive or adds. -/
theorem polynomial_xor :
    polynomial (ofWord (v ^^^ w)) = polynomial (ofWord v) + polynomial (ofWord w) := by
  ext i
  rw [coeff_add, coeff_ofWord, coeff_ofWord, coeff_ofWord, BitVec.getLsbD_xor, coefficient_xor]

/-- Shifting multiplies by a power of the variable, but for the bits that are shifted out. -/
theorem polynomial_shift {k : Nat} (hk : k ≤ n) :
    X ^ k * polynomial (ofWord v) =
      polynomial (ofWord (v <<< k)) + X ^ n * polynomial (ofWord (v >>> (n - k))) := by
  ext i
  rw [coeff_add, coeff_X_pow_mul', coeff_X_pow_mul', coeff_ofWord, coeff_ofWord, coeff_ofWord,
    BitVec.getLsbD_shiftLeft, BitVec.getLsbD_ushiftRight]
  -- Below `k` there is nothing; up to `n` stand the bits that stay, and from `n` on the others.
  by_cases hlow : i < k
  · simp [hlow, show ¬ k ≤ i by omega, show ¬ n ≤ i by omega, coefficient]
  · by_cases hin : i < n
    · simp [hlow, hin, show k ≤ i by omega, show ¬ n ≤ i by omega]
    · have hindex : n - k + (i - n) = i - k := by omega
      simp [hin, hindex, show k ≤ i by omega, show n ≤ i by omega, coefficient]

/-- Zeros in front of a word change nothing. -/
theorem polynomial_setWidth {m : Nat} (h : n ≤ m) :
    polynomial (ofWord (v.setWidth m)) = polynomial (ofWord v) := by
  ext i
  rw [coeff_ofWord, coeff_ofWord, BitVec.getLsbD_setWidth]
  by_cases hi : i < m
  · simp [hi]
  · simp [hi, BitVec.getLsbD_of_ge v i (by omega)]

/-- Only the most significant bit is left, if all others are shifted out. -/
theorem polynomial_top (v : BitVec (n + 1)) :
    polynomial (ofWord (v >>> n)) = C (coefficient v.msb) := by
  ext i
  rw [coeff_ofWord, BitVec.getLsbD_ushiftRight, coeff_C]
  cases i with
  | zero => rw [if_pos rfl, BitVec.msb_eq_getLsbD_last]; rfl
  | succ i => rw [if_neg (Nat.succ_ne_zero i), BitVec.getLsbD_of_ge v _ (by omega)]; rfl

end Words

end BackupVault.Bits
