import BackupVault.Crypto.Checksum
import BackupVault.Proofs.Crypto.BitPolynomial
import Mathlib.RingTheory.AdjoinRoot

/-!
# The checksum as a remainder

The register of the checksum holds the remainder of what was fed to it, shifted by 32 places, after
division by a polynomial of degree 32.  All of that is counted in the ring of remainders, where
feeding a byte is multiplying by a power of the variable and adding.

The variable has an inverse there.  So two codewords that differ in a window of 32 bits only have
different remainders, wherever the window lies.

## Overview

- `Checksum.divisor`: the polynomial that is divided by
- `Checksum.residue_step`, `Checksum.residue_fold`: what feeding bytes does to the register
- `Checksum.cksum_eq_remainder`: the checksum is the complement of a remainder
- `Checksum.remainder_window`, `Checksum.cksum_ne_of_damaged`: codewords that differ in a window
-/

set_option autoImplicit false

namespace BackupVault.Checksum

open Polynomial Bits

/-! ## §1 Division -/

/-- The polynomial that is divided by. -/
noncomputable def divisor : (ZMod 2)[X] :=
  X ^ 32 + X ^ 26 + X ^ 23 + X ^ 22 + X ^ 16 + X ^ 12 + X ^ 11 + X ^ 10 + X ^ 8 + X ^ 7 + X ^ 5 +
    X ^ 4 + X ^ 2 + X + 1

/-- The generator has the coefficients of the divisor below the leading one. -/
theorem divisor_eq : divisor = X ^ 32 + polynomial (ofWord generator.toBitVec) := by
  have hbits : ofWord generator.toBitVec =
      [false, false, false, false, false, true, false, false, true, true, false, false, false,
        false, false, true, false, false, false, true, true, true, false, true, true, false, true,
        true, false, true, true, true] := by decide
  rw [hbits, divisor]
  simp [polynomial, coefficient]
  ring

theorem divisor_monic : divisor.Monic := by
  rw [divisor_eq]
  exact monic_X_pow_add (degree_polynomial_lt _)

theorem degree_divisor : divisor.degree = 32 := by
  rw [divisor_eq, degree_add_eq_left_of_degree_lt, degree_X_pow]
  · rfl
  · rw [degree_X_pow]
    exact degree_polynomial_lt _

/-- The ring of remainders. -/
abbrev Remainders : Type := AdjoinRoot divisor

noncomputable abbrev remainder : (ZMod 2)[X] →+* Remainders := AdjoinRoot.mk divisor

/-- The remainder of the variable. -/
noncomputable abbrev root : Remainders := AdjoinRoot.root divisor

theorem remainder_X : remainder X = root := AdjoinRoot.mk_X

theorem remainder_X_pow (k : Nat) : remainder (X ^ k) = root ^ k := by
  rw [map_pow, remainder_X]

theorem add_self (a : Remainders) : a + a = 0 := by
  have htwo : (2 : Remainders) = 0 := by
    rw [← map_ofNat (algebraMap (ZMod 2) Remainders) 2]
    exact map_zero _
  rw [← two_mul, htwo, zero_mul]

/-- The variable has an inverse among the remainders, since the divisor has the constant term
one. -/
theorem isUnit_root : IsUnit root := by
  let rest : (ZMod 2)[X] := X ^ 31 + X ^ 25 + X ^ 22 + X ^ 21 + X ^ 15 + X ^ 11 + X ^ 10 + X ^ 9 +
    X ^ 7 + X ^ 6 + X ^ 4 + X ^ 3 + X + 1
  have hdivisor : divisor = X * rest + 1 := by
    simp only [divisor, rest]
    ring
  have hzero : root * remainder rest + 1 = 0 := by
    rw [← remainder_X, ← map_mul, ← map_one remainder, ← map_add, ← hdivisor]
    exact AdjoinRoot.mk_self
  refine IsUnit.of_mul_eq_one (-remainder rest) ?_
  rw [mul_neg]
  exact (eq_neg_of_add_eq_zero_right hzero).symm

/-- Different strings of at most 32 bits have different remainders. -/
theorem remainder_injective {u v : List Bool} (hlength : u.length = v.length)
    (hle : u.length ≤ 32) (h : remainder (polynomial u) = remainder (polynomial v)) : u = v := by
  refine polynomial_injective hlength (sub_eq_zero.mp ?_)
  refine eq_zero_of_dvd_of_degree_lt (AdjoinRoot.mk_eq_mk.mp h) ?_
  -- The degree of the difference is less than the number of bits.
  rw [degree_divisor]
  have hcast : (u.length : WithBot Nat) ≤ 32 := by exact_mod_cast hle
  refine lt_of_le_of_lt (degree_sub_le _ _) (max_lt ?_ ?_)
  · exact lt_of_lt_of_le (degree_polynomial_lt u) hcast
  · exact lt_of_lt_of_le (degree_polynomial_lt v) (hlength ▸ hcast)

/-! ## §2 The register -/

/-- The remainder that a register holds. -/
noncomputable def residue (r : UInt32) : Remainders := remainder (polynomial (ofWord r.toBitVec))

theorem residue_xor (r s : UInt32) : residue (r ^^^ s) = residue r + residue s := by
  rw [residue, UInt32.toBitVec_xor, polynomial_xor, map_add, residue, residue]

theorem residue_zero : residue 0 = 0 := by
  have hzero : ofWord (0 : UInt32).toBitVec = List.replicate 32 false := by decide
  rw [residue, hzero, polynomial_replicate_false, map_zero]

/-- The leading term of the divisor stands for the others. -/
theorem residue_generator : residue generator = root ^ 32 := by
  have hzero : root ^ 32 + residue generator = 0 := by
    rw [residue, ← remainder_X_pow, ← map_add, ← divisor_eq]
    exact AdjoinRoot.mk_self
  exact add_left_cancel (hzero.trans (add_self (root ^ 32)).symm)

/-- A register that is shifted up loses bits at the top, which stand for multiples of the divisor's
leading term. -/
theorem residue_shift (r : UInt32) {k : Nat} (hk : k ≤ 32) :
    root ^ k * residue r = remainder (polynomial (ofWord (r.toBitVec <<< k))) +
      root ^ 32 * remainder (polynomial (ofWord (r.toBitVec >>> (32 - k)))) := by
  rw [residue, ← remainder_X_pow, ← remainder_X_pow, ← map_mul, ← map_mul, ← map_add,
    polynomial_shift _ hk]

theorem and_top_eq_zero_iff (r : UInt32) : r &&& 0x80000000 = 0 ↔ r.toBitVec.msb = false := by
  have htop : r.toBitVec &&& BitVec.twoPow 32 31 =
      if r.toBitVec.getLsbD 31 then BitVec.twoPow 32 31 else 0 := BitVec.and_twoPow _ _
  rw [← UInt32.toBitVec_inj, UInt32.toBitVec_and, BitVec.msb_eq_getLsbD_last]
  change r.toBitVec &&& BitVec.twoPow 32 31 = 0#32 ↔ r.toBitVec.getLsbD 31 = false
  rw [htop]
  cases r.toBitVec.getLsbD 31 <;> decide

theorem residue_shiftBit (r : UInt32) : residue (shiftBit r) = root * residue r := by
  -- One bit is lost, and the generator stands for it.
  have hshift : root * residue r =
      residue (r <<< 1) + root ^ 32 * remainder (C (coefficient r.toBitVec.msb)) := by
    rw [← pow_one root, residue_shift r (by decide), polynomial_top, residue, pow_one]
    rfl
  unfold shiftBit
  rw [hshift]
  by_cases hmsb : r &&& 0x80000000 = 0
  · rw [if_pos hmsb, (and_top_eq_zero_iff r).mp hmsb]
    simp [coefficient]
  · rw [if_neg hmsb, residue_xor, residue_generator]
    rw [and_top_eq_zero_iff, Bool.not_eq_false] at hmsb
    rw [hmsb]
    simp [coefficient]

theorem residue_shiftByte (r : UInt32) : residue (shiftByte r) = root ^ 8 * residue r := by
  simp only [shiftByte, residue_shiftBit]
  ring

/-- A byte in a word of its own, moved to the top. -/
theorem residue_top {t : UInt32} (h : t.toNat < 256) :
    residue (t <<< 24) = root ^ 24 * residue t := by
  have hlost : t.toBitVec >>> 8 = 0#32 := by
    apply BitVec.eq_of_toNat_eq
    rw [BitVec.toNat_ushiftRight, Nat.shiftRight_eq_div_pow]
    exact Nat.div_eq_of_lt h
  have hshift := residue_shift t (k := 24) (by decide)
  rw [hlost] at hshift
  have hzero : residue 0 = remainder (polynomial (ofWord 0#32)) := rfl
  rw [hshift, ← hzero, residue_zero, mul_zero, add_zero, residue]
  rfl

theorem table_getD {i : Nat} (h : i < 256) :
    table.getD i 0 = shiftByte (UInt32.ofNat i <<< 24) := by
  simp [table, Array.getD, h]

/-- Feeding a byte moves the register up and adds the byte. -/
theorem residue_step (r : UInt32) (b : UInt8) : residue (step r b) =
    root ^ 8 * residue r + root ^ 32 * remainder (polynomial (ofWord b.toBitVec)) := by
  -- The index of the table is the byte that is moved out, added to the one that is fed.
  obtain ⟨t, ht⟩ : ∃ t, (r >>> 24) ^^^ b.toUInt32 = t := ⟨_, rfl⟩
  have hlt : t.toNat < 256 := by
    rw [← ht, UInt32.toNat_xor]
    refine Nat.xor_lt_two_pow (n := 8) ?_ b.toNat_lt
    rw [UInt32.toNat_shiftRight, Nat.shiftRight_eq_div_pow]
    have hr := r.toNat_lt
    change r.toNat / 2 ^ 24 < 2 ^ 8
    omega
  have hbyte : residue b.toUInt32 = remainder (polynomial (ofWord b.toBitVec)) := by
    rw [residue, UInt8.toBitVec_toUInt32, polynomial_setWidth _ (by decide)]
  have hlow : remainder (polynomial (ofWord (r.toBitVec <<< 8))) = residue (r <<< 8) := rfl
  have hhigh : remainder (polynomial (ofWord (r.toBitVec >>> 24))) = residue (r >>> 24) := rfl
  have hshift := residue_shift r (k := 8) (by decide)
  rw [hlow, hhigh] at hshift
  calc residue (step r b)
      = residue (r <<< 8) + residue (shiftByte (t <<< 24)) := by
        rw [step, residue_xor, ht, table_getD hlt, UInt32.ofNat_toNat]
    _ = residue (r <<< 8) + root ^ 32 * (residue (r >>> 24) + residue b.toUInt32) := by
        rw [residue_shiftByte, residue_top hlt, ← mul_assoc, ← pow_add, ← ht, residue_xor]
    _ = root ^ 8 * residue r + root ^ 32 * remainder (polynomial (ofWord b.toBitVec)) := by
        rw [hshift, hbyte]
        ring

/-- Feeding bytes to a register. -/
theorem residue_fold (l : List UInt8) (r : UInt32) : residue (l.foldl step r) =
    root ^ (8 * l.length) * residue r + root ^ 32 * remainder (polynomial (ofBytes l)) := by
  induction l generalizing r with
  | nil => simp [ofBytes_nil, polynomial]
  | cons b l ih =>
    rw [List.foldl_cons, ih, residue_step, ofBytes_cons, polynomial_append, map_add, map_mul,
      remainder_X_pow, length_ofBytes, List.length_cons]
    ring

/-! ## §3 Codewords -/

/-- The bytes that are fed to the register: those of the string, and those of its size, least
significant first. -/
def codeword (b : Bytes) : List UInt8 :=
  b.data.toList ++ (Nat.digits 256 b.size).map UInt8.ofNat

theorem feed_eq (b : Bytes) (i : Nat) (r : UInt32) :
    feed b i r = (b.data.toList.drop i).foldl step r := by
  fun_induction feed b i r with
  | case1 i r hi ih =>
    have hi' : i < b.data.toList.length := hi
    have hbyte : b.at0 i = b.data.toList[i] := by
      rw [Bytes.at0_eq, List.getD_eq_getElem _ _ hi']
    rw [ih, List.drop_eq_getElem_cons hi', List.foldl_cons, hbyte]
  | case2 i r hi =>
    rw [List.drop_eq_nil_of_le (Nat.le_of_not_lt hi), List.foldl_nil]

theorem feedLength_eq (n : Nat) (r : UInt32) :
    feedLength n r = ((Nat.digits 256 n).map UInt8.ofNat).foldl step r := by
  fun_induction feedLength n r with
  | case1 r => rw [Nat.digits_zero]; rfl
  | case2 n r hn ih =>
    -- The byte of a number is that of its last digit.
    have hdigit : UInt8.ofNat (n % 256) = UInt8.ofNat n := by
      apply UInt8.toNat_inj.mp
      rw [UInt8.toNat_ofNat', UInt8.toNat_ofNat', Nat.mod_mod]
    rw [Nat.digits_eq_cons_digits_div (by decide) hn, List.map_cons, List.foldl_cons, ih, hdigit]

theorem cksum_eq (b : Bytes) : cksum b = ~~~ (codeword b).foldl step 0 := by
  rw [cksum, feed_eq, feedLength_eq, List.drop_zero, codeword, List.foldl_append]

/-- The register at the end holds the codeword, moved up by 32 places. -/
theorem residue_cksum (b : Bytes) :
    residue (~~~ cksum b) = root ^ 32 * remainder (polynomial (ofBytes (codeword b))) := by
  rw [cksum_eq, UInt32.not_not, residue_fold, residue_zero, mul_zero, zero_add]

/-- **The checksum is the complement of a remainder**: that of the codeword, taken as a polynomial
and shifted by 32 places, after division by the divisor. -/
theorem cksum_eq_remainder (b : Bytes) :
    ∃ r : UInt32, cksum b = ~~~ r ∧
      polynomial (ofWord r.toBitVec) = polynomial (ofBytes (codeword b)) * X ^ 32 %ₘ divisor := by
  refine ⟨~~~ cksum b, UInt32.not_not.symm, ?_⟩
  have hresidue := residue_cksum b
  rw [residue, ← remainder_X_pow, ← map_mul, mul_comm] at hresidue
  -- A register has too few bits to be divided any further.
  have hself : polynomial (ofWord (~~~ cksum b).toBitVec) %ₘ divisor =
      polynomial (ofWord (~~~ cksum b).toBitVec) := by
    rw [modByMonic_eq_self_iff divisor_monic, degree_divisor]
    exact degree_polynomial_lt _
  rw [← hself]
  exact modByMonic_eq_of_dvd_sub divisor_monic (AdjoinRoot.mk_eq_mk.mp hresidue)

/-! ## §4 Damage -/

/-- How the content of a file may be damaged: bits are flipped that lie within 32 consecutive ones,
or zeros are put in front, without the size needing more bytes. -/
inductive Damaged : Bytes → Bytes → Prop where
  | burst {b b' : Bytes} (hsize : b.size = b'.size) (hne : b ≠ b') (start : Nat)
      (hnear : ∀ i, (ofBytes b.data.toList)[i]? ≠ (ofBytes b'.data.toList)[i]? →
        start ≤ i ∧ i < start + 32) : Damaged b b'
  | zeros {b : Bytes} {k : Nat} (hsome : 1 ≤ k) (hlimit : b.size + k < 2 ^ 32)
      (hdigits : (Nat.digits 256 (b.size + k)).length = (Nat.digits 256 b.size).length) :
      Damaged b (Bytes.replicate k 0 ++ b)

/-- Codewords that differ in a window of at most 32 bits have different remainders, wherever the
window lies. -/
theorem remainder_window {p u v q : List Bool} (hlength : u.length = v.length)
    (hle : u.length ≤ 32) (hne : u ≠ v) :
    remainder (polynomial (p ++ u ++ q)) ≠ remainder (polynomial (p ++ v ++ q)) := by
  intro h
  rw [polynomial_append, polynomial_append _ q, map_add, map_add, map_mul, map_mul,
    remainder_X_pow] at h
  -- What comes after the window is the same, and the place of the window can be divided by.
  have hfront := (isUnit_root.pow q.length).mul_right_cancel (add_right_cancel h)
  rw [polynomial_append, polynomial_append _ v, map_add, map_add, hlength] at hfront
  exact hne (remainder_injective hlength hle (add_left_cancel hfront))

/-- Strings that differ near one place only are the same before and behind a window. -/
theorem exists_window {a b : List Bool} (hlength : a.length = b.length) {start n : Nat}
    (h : ∀ i, a[i]? ≠ b[i]? → start ≤ i ∧ i < start + n) :
    ∃ p u v q, a = p ++ u ++ q ∧ b = p ++ v ++ q ∧ u.length = v.length ∧ u.length ≤ n := by
  have hcut (l : List Bool) :
      l = l.take start ++ (l.drop start).take n ++ l.drop (start + n) := by
    rw [List.append_assoc, ← List.drop_drop, List.take_append_drop, List.take_append_drop]
  have hfront : a.take start = b.take start := by
    refine List.ext_getElem? fun i => ?_
    rw [List.getElem?_take, List.getElem?_take]
    split
    · rename_i hi
      by_contra hne
      exact absurd (h i hne).1 (by omega)
    · rfl
  have hback : a.drop (start + n) = b.drop (start + n) := by
    refine List.ext_getElem? fun i => ?_
    rw [List.getElem?_drop, List.getElem?_drop]
    by_contra hne
    exact absurd (h _ hne).2 (by omega)
  refine ⟨a.take start, (a.drop start).take n, (b.drop start).take n, a.drop (start + n), hcut a,
    ?_, ?_, List.length_take_le _ _⟩
  · rw [hfront, hback]
    exact hcut b
  · rw [List.length_take, List.length_take, List.length_drop, List.length_drop, hlength]

theorem remainder_of_cksum_eq {a b : Bytes} (h : cksum a = cksum b) :
    remainder (polynomial (ofBytes (codeword a))) =
      remainder (polynomial (ofBytes (codeword b))) := by
  have hresidue := residue_cksum a
  rw [h, residue_cksum b] at hresidue
  exact ((isUnit_root.pow 32).mul_left_cancel hresidue).symm

/-- Numbers that need equally many bytes, of which there are at most four, differ in their bytes. -/
theorem digits_window {m n : Nat} (hne : m ≠ n) (hm : m < 2 ^ 32)
    (hdigits : (Nat.digits 256 m).length = (Nat.digits 256 n).length) :
    let u := ofBytes ((Nat.digits 256 m).map UInt8.ofNat)
    let v := ofBytes ((Nat.digits 256 n).map UInt8.ofNat)
    u.length = v.length ∧ u.length ≤ 32 ∧ u ≠ v := by
  refine ⟨?_, ?_, fun heq => hne ?_⟩
  · rw [length_ofBytes, length_ofBytes, List.length_map, List.length_map, hdigits]
  · have hfour : (Nat.digits 256 m).length ≤ 4 :=
      (Nat.digits_length_le_iff (by decide) m).mpr hm
    rw [length_ofBytes, List.length_map]
    omega
  · -- A digit is the value of its byte.
    have hvalues (k : Nat) :
        ((Nat.digits 256 k).map UInt8.ofNat).map UInt8.toNat = Nat.digits 256 k := by
      rw [List.map_map]
      refine (List.map_congr_left fun d hd => ?_).trans (List.map_id _)
      exact UInt8.toNat_ofNat_of_lt' (Nat.digits_lt_base (by decide) hd)
    have hbytes := congrArg (List.map UInt8.toNat) (ofBytes_injective heq)
    rw [hvalues, hvalues] at hbytes
    exact Nat.digits_inj_iff.mp hbytes

/-- Damaged content has another checksum. -/
theorem cksum_ne_of_damaged {b b' : Bytes} (h : Damaged b b') : cksum b ≠ cksum b' := by
  intro heq
  have hsame := remainder_of_cksum_eq heq
  cases h with
  | burst hsize hne start hnear =>
    have hlength : (ofBytes b.data.toList).length = (ofBytes b'.data.toList).length := by
      rw [length_ofBytes, length_ofBytes, Bytes.length_toList, Bytes.length_toList, hsize]
    obtain ⟨p, u, v, q, hb, hb', huv, hle⟩ := exists_window hlength hnear
    have hdiffer : u ≠ v := by
      rintro rfl
      exact hne (Bytes.ext_toList (ofBytes_injective (hb.trans hb'.symm)))
    -- The window is followed by the rest of the content and by the size, which is the same.
    rw [codeword, codeword, ofBytes_append, ofBytes_append, hb, hb', hsize, List.append_assoc,
      List.append_assoc _ q] at hsame
    exact remainder_window huv hle hdiffer hsame
  | @zeros k hsome hlimit hdigits =>
    obtain ⟨hlength, hle, hdiffer⟩ := digits_window (by omega) hlimit hdigits
    have hsize : (Bytes.replicate k 0 ++ b).size = b.size + k := by
      rw [ByteArray.size_append, Bytes.size_replicate, Nat.add_comm]
    -- Zeros in front do not count, so that the window is the size at the end of the codeword.
    rw [codeword, codeword, hsize, ByteArray.toList_data_append, Bytes.toList_replicate,
      List.append_assoc, polynomial_zeros, ofBytes_append, ofBytes_append] at hsame
    have hwindow := remainder_window (p := ofBytes b.data.toList) (q := []) hlength hle hdiffer
    rw [List.append_nil, List.append_nil] at hwindow
    exact hwindow hsame.symm

end BackupVault.Checksum
