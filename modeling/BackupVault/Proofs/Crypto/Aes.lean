import BackupVault.Crypto.Aes

/-!
# Decryption of a block

Each step of a round is undone by the step beside it, so that decrypting undoes encrypting, under
any round keys.  The mixing of columns is linear over the field of 256 elements; that its inverse
is one comes down to bytes that cancel each other.

## Overview

- `Aes.desubstitute_substitute`, `Aes.Column.unmix_mix`: the steps
- `Aes.Schedule.decrypt_encrypt`: the block cipher
-/

set_option autoImplicit false

namespace BackupVault.Aes

/-! ## §1 Bytes -/

theorem substitutions_inverse : (List.range 256).all fun i =>
    inverseSubstitution.getD (substitution.getD i 0).toNat 0 == UInt8.ofNat i := by
  decide +kernel

theorem desubstitute_substitute (x : UInt8) : desubstitute (substitute x) = x := by
  have h := List.all_eq_true.mp substitutions_inverse x.toNat (List.mem_range.mpr x.toNat_lt)
  have hx := eq_of_beq h
  rwa [UInt8.ofNat_toNat] at hx

theorem xor_left_comm (a b c : UInt8) : a ^^^ (b ^^^ c) = b ^^^ (a ^^^ c) := by
  rw [← UInt8.xor_assoc, UInt8.xor_comm a b, UInt8.xor_assoc]

theorem xor_cancel (a b : UInt8) : a ^^^ (a ^^^ b) = b := by
  rw [← UInt8.xor_assoc, UInt8.xor_self, UInt8.zero_xor]

/-- Doubling shifts, and adds a constant if the highest bit is lost. -/
theorem double_eq (a : UInt8) :
    double a = (a <<< 1) ^^^ (if a.toBitVec.msb then 0x1b else 0) := by
  -- The comparison asks for the highest bit.
  have h : a < 0x80 ↔ a.toBitVec.msb = false := by
    rw [UInt8.lt_iff_toNat_lt, BitVec.msb_eq_false_iff_two_mul_lt]
    change a.toNat < 128 ↔ 2 * a.toNat < 256
    omega
  unfold double
  by_cases ha : a < 0x80
  · rw [if_pos ha, h.mp ha]
    simp
  · have hmsb : a.toBitVec.msb = true := by
      rw [h] at ha
      simpa using ha
    rw [if_neg ha, hmsb]
    simp

theorem double_xor (a b : UInt8) : double (a ^^^ b) = double a ^^^ double b := by
  have hshift : (a ^^^ b) <<< 1 = (a <<< 1) ^^^ (b <<< 1) := by
    apply UInt8.eq_of_toBitVec_eq
    simp [BitVec.shiftLeft_xor_distrib]
  rw [double_eq, double_eq, double_eq, hshift, UInt8.toBitVec_xor, BitVec.msb_xor]
  -- The constant is added as often as a highest bit is lost; two times cancel.
  cases a.toBitVec.msb <;> cases b.toBitVec.msb <;>
    simp [UInt8.xor_assoc, UInt8.xor_comm, xor_left_comm]

/-! ## §2 Columns and blocks -/

namespace Column

/-- One byte of a mixed column. -/
def row (a b c d : UInt8) : UInt8 := double a ^^^ double b ^^^ b ^^^ c ^^^ d

theorem mix_eq (s : Column) : s.mix =
    ⟨row s.a s.b s.c s.d, row s.b s.c s.d s.a, row s.c s.d s.a s.b, row s.d s.a s.b s.c⟩ := rfl

/-- A row differs from the sum of the column only in its first two bytes. -/
theorem row_eq (a b c d : UInt8) :
    row a b c d = (a ^^^ b ^^^ c ^^^ d) ^^^ (a ^^^ double (a ^^^ b)) := by
  simp only [row, double_xor, UInt8.xor_assoc, UInt8.xor_comm, xor_left_comm, xor_cancel]

theorem sum_rows (a b c d : UInt8) :
    row a b c d ^^^ row b c d a ^^^ row c d a b ^^^ row d a b c = a ^^^ b ^^^ c ^^^ d := by
  simp only [row, UInt8.xor_assoc, UInt8.xor_comm, xor_left_comm, xor_cancel, UInt8.xor_self,
    UInt8.xor_zero]

theorem row_xor_next (a b c d : UInt8) :
    row a b c d ^^^ row b c d a = (a ^^^ b) ^^^ double (a ^^^ c) := by
  simp only [row, double_xor, UInt8.xor_assoc, UInt8.xor_comm, xor_left_comm, xor_cancel]

theorem row_xor_opposite (a b c d : UInt8) :
    row a b c d ^^^ row c d a b = (a ^^^ c) ^^^ double (a ^^^ b ^^^ c ^^^ d) := by
  simp only [row, double_xor, UInt8.xor_assoc, UInt8.xor_comm, xor_left_comm, xor_cancel]

theorem unmix_row (a b c d : UInt8) (u v : UInt8)
    (hu : u = double (double (row a b c d ^^^ row c d a b)))
    (hv : v = double (double (row b c d a ^^^ row d a b c))) :
    row (row a b c d ^^^ u) (row b c d a ^^^ v) (row c d a b ^^^ u) (row d a b c ^^^ v) = a := by
  -- With `e` the sum of the column, everything is linear in `a`, `b`, `c`, `d` and their doubles.
  obtain ⟨e, he⟩ : ∃ e, a ^^^ b ^^^ c ^^^ d = e := ⟨_, rfl⟩
  -- The corrections `u` and `v` occur twice in the sum,
  have hsum : (row a b c d ^^^ u) ^^^ (row b c d a ^^^ v) ^^^ (row c d a b ^^^ u) ^^^
      (row d a b c ^^^ v) = e := by
    rw [← he, ← sum_rows a b c d]
    simp only [UInt8.xor_assoc, UInt8.xor_comm, xor_left_comm, xor_cancel]
  -- while together they are the sum, doubled twice.
  have huv : u ^^^ v = double (double e) := by
    rw [hu, hv, ← double_xor, ← double_xor, ← he, ← sum_rows a b c d]
    simp only [UInt8.xor_assoc, xor_left_comm]
  have hnext : (row a b c d ^^^ u) ^^^ (row b c d a ^^^ v) =
      ((a ^^^ b) ^^^ double (a ^^^ c)) ^^^ double (double e) := by
    rw [← huv, ← row_xor_next a b c d]
    simp only [UInt8.xor_assoc, UInt8.xor_comm, xor_left_comm]
  -- So the doubles in a mixed byte are the ones that mixing again adds.
  have hfirst : row a b c d ^^^ u =
      e ^^^ (a ^^^ double ((a ^^^ b) ^^^ double (a ^^^ c) ^^^ double (double e))) := by
    rw [hu, row_xor_opposite, row_eq, he]
    simp only [double_xor]
    simp only [UInt8.xor_assoc, xor_left_comm]
  rw [row_eq, hsum, hnext, hfirst, UInt8.xor_assoc e, UInt8.xor_assoc a, UInt8.xor_self,
    UInt8.xor_zero, xor_cancel]

theorem unmix_mix (s : Column) : s.mix.unmix = s := by
  obtain ⟨a, b, c, d⟩ := s
  rw [unmix, mix_eq, mix_eq, mk.injEq]
  refine ⟨unmix_row a b c d _ _ rfl rfl, unmix_row b c d a _ _ rfl ?_,
    unmix_row c d a b _ _ ?_ ?_, unmix_row d a b c _ _ ?_ rfl⟩ <;> rw [UInt8.xor_comm]

end Column

theorem Column.map_map_of_inverse {f g : UInt8 → UInt8} (h : ∀ x, g (f x) = x) (s : Column) :
    (s.map f).map g = s := by
  simp only [map, h]

theorem Column.add_add (s t : Column) : (s.add t).add t = s := by
  simp only [add, UInt8.xor_assoc, UInt8.xor_self, UInt8.xor_zero]

namespace Block

theorem add_add (s t : Block) : (s.add t).add t = s := by
  simp only [add, Column.add_add]

theorem map_map_of_inverse {f g : Column → Column} (h : ∀ x, g (f x) = x) (s : Block) :
    (s.map f).map g = s := by
  simp only [map, h]

theorem unshiftRows_shiftRows (s : Block) : s.shiftRows.unshiftRows = s := rfl

end Block

/-! ## §3 Rounds -/

theorem unround_round (s key : Block) : unround (round s key) key = s := by
  -- Each layer is taken off again, the last one first.
  rw [unround, round, Block.add_add, Block.map_map_of_inverse Column.unmix_mix,
    Block.unshiftRows_shiftRows,
    Block.map_map_of_inverse (Column.map_map_of_inverse desubstitute_substitute)]

theorem unlastRound_lastRound (s key : Block) : unlastRound (lastRound s key) key = s := by
  rw [unlastRound, lastRound, Block.add_add, Block.unshiftRows_shiftRows,
    Block.map_map_of_inverse (Column.map_map_of_inverse desubstitute_substitute)]

theorem unrounds_rounds (keys : List Block) (s : Block) :
    keys.foldr (fun key s => unround s key) (keys.foldl round s) = s := by
  induction keys generalizing s with
  | nil => rfl
  | cons key keys ih => rw [List.foldl_cons, List.foldr_cons, ih, unround_round]

theorem Schedule.decrypt_encrypt (k : Schedule) (s : Block) : k.decrypt (k.encrypt s) = s := by
  rw [decrypt, encrypt, unlastRound_lastRound, unrounds_rounds, Block.add_add]

end BackupVault.Aes
