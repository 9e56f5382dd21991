import BackupVault.Bytes
import Mathlib.Algebra.Group.Nat.Defs

/-!
# Byte strings as lists

The packed form of a byte string is for running; what is proved about byte strings is proved
about the list of their bytes, or through the laws of `++` and `extract`.

## Overview

- `Bytes.ext_toList`: byte strings with the same bytes are the same
- `Bytes.toNatLE_ofNatLE`: a number survives being written in enough bytes
- `Bytes.byteLength_le`: how many bytes a number needs
- `Bytes.toNatBE_ofNatBE`, `Bytes.ofNatBE_toNatBE`: numbers and bytes, most significant first
- `Bytes.fit_eq_self`: bytes of the right size already fit
- `Bytes.append_eq_append`: two ways to cut one string
-/

set_option autoImplicit false

namespace BackupVault.Bytes

/-! ## §1 The list of bytes -/

theorem ext_toList {a b : Bytes} (h : a.data.toList = b.data.toList) : a = b :=
  ByteArray.ext (Array.ext' h)

/-- The comparison of packed forms is that of the byte strings. -/
instance : LawfulBEq Bytes where
  eq_of_beq h := ByteArray.ext (eq_of_beq h)
  rfl {a} := beq_self_eq_true a.data

@[simp]
theorem toList_ofList (xs : List UInt8) : (ofList xs).data.toList = xs := rfl

theorem ofList_toList (b : Bytes) : ofList b.data.toList = b := rfl

@[simp]
theorem length_toList (b : Bytes) : b.data.toList.length = b.size := rfl

theorem toList_push (b : Bytes) (x : UInt8) : (b.push x).data.toList = b.data.toList ++ [x] := by
  rw [ByteArray.data_push, Array.toList_push]

theorem push_eq_append (b : Bytes) (x : UInt8) : b.push x = b ++ ofList [x] := by
  apply ext_toList
  rw [toList_push, ByteArray.toList_data_append, toList_ofList]

theorem toList_extract (b : Bytes) (i j : Nat) :
    (b.extract i j).data.toList = (b.data.toList.take j).drop i := by
  rw [ByteArray.data_extract, Array.toList_extract, List.extract_eq_take_drop, List.drop_take]

/-! ## §2 Cutting -/

theorem extract_append_extract (b : Bytes) {n : Nat} (h : n ≤ b.size) :
    b.extract 0 n ++ b.extract n b.size = b := by
  rw [← ByteArray.extract_eq_extract_append_extract n (Nat.zero_le n) h,
    ByteArray.extract_zero_size]

/-- Two ways to cut one string: the longer beginning is the shorter one and a bit more. -/
theorem append_eq_append {a b c d : Bytes} (h : a ++ b = c ++ d) (hs : a.size ≤ c.size) :
    ∃ m, c = a ++ m ∧ b = m ++ d := by
  have hl : a.data.toList ++ b.data.toList = c.data.toList ++ d.data.toList := by
    rw [← ByteArray.toList_data_append, ← ByteArray.toList_data_append, h]
  obtain ⟨m, hc, hb⟩ | ⟨m, ha, hd⟩ := List.append_eq_append_iff.mp hl
  · refine ⟨ofList m, ext_toList ?_, ext_toList ?_⟩
    · rw [ByteArray.toList_data_append, toList_ofList, hc]
    · rw [ByteArray.toList_data_append, toList_ofList, hb]
  · -- The other order of lengths leaves no bytes in between.
    have hm : m = [] := by
      have := congrArg List.length ha
      rw [List.length_append, length_toList, length_toList] at this
      exact List.length_eq_zero_iff.mp (by omega)
    subst hm
    refine ⟨ByteArray.empty, ext_toList ?_, ext_toList ?_⟩
    · rw [ByteArray.append_empty, ha, List.append_nil]
    · rw [ByteArray.empty_append, hd, List.nil_append]

/-! ## §3 Repetition and single bytes -/

theorem toList_replicate (n : Nat) (x : UInt8) :
    (replicate n x).data.toList = List.replicate n x := by
  fun_induction replicate n x with
  | case1 => rfl
  | case2 n hn half heven ih =>
    -- An even number of copies is two halves,
    have hhalf : n = n / 2 + n / 2 := by omega
    rw [ByteArray.toList_data_append, ih, List.replicate_append_replicate, ← hhalf]
  | case3 n hn half hodd ih =>
    -- and an odd one has a byte more.
    have hhalf : n = n / 2 + n / 2 + 1 := by omega
    rw [toList_push, ByteArray.toList_data_append, ih, List.replicate_append_replicate,
      ← List.replicate_succ', ← hhalf]

@[simp]
theorem size_replicate (n : Nat) (x : UInt8) : (replicate n x).size = n := by
  rw [← length_toList, toList_replicate, List.length_replicate]

theorem at0_eq (b : Bytes) (i : Nat) : b.at0 i = b.data.toList.getD i 0 := by
  by_cases h : i < b.size
  · rw [at0, dif_pos h, List.getD_eq_getElem?_getD,
      List.getElem?_eq_getElem (show i < b.data.toList.length from h)]
    rfl
  · rw [at0, dif_neg h, List.getD_eq_getElem?_getD,
      List.getElem?_eq_none (Nat.le_of_not_lt h)]
    rfl

theorem allFrom_eq_true_iff {b : Bytes} {i : Nat} {p : UInt8 → Bool} :
    allFrom b i p = true ↔ ∀ x ∈ b.data.toList.drop i, p x = true := by
  fun_induction allFrom b i p with
  | case1 i hi ih =>
    have hi' : i < b.data.toList.length := hi
    -- Inside the bounds the total access is the partial one.
    have hbyte : b.at0 i = b.data.toList[i] := by
      rw [at0_eq, List.getD_eq_getElem?_getD, List.getElem?_eq_getElem hi', Option.getD_some]
    rw [List.drop_eq_getElem_cons hi', List.forall_mem_cons, Bool.and_eq_true, ih, hbyte]
  | case2 i hi =>
    rw [List.drop_eq_nil_of_le (Nat.le_of_not_lt hi)]
    exact ⟨fun _ _ h => absurd h List.not_mem_nil, fun _ => rfl⟩

/-! ## §4 Numbers -/

@[simp]
theorem length_listOfNatLE (width n : Nat) : (listOfNatLE width n).length = width := by
  induction width generalizing n with
  | zero => rfl
  | succ width ih => rw [listOfNatLE, List.length_cons, ih]

@[simp]
theorem size_ofNatLE (width n : Nat) : (ofNatLE width n).size = width := by
  rw [ofNatLE, size_ofList, length_listOfNatLE]

theorem natOfListLE_listOfNatLE (width n : Nat) :
    natOfListLE (listOfNatLE width n) = n % 256 ^ width := by
  induction width generalizing n with
  | zero => rw [listOfNatLE, natOfListLE, Nat.pow_zero, Nat.mod_one]
  | succ width ih =>
    have hb : (UInt8.ofNat n).toNat = n % 256 := UInt8.toNat_ofNat'
    rw [listOfNatLE, natOfListLE, ih, hb, Nat.pow_succ' (m := 256), Nat.mod_mul]

/-- A number survives being written in enough bytes. -/
theorem toNatLE_ofNatLE {width n : Nat} (h : n < 256 ^ width) :
    (ofNatLE width n).toNatLE = n := by
  rw [toNatLE, ofNatLE, toList_ofList, natOfListLE_listOfNatLE, Nat.mod_eq_of_lt h]

/-- A number below a power of 256 needs no more bytes than the exponent says. -/
theorem byteLength_le {n k : Nat} (h : n < 256 ^ k) : byteLength n ≤ k := by
  unfold byteLength
  split
  · exact Nat.zero_le k
  · rename_i hn
    -- A power of 256 is one of two, and so the logarithm can be bounded.
    have hpow : (256 : Nat) ^ k = 2 ^ (8 * k) := by rw [Nat.pow_mul]
    have hlog := (Nat.log2_lt hn).mpr (hpow ▸ h)
    omega

theorem pow_le_of_byteLength {n : Nat} (hn : n ≠ 0) : 256 ^ (byteLength n - 1) ≤ n := by
  rw [byteLength, if_neg hn, Nat.add_sub_cancel, show 256 = 2 ^ 8 from rfl, ← Nat.pow_mul]
  exact Nat.le_trans (Nat.pow_le_pow_right (by decide) (Nat.mul_div_le _ 8)) (Nat.log2_self_le hn)

theorem lt_pow_byteLength (n : Nat) : n < 256 ^ byteLength n := by
  unfold byteLength
  split
  · rename_i hn
    rw [hn]
    decide
  · rename_i hn
    rw [show 256 = 2 ^ 8 from rfl, ← Nat.pow_mul]
    exact (Nat.log2_lt hn).mp (by omega)

theorem byteLength_mono {m n : Nat} (h : m ≤ n) : byteLength m ≤ byteLength n :=
  byteLength_le (Nat.lt_of_le_of_lt h (lt_pow_byteLength n))

/-! ## §5 Numbers, most significant byte first -/

theorem natOfListLE_lt (xs : List UInt8) : natOfListLE xs < 256 ^ xs.length := by
  induction xs with
  | nil => exact Nat.one_pos
  | cons x xs ih =>
    have hx := x.toNat_lt
    rw [natOfListLE, List.length_cons, Nat.pow_succ]
    omega

theorem listOfNatLE_natOfListLE (xs : List UInt8) :
    listOfNatLE xs.length (natOfListLE xs) = xs := by
  induction xs with
  | nil => rfl
  | cons x xs ih =>
    have hx := x.toNat_lt
    have hlow : UInt8.ofNat (natOfListLE (x :: xs)) = x := by
      apply UInt8.toNat_inj.mp
      rw [UInt8.toNat_ofNat', natOfListLE]
      omega
    have hhigh : natOfListLE (x :: xs) / 256 = natOfListLE xs := by
      rw [natOfListLE]
      omega
    rw [List.length_cons, listOfNatLE, hlow, hhigh, ih]

theorem toNatBE_eq (b : Bytes) : b.toNatBE = natOfListLE b.data.toList.reverse := by
  rw [toNatBE, ← List.foldr_reverse]
  -- The fold from the left runs through the reversed list from the right.
  induction b.data.toList.reverse with
  | nil => rfl
  | cons x xs ih => rw [List.foldr_cons, ih, natOfListLE, Nat.add_comm]

theorem toNatBE_lt (b : Bytes) : b.toNatBE < 256 ^ b.size := by
  rw [toNatBE_eq, ← length_toList, ← List.length_reverse]
  exact natOfListLE_lt _

theorem toNatBE_zero_append (b : Bytes) : (ofList [0] ++ b).toNatBE = b.toNatBE := by
  rw [toNatBE, ByteArray.toList_data_append, toList_ofList, List.singleton_append, List.foldl_cons]
  rfl

@[simp]
theorem size_ofNatBE (width n : Nat) : (ofNatBE width n).size = width := by
  rw [ofNatBE, size_ofList, List.length_reverse, length_listOfNatLE]

theorem toNatBE_ofNatBE {width n : Nat} (h : n < 256 ^ width) : (ofNatBE width n).toNatBE = n := by
  rw [toNatBE_eq, ofNatBE, toList_ofList, List.reverse_reverse, natOfListLE_listOfNatLE,
    Nat.mod_eq_of_lt h]

theorem ofNatBE_toNatBE (b : Bytes) : ofNatBE b.size b.toNatBE = b := by
  -- The width has to be that of the reversed list for the lists to cancel.
  have hlength : b.size = b.data.toList.reverse.length := by
    rw [List.length_reverse, length_toList]
  apply ext_toList
  rw [ofNatBE, toList_ofList, toNatBE_eq, hlength, listOfNatLE_natOfListLE, List.reverse_reverse]

/-! ## §6 Fitting -/

theorem fit_eq_self {size : Nat} {b : Bytes} (h : b.size = size) : fit size b = b := by
  apply ext_toList
  have hl : b.data.toList.length = size := by rw [length_toList, h]
  rw [fit, toList_ofList, List.take_append_of_le_length (Nat.le_of_eq hl.symm),
    List.take_of_length_le (Nat.le_of_eq hl)]

end BackupVault.Bytes
