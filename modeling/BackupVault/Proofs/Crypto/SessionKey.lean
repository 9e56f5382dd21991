import BackupVault.Crypto.SessionKey
import BackupVault.Proofs.Bytes
import BackupVault.Proofs.Crypto.Aes

/-!
# Encryption under a session key

Decrypting undoes encrypting, for byte strings of every length: the padding comes off again, the
blocks of a string of whole blocks are its bytes, and the chain of encryptions unwinds.

## Overview

- `Padding.remove_eq_some_iff`, `Padding.remove_add`: padding
- `Chain.blocks_bytes`, `Chain.bytes_blocks`, `Chain.decrypt_encrypt`: chained blocks
- `SessionKey.decrypt_encrypt`, `SessionKey.size_encrypt`: the cipher
- `SessionKey.size_of_decrypt`: decryption never makes a string longer
-/

set_option autoImplicit false

namespace BackupVault

/-! ## §1 Padding -/

namespace Padding

theorem missing_bounds (size : Nat) : 1 ≤ missing size ∧ missing size ≤ 16 := by
  unfold missing
  omega

theorem size_add (b : Bytes) : (add b).size = 16 * (b.size / 16 + 1) := by
  rw [add, ByteArray.size_append, Bytes.size_replicate, missing]
  omega

theorem toNat_ofNat {n : Nat} (hle : n ≤ 16) : (UInt8.ofNat n).toNat = n :=
  UInt8.toNat_ofNat_of_lt' (Nat.lt_of_le_of_lt hle (by decide))

/-- What padding is removed from is what is left, and after it `n` bytes of value `n`. -/
theorem remove_eq_some_iff {b plain : Bytes} : remove? b = some plain ↔
    ∃ n, 1 ≤ n ∧ n ≤ 16 ∧
      b.data.toList = plain.data.toList ++ List.replicate n (UInt8.ofNat n) := by
  constructor
  · intro h
    unfold remove? at h
    simp only at h
    split at h
    · rename_i hpadded
      obtain ⟨hpos, hle, hroom, hall⟩ := hpadded
      cases h
      generalize (Bytes.at0 b (b.size - 1)).toNat = n at *
      -- The bytes behind the cut are as many as they say, and all of them say the same.
      have hback : b.data.toList.drop (b.size - n) = List.replicate n (UInt8.ofNat n) := by
        refine List.eq_replicate_iff.mpr ⟨?_, fun x hx => ?_⟩
        · rw [List.length_drop, Bytes.length_toList]
          omega
        · have hx := eq_of_beq (Bytes.allFrom_eq_true_iff.mp hall x hx)
          rw [← hx, UInt8.ofNat_toNat]
      refine ⟨n, hpos, hle, ?_⟩
      rw [Bytes.toList_extract, List.drop_zero, ← hback, List.take_append_drop]
    · cases h
  · rintro ⟨n, hpos, hle, hlist⟩
    have hsize : b.size = plain.size + n := by
      rw [← Bytes.length_toList, hlist, List.length_append, Bytes.length_toList,
        List.length_replicate]
    -- The last byte tells how many were added,
    have hlast : Bytes.at0 b (b.size - 1) = UInt8.ofNat n := by
      rw [Bytes.at0_eq, hlist, hsize, List.getD_eq_getElem?_getD,
        List.getElem?_append_right (by rw [Bytes.length_toList]; omega), Bytes.length_toList,
        List.getElem?_replicate, if_pos (by omega), Option.getD_some]
    -- which is where the string is cut,
    have hcut : b.size - n = plain.size := by omega
    -- and all of them say the same.
    have hall : Bytes.allFrom b plain.size (fun x => x.toNat == n) = true := by
      apply Bytes.allFrom_eq_true_iff.mpr
      intro x hx
      rw [hlist, ← Bytes.length_toList, List.drop_left, List.mem_replicate] at hx
      rw [hx.2, toNat_ofNat hle]
      exact beq_self_eq_true _
    have hfront : b.extract 0 plain.size = plain := by
      apply Bytes.ext_toList
      rw [Bytes.toList_extract, hlist, ← Bytes.length_toList, List.take_left, List.drop_zero]
    simp only [remove?, hlast, toNat_ofNat hle, hcut, hall, hfront]
    rw [if_pos ⟨hpos, hle, by omega, trivial⟩]

theorem remove_add (b : Bytes) : remove? (add b) = some b := by
  obtain ⟨hpos, hle⟩ := missing_bounds b.size
  refine remove_eq_some_iff.mpr ⟨missing b.size, hpos, hle, ?_⟩
  rw [add, ByteArray.toList_data_append, Bytes.toList_replicate]

theorem size_of_remove {b plain : Bytes} (h : remove? b = some plain) : plain.size ≤ b.size := by
  obtain ⟨n, -, -, hlist⟩ := remove_eq_some_iff.mp h
  have hsize := congrArg List.length hlist
  rw [List.length_append, Bytes.length_toList, Bytes.length_toList] at hsize
  omega

end Padding

/-! ## §2 Blocks -/

namespace Aes.Block

def toList (s : Block) : List UInt8 :=
  [s.w.a, s.w.b, s.w.c, s.w.d, s.x.a, s.x.b, s.x.c, s.x.d,
   s.y.a, s.y.b, s.y.c, s.y.d, s.z.a, s.z.b, s.z.c, s.z.d]

theorem toList_push (b : Bytes) (s : Block) :
    (push b s).data.toList = b.data.toList ++ s.toList := by
  simp [push, pushColumn, toList]

/-- The block whose bytes begin at an index of a list. -/
def ofListAt (l : List UInt8) (i : Nat) : Block :=
  ⟨⟨l.getD i 0, l.getD (i + 1) 0, l.getD (i + 2) 0, l.getD (i + 3) 0⟩,
   ⟨l.getD (i + 4) 0, l.getD (i + 5) 0, l.getD (i + 6) 0, l.getD (i + 7) 0⟩,
   ⟨l.getD (i + 8) 0, l.getD (i + 9) 0, l.getD (i + 10) 0, l.getD (i + 11) 0⟩,
   ⟨l.getD (i + 12) 0, l.getD (i + 13) 0, l.getD (i + 14) 0, l.getD (i + 15) 0⟩⟩

theorem ofBytesAt_eq (b : Bytes) (i : Nat) : ofBytesAt b i = ofListAt b.data.toList i := by
  simp only [ofBytesAt, columnAt, Bytes.at0_eq, ofListAt]

theorem ofListAt_append (s : Block) (l : List UInt8) : ofListAt (s.toList ++ l) 0 = s := rfl

theorem ofListAt_append_succ (s : Block) (l : List UInt8) (i : Nat) :
    ofListAt (s.toList ++ l) (i + 16) = ofListAt l i := by
  -- An index past the block counts from the beginning of the list behind it.
  have h (j : Nat) : (s.toList ++ l).getD (i + 16 + j) 0 = l.getD (i + j) 0 := by
    have hlen : s.toList.length = 16 := rfl
    rw [List.getD_eq_getElem?_getD, List.getElem?_append_right (by omega), hlen,
      List.getD_eq_getElem?_getD, show i + 16 + j - 16 = i + j by omega]
  simp only [ofListAt, h]
  have h0 := h 0
  simp only [Nat.add_zero] at h0
  rw [h0]

theorem exists_toList (l : List UInt8) (h : 16 ≤ l.length) :
    ∃ (s : Block) (rest : List UInt8), l = s.toList ++ rest := by
  match l, h with
  | a :: b :: c :: d :: e :: f :: g :: i :: j :: k :: m :: n :: o :: p :: q :: r :: rest, _ =>
    exact ⟨⟨⟨a, b, c, d⟩, ⟨e, f, g, i⟩, ⟨j, k, m, n⟩, ⟨o, p, q, r⟩⟩, rest, rfl⟩

end Aes.Block

namespace Chain

open Aes

theorem toList_foldl_push (b : Bytes) (bs : List Block) :
    (bs.foldl Block.push b).data.toList = b.data.toList ++ bs.flatMap Block.toList := by
  induction bs generalizing b with
  | nil => rw [List.foldl_nil, List.flatMap_nil, List.append_nil]
  | cons s bs ih =>
    rw [List.foldl_cons, ih, Block.toList_push, List.flatMap_cons, List.append_assoc]

theorem toList_bytes (bs : List Block) : (bytes bs).data.toList = bs.flatMap Block.toList := by
  rw [bytes, toList_foldl_push]
  rfl

theorem length_flatMap (bs : List Block) : (bs.flatMap Block.toList).length = 16 * bs.length := by
  induction bs with
  | nil => rfl
  | cons s bs ih =>
    have hlen : s.toList.length = 16 := rfl
    rw [List.flatMap_cons, List.length_append, ih, hlen, List.length_cons]
    omega

@[simp]
theorem size_bytes (bs : List Block) : (bytes bs).size = 16 * bs.length := by
  rw [← Bytes.length_toList, toList_bytes, length_flatMap]

@[simp]
theorem length_blocks (b : Bytes) : (blocks b).length = b.size / 16 := by
  rw [blocks, List.length_map, List.length_range]

theorem listBlocks (bs : List Block) :
    (List.range bs.length).map (fun i => Block.ofListAt (bs.flatMap Block.toList) (16 * i)) =
      bs := by
  induction bs with
  | nil => rfl
  | cons s bs ih =>
    rw [List.length_cons, List.range_succ_eq_map, List.map_cons, List.map_map, List.flatMap_cons,
      Nat.mul_zero, Block.ofListAt_append]
    -- The first block is read at zero, and the others are those of the rest, sixteen bytes further
    -- on.
    refine congrArg (s :: ·) (Eq.trans (List.map_congr_left fun i _ => ?_) ih)
    exact Block.ofListAt_append_succ s _ (16 * i)

theorem blocks_bytes (bs : List Block) : blocks (bytes bs) = bs := by
  have hcount : (bytes bs).size / 16 = bs.length := by rw [size_bytes]; omega
  simp only [blocks, hcount, Block.ofBytesAt_eq, toList_bytes]
  exact listBlocks bs

/-- A string of whole blocks consists of the bytes of some blocks. -/
theorem exists_bytes (n : Nat) (l : List UInt8) (h : l.length = 16 * n) :
    ∃ bs : List Block, l = bs.flatMap Block.toList := by
  induction n generalizing l with
  | zero => exact ⟨[], List.length_eq_zero_iff.mp h⟩
  | succ n ih =>
    obtain ⟨s, rest, rfl⟩ := Block.exists_toList l (by omega)
    have hlen : s.toList.length = 16 := rfl
    rw [List.length_append, hlen] at h
    obtain ⟨bs, rfl⟩ := ih rest (by omega)
    exact ⟨s :: bs, rfl⟩

theorem bytes_blocks {b : Bytes} {n : Nat} (h : b.size = 16 * n) : bytes (blocks b) = b := by
  obtain ⟨bs, hbs⟩ := exists_bytes n b.data.toList h
  have hb : b = bytes bs := Bytes.ext_toList (hbs.trans (toList_bytes bs).symm)
  rw [hb, blocks_bytes]

/-! ## §3 Chains -/

@[simp]
theorem length_encrypt (k : Schedule) (chain : Block) (bs : List Block) :
    (encrypt k chain bs).length = bs.length := by
  induction bs generalizing chain with
  | nil => rfl
  | cons b bs ih => rw [encrypt, List.length_cons, ih, List.length_cons]

@[simp]
theorem length_decrypt (k : Schedule) (chain : Block) (bs : List Block) :
    (decrypt k chain bs).length = bs.length := by
  induction bs generalizing chain with
  | nil => rfl
  | cons b bs ih => rw [decrypt, List.length_cons, ih, List.length_cons]

/-- The chain of encryptions unwinds, block by block. -/
theorem decrypt_encrypt (k : Schedule) (chain : Block) (bs : List Block) :
    decrypt k chain (encrypt k chain bs) = bs := by
  induction bs generalizing chain with
  | nil => rfl
  -- Both directions add the same cipher block, which is the chain of the next block.
  | cons b bs ih => rw [encrypt, decrypt, Schedule.decrypt_encrypt, Block.add_add, ih]

end Chain

/-! ## §4 The cipher -/

namespace SessionKey

theorem size_encrypt (k : SessionKey) (plain : Bytes) :
    (k.encrypt plain).size = 16 * (plain.size / 16 + 1) := by
  rw [encrypt, Chain.size_bytes, Chain.length_encrypt, Chain.length_blocks, Padding.size_add]
  omega

/-- Decrypting undoes encrypting. -/
theorem decrypt_encrypt (k : SessionKey) (plain : Bytes) :
    k.decrypt (k.encrypt plain) = .ok plain := by
  have hsize := size_encrypt k plain
  have hplain : Chain.bytes (Chain.decrypt k.schedule Aes.Block.zero
      (Chain.blocks (k.encrypt plain))) = Padding.add plain := by
    rw [encrypt, Chain.blocks_bytes, Chain.decrypt_encrypt,
      Chain.bytes_blocks (Padding.size_add plain)]
  unfold decrypt
  rw [if_neg (by omega), hplain, Padding.remove_add]

/-- What is no whole number of blocks is refused under every key. -/
theorem decrypt_of_size (k : SessionKey) {cipher : Bytes} (h : cipher.size % 16 ≠ 0) :
    ∃ e, k.decrypt cipher = .error e := by
  unfold decrypt
  exact ⟨_, if_pos (.inr h)⟩

/-- Decryption never makes a string longer. -/
theorem size_of_decrypt {k : SessionKey} {cipher plain : Bytes}
    (h : k.decrypt cipher = .ok plain) : plain.size ≤ cipher.size := by
  unfold decrypt at h
  simp only at h
  split at h
  · cases h
  · split at h
    · rename_i hplain
      cases h
      have hle := Padding.size_of_remove hplain
      rw [Chain.size_bytes, Chain.length_decrypt, Chain.length_blocks] at hle
      omega
    · cases h

end SessionKey

end BackupVault
