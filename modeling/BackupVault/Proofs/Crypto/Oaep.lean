import BackupVault.Crypto.Oaep
import BackupVault.Proofs.Bytes

/-!
# Padding comes off again

Masks are added bit by bit, so that adding one twice takes it off.  The mask of the seed depends
on the masked data alone, and comes off first; the mask of the data depends on the seed, and comes
off next.

## Overview

- `Sha1.size_hash`, `Oaep.size_mask`: sizes
- `Oaep.add_add`: masks come off
- `Oaep.unpad_pad`: a padded message is read back
-/

set_option autoImplicit false

namespace BackupVault

/-! ## §1 Masks -/

@[simp]
theorem Sha1.size_hash (message : Bytes) : (hash message).size = size := by
  simp only [hash, Digest.bytes, ByteArray.size_append, Bytes.size_ofNatBE]
  rfl

namespace Oaep

@[simp]
theorem size_mask (seed : Bytes) (size : Nat) : (mask seed size).size = size := by
  -- Each number of the counter adds one hash, by induction on the numbers.
  have hfold (l : List Nat) (b : Bytes) :
      (l.foldl (fun b i => b ++ Sha1.hash (seed ++ Bytes.ofNatBE 4 i)) b).size =
        b.size + Sha1.size * l.length := by
    induction l generalizing b with
    | nil => rfl
    | cons i l ih =>
      rw [List.foldl_cons, ih, ByteArray.size_append, Sha1.size_hash, List.length_cons,
        Nat.mul_succ]
      omega
  -- There are enough hashes to cut the mask from.
  have hsha : Sha1.size = 20 := rfl
  rw [mask, ByteArray.size_extract, hfold, List.length_range, ByteArray.size_empty, hsha]
  omega

@[simp]
theorem size_add (a b : Bytes) : (add a b).size = min a.size b.size := by
  rw [add, Bytes.size_ofList, List.length_zipWith, Bytes.length_toList, Bytes.length_toList]

theorem zipWith_xor {xs ys : List UInt8} (h : xs.length ≤ ys.length) :
    List.zipWith (· ^^^ ·) (List.zipWith (· ^^^ ·) xs ys) ys = xs := by
  induction xs generalizing ys with
  | nil => rfl
  | cons x xs ih =>
    cases ys with
    | nil => exact absurd h (Nat.not_succ_le_zero _)
    | cons y ys =>
      rw [List.zipWith_cons_cons, List.zipWith_cons_cons, ih (Nat.le_of_succ_le_succ h),
        UInt8.xor_assoc, UInt8.xor_self, UInt8.xor_zero]

theorem add_add {a m : Bytes} (h : a.size ≤ m.size) : add (add a m) m = a := by
  apply Bytes.ext_toList
  rw [add, Bytes.toList_ofList, add, Bytes.toList_ofList]
  exact zipWith_xor h

/-! ## §2 Blocks -/

theorem afterOne_zeros (n : Nat) (xs : List UInt8) :
    afterOne? (List.replicate n 0 ++ 1 :: xs) = some xs := by
  induction n with
  | zero => rfl
  | succ n ih =>
    rw [List.replicate_succ, List.cons_append, afterOne?, if_pos rfl, ih]

/-- The data of a block: what is masked. -/
def data (size : Nat) (message : Bytes) : Bytes :=
  labelHash ++ (Bytes.replicate (size - overhead - message.size) 0 ++ (Bytes.ofList [1] ++ message))

theorem size_data {size : Nat} {message : Bytes} (h : message.size + overhead ≤ size) :
    (data size message).size = size - 21 := by
  have hoverhead : overhead = 42 := rfl
  have hsha : Sha1.size = 20 := rfl
  rw [data, ByteArray.size_append, ByteArray.size_append, ByteArray.size_append, labelHash,
    Sha1.size_hash, Bytes.size_replicate, Bytes.size_ofList, List.length_singleton]
  omega

theorem message_of_data (size : Nat) (message : Bytes) :
    (data size message).extract 0 Sha1.size = labelHash ∧
      (afterOne? ((data size message).extract Sha1.size
        (data size message).size).data.toList).map Bytes.ofList = some message := by
  have hlabel : labelHash.size = Sha1.size := Sha1.size_hash _
  constructor
  · rw [data, ← hlabel]
    exact ByteArray.extract_append_eq_left rfl
  -- After the hash of the label come zeros, a one and the message.
  · have hrest : (data size message).extract Sha1.size (data size message).size =
        Bytes.replicate (size - overhead - message.size) 0 ++ (Bytes.ofList [1] ++ message) := by
      rw [data]
      exact ByteArray.extract_append_eq_right hlabel.symm ByteArray.size_append
    rw [hrest, ByteArray.toList_data_append, Bytes.toList_replicate, ByteArray.toList_data_append,
      Bytes.toList_ofList, List.singleton_append, afterOne_zeros, Option.map_some,
      Bytes.ofList_toList]

theorem pad_eq {size : Nat} {seed message block : Bytes} (h : pad? size seed message = some block) :
    message.size + overhead ≤ size ∧
      block = Bytes.ofList [0] ++
        (add seed (mask (add (data size message) (mask seed (data size message).size)) Sha1.size) ++
          add (data size message) (mask seed (data size message).size)) := by
  unfold pad? at h
  split at h
  · rename_i hsize
    injection h with h
    refine ⟨hsize, ?_⟩
    rw [← h, data]
    simp only [ByteArray.append_assoc]
  · cases h

/-- **Padding comes off**: a padded message is read back from its block. -/
theorem unpad_pad {size : Nat} {seed message block : Bytes} (hseed : seed.size = Sha1.size)
    (h : pad? size seed message = some block) : unpad? block = some message ∧ block.size = size ∧
      ∃ rest, block = Bytes.ofList [0] ++ rest := by
  obtain ⟨hsize, hblock⟩ := pad_eq h
  have hdata := size_data hsize
  have hoverhead : overhead = 42 := rfl
  have hsha : Sha1.size = 20 := rfl
  -- A block is a zero, the hidden seed and the masked data.
  generalize hmasked : add (data size message) (mask seed (data size message).size) = masked
    at hblock
  generalize hhidden : add seed (mask masked Sha1.size) = hidden at hblock
  have hmaskedSize : masked.size = size - 21 := by
    rw [← hmasked, size_add, size_mask, Nat.min_self, hdata]
  have hhiddenSize : hidden.size = 20 := by
    rw [← hhidden, size_add, size_mask, hseed, Nat.min_self, hsha]
  have hblockSize : block.size = size := by
    rw [hblock, ByteArray.size_append, ByteArray.size_append, Bytes.size_ofList,
      List.length_singleton]
    omega
  refine ⟨?_, hblockSize, _, hblock⟩
  have hone : 1 = (Bytes.ofList [0]).size := rfl
  -- They are cut where they were joined,
  have hfirst : block.extract 1 (1 + Sha1.size) = hidden := by
    have hskip := ByteArray.extract_append_size_add' (b := hidden ++ masked) (i := 0)
      (j := Sha1.size) hone
    rw [hblock]
    exact hskip.trans (ByteArray.extract_append_eq_left (hsha.trans hhiddenSize.symm))
  have hsecond : block.extract (1 + Sha1.size) block.size = masked := by
    rw [hblock, ← ByteArray.append_assoc]
    exact ByteArray.extract_append_eq_right
      (by rw [ByteArray.size_append, hhiddenSize]; rfl) ByteArray.size_append
  have hzero : block.at0 0 = 0 := by
    rw [Bytes.at0_eq, hblock, ByteArray.toList_data_append]
    rfl
  -- and the masks come off in the reverse order: first that of the seed,
  have hseedBack : add hidden (mask masked Sha1.size) = seed := by
    rw [← hhidden]
    exact add_add (Nat.le_of_eq (by rw [size_mask, hseed]))
  -- then that of the data.
  have hdataBack : add masked (mask seed masked.size) = data size message := by
    rw [hmaskedSize, ← hdata, ← hmasked]
    exact add_add (Nat.le_of_eq (size_mask _ _).symm)
  obtain ⟨hlabel, hmessage⟩ := message_of_data size message
  unfold unpad?
  rw [if_neg (by omega)]
  simp only [hfirst, hsecond, hseedBack, hdataBack, hzero, hlabel, and_self, ↓reduceIte, hmessage]

end Oaep

end BackupVault
