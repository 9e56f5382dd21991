import BackupVault.Proofs.Crypto.SessionKey
import Mathlib.Data.Finite.Prod

/-!
# Which strings are ciphertexts

Under each session key encryption is a bijection between all byte strings and those that decrypt.
The block cipher permutes the blocks, since there are finitely many of them and decrypting undoes
encrypting; the chain and the padding are undone in both directions.  So what decrypts is the
encryption of what comes out, and a string fails to decrypt only for want of whole blocks or of
proper padding at the end of its last block.

## Overview

- `Aes.Schedule.encrypt_decrypt`, `Chain.encrypt_decrypt`: encrypting undoes decrypting
- `Padding.remove_eq_some_iff`: what is padded
- `SessionKey.lastPlain`: the last block of a string, decrypted
- `SessionKey.encryption_bijective`: the plaintexts and their ciphertexts
-/

set_option autoImplicit false

namespace BackupVault

/-! ## §1 Blocks -/

namespace Aes

theorem finite_byte : Finite UInt8 := Finite.of_injective UInt8.toFin fun _ _ => UInt8.toFin_inj.mp

theorem finite_column : Finite Column := by
  have := finite_byte
  refine Finite.of_injective (fun s : Column => (s.a, s.b, s.c, s.d)) ?_
  rintro ⟨a, b, c, d⟩ ⟨a', b', c', d'⟩ h
  cases h
  rfl

theorem finite_block : Finite Block := by
  have := finite_column
  refine Finite.of_injective (fun s : Block => (s.w, s.x, s.y, s.z)) ?_
  rintro ⟨w, x, y, z⟩ ⟨w', x', y', z'⟩ h
  cases h
  rfl

/-- Every block is the encryption of one, since there are no more blocks than encryptions. -/
theorem Schedule.encrypt_decrypt (k : Schedule) (s : Block) : k.encrypt (k.decrypt s) = s := by
  have := finite_block
  have hinjective : Function.Injective k.encrypt :=
    Function.LeftInverse.injective k.decrypt_encrypt
  obtain ⟨plain, rfl⟩ := Finite.injective_iff_surjective.mp hinjective s
  rw [k.decrypt_encrypt]

end Aes

namespace Chain

open Aes

variable {k : Schedule} {chain : Block}

/-- A chain of decryptions is one of encryptions, block by block. -/
theorem encrypt_decrypt (k : Schedule) (chain : Block) (cs : List Block) :
    encrypt k chain (decrypt k chain cs) = cs := by
  induction cs generalizing chain with
  | nil => rfl
  -- The chain that decrypting added is added again.
  | cons c cs ih => rw [decrypt, encrypt, Block.add_add, Schedule.encrypt_decrypt, ih]

/-- The last block is decrypted on its own, and the chain added to it is the block before it. -/
theorem decrypt_concat (k : Schedule) (chain : Block) (cs : List Block) (c : Block) :
    decrypt k chain (cs ++ [c]) =
      decrypt k chain cs ++ [(k.decrypt c).add (cs.getLastD chain)] := by
  induction cs generalizing chain with
  | nil => rfl
  | cons d cs ih =>
    rw [List.cons_append, decrypt, ih, decrypt, List.cons_append, List.getLastD_cons]

end Chain

/-! ## §2 Padding -/

namespace Padding

/-- The list ends in `n` bytes of value `n`, for an `n` from one to sixteen. -/
def EndsPadded (l : List UInt8) : Prop :=
  ∃ n, 1 ≤ n ∧ n ≤ 16 ∧ List.replicate n (UInt8.ofNat n) <:+ l

theorem exists_remove_iff (b : Bytes) :
    (∃ plain, remove? b = some plain) ↔ EndsPadded b.data.toList := by
  constructor
  · rintro ⟨plain, h⟩
    obtain ⟨n, hpos, hle, hlist⟩ := remove_eq_some_iff.mp h
    exact ⟨n, hpos, hle, _, hlist.symm⟩
  · rintro ⟨n, hpos, hle, front, hlist⟩
    exact ⟨Bytes.ofList front, remove_eq_some_iff.mpr ⟨n, hpos, hle, hlist.symm⟩⟩

/-- Whether a list ends in padding is decided by its last sixteen bytes. -/
theorem endsPadded_append (front : List UInt8) {l : List UInt8} (h : l.length = 16) :
    EndsPadded (front ++ l) ↔ EndsPadded l := by
  constructor
  · rintro ⟨n, hpos, hle, hsuffix⟩
    refine ⟨n, hpos, hle, List.suffix_of_suffix_length_le hsuffix (List.suffix_append _ _) ?_⟩
    rw [List.length_replicate, h]
    exact hle
  · rintro ⟨n, hpos, hle, hsuffix⟩
    exact ⟨n, hpos, hle, hsuffix.trans (List.suffix_append _ _)⟩

/-- Whole blocks that are padded were filled up with just what was missing. -/
theorem add_of_remove {b plain : Bytes} (h : remove? b = some plain) (hwhole : b.size % 16 = 0) :
    add plain = b := by
  obtain ⟨n, hpos, hle, hlist⟩ := remove_eq_some_iff.mp h
  have hsize : b.size = plain.size + n := by
    rw [← Bytes.length_toList, hlist, List.length_append, Bytes.length_toList,
      List.length_replicate]
  have hmissing : missing plain.size = n := by
    unfold missing
    omega
  apply Bytes.ext_toList
  rw [add, hmissing, ByteArray.toList_data_append, Bytes.toList_replicate, hlist]

end Padding

/-! ## §3 Strings -/

namespace SessionKey

variable {k : SessionKey} {cipher : Bytes}

/-- The blocks of a string, decrypted and put together again. -/
def opened (k : SessionKey) (cipher : Bytes) : Bytes :=
  Chain.bytes (Chain.decrypt k.schedule Aes.Block.zero (Chain.blocks cipher))

/-- The last block of a string, decrypted: the block before it is added, or zeros if there is
none. -/
def lastPlain (k : SessionKey) (cipher : Bytes) : Aes.Block :=
  (k.schedule.decrypt (Aes.Block.ofBytesAt cipher (cipher.size - 16))).add
    (if cipher.size = 16 then Aes.Block.zero else Aes.Block.ofBytesAt cipher (cipher.size - 32))

theorem decrypt_eq_ok_iff {plain : Bytes} : k.decrypt cipher = .ok plain ↔
    cipher.size ≠ 0 ∧ cipher.size % 16 = 0 ∧ Padding.remove? (k.opened cipher) = some plain := by
  unfold decrypt opened
  by_cases hwhole : cipher.size = 0 ∨ cipher.size % 16 ≠ 0
  · simp only [if_pos hwhole, reduceCtorEq, false_iff]
    omega
  · rw [if_neg hwhole]
    obtain ⟨hsome, hwhole⟩ := not_or.mp hwhole
    cases Padding.remove? _ <;> simp [hsome, not_not.mp hwhole]

theorem size_opened (k : SessionKey) (hwhole : cipher.size % 16 = 0) :
    (k.opened cipher).size = cipher.size := by
  rw [opened, Chain.size_bytes, Chain.length_decrypt, Chain.length_blocks]
  omega

/-- What a string of whole blocks is decrypted to ends with what its last block is decrypted to. -/
theorem opened_ends (k : SessionKey) (hsome : cipher.size ≠ 0) (hwhole : cipher.size % 16 = 0) :
    ∃ front, (k.opened cipher).data.toList = front ++ (k.lastPlain cipher).toList := by
  obtain ⟨m, hm⟩ : ∃ m, cipher.size = 16 * (m + 1) := ⟨cipher.size / 16 - 1, by omega⟩
  -- The blocks before the last one, of which the last is the chain of the last block.
  have hblocks : Chain.blocks cipher =
      (List.range m).map (fun i => Aes.Block.ofBytesAt cipher (16 * i)) ++
        [Aes.Block.ofBytesAt cipher (cipher.size - 16)] := by
    have hcount : cipher.size / 16 = m + 1 := by omega
    have hlast : cipher.size - 16 = 16 * m := by omega
    rw [Chain.blocks, hcount, List.range_succ, List.map_append, hlast]
    rfl
  have hchain : ((List.range m).map fun i => Aes.Block.ofBytesAt cipher (16 * i)).getLastD
      Aes.Block.zero = if cipher.size = 16 then Aes.Block.zero
        else Aes.Block.ofBytesAt cipher (cipher.size - 32) := by
    cases m with
    | zero => rw [if_pos (by omega)]; rfl
    | succ j =>
      have hbefore : cipher.size - 32 = 16 * j := by omega
      rw [if_neg (by omega), List.range_succ, List.map_append, List.map_singleton,
        List.getLastD_concat, hbefore]
  have hopened : (k.opened cipher).data.toList = _ := Chain.toList_bytes _
  rw [hblocks, Chain.decrypt_concat, hchain, List.flatMap_append, List.flatMap_singleton] at hopened
  exact ⟨_, hopened⟩

/-- What decrypts is the encryption of what comes out. -/
theorem encrypt_of_decrypt {plain : Bytes} (h : k.decrypt cipher = .ok plain) :
    k.encrypt plain = cipher := by
  obtain ⟨-, hwhole, hplain⟩ := decrypt_eq_ok_iff.mp h
  have hsize : cipher.size = 16 * (cipher.size / 16) := by omega
  rw [encrypt, Padding.add_of_remove hplain (by rw [size_opened k hwhole, hwhole]), opened,
    Chain.blocks_bytes, Chain.encrypt_decrypt, Chain.bytes_blocks hsize]

/-- **Encryption is a bijection** between the byte strings and those that decrypt, for every key: a
plaintext of any length is encrypted to the next number of whole blocks, a string decrypts to a
plaintext exactly if it is its encryption, and it fails to decrypt exactly if it is no positive
number of whole blocks, or its last block does not end in padding. -/
theorem encryption_bijective (k : SessionKey) :
    (∀ plain, (k.encrypt plain).size = 16 * (plain.size / 16 + 1)) ∧
    (∀ cipher plain, k.decrypt cipher = .ok plain ↔ k.encrypt plain = cipher) ∧
    ∀ cipher, (∃ e, k.decrypt cipher = .error e) ↔
      cipher.size = 0 ∨ cipher.size % 16 ≠ 0 ∨
        ¬ Padding.EndsPadded (k.lastPlain cipher).toList := by
  refine ⟨k.size_encrypt, fun cipher plain => ⟨encrypt_of_decrypt, ?_⟩, fun cipher => ?_⟩
  · rintro rfl
    exact k.decrypt_encrypt plain
  · have hends (hsome : cipher.size ≠ 0) (hwhole : cipher.size % 16 = 0) :
        (∃ plain, k.decrypt cipher = .ok plain) ↔
          Padding.EndsPadded (k.lastPlain cipher).toList := by
      obtain ⟨front, hopened⟩ := k.opened_ends hsome hwhole
      rw [← Padding.endsPadded_append front rfl, ← hopened, ← Padding.exists_remove_iff]
      simp only [decrypt_eq_ok_iff, hsome, hwhole, ne_eq, not_false_eq_true, true_and]
    have hfails : (∃ e, k.decrypt cipher = .error e) ↔ ¬ ∃ plain, k.decrypt cipher = .ok plain := by
      cases k.decrypt cipher <;> simp
    by_cases hwhole : cipher.size = 0 ∨ cipher.size % 16 ≠ 0
    · rw [hfails]
      refine iff_of_true ?_ (by tauto)
      rintro ⟨plain, h⟩
      obtain ⟨hsome, hmod, -⟩ := decrypt_eq_ok_iff.mp h
      exact hwhole.elim hsome fun hne => hne hmod
    · obtain ⟨hsome, hmod⟩ := not_or.mp hwhole
      rw [hfails, hends hsome (not_not.mp hmod), or_iff_right hsome, or_iff_right hmod]

end SessionKey

end BackupVault
