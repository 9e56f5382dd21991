import BackupVault.Encoding.Base64
import BackupVault.Proofs.Bytes
import BackupVault.Proofs.Text.Blank

/-!
# Base 64 is read back

Three bytes make four symbols, and the last group may have one or two bytes less.  Each group is
read back on its own.

## Overview

- `Base64.value_symbol`: symbols stand for their numbers
- `Base64.decode_encode`: byte strings are read back
- `Base64.trim_encode`: there is no white space around their text
-/

set_option autoImplicit false

namespace BackupVault.Base64

/-! ## §1 Symbols -/

theorem value_symbol {n : Nat} (h : n < 64) : value? (symbol n) = some n := by
  have hall : ∀ n ∈ List.range 64, value? (symbol n) = some n := by decide
  exact hall n (List.mem_range.mpr h)

/-- What fills up the last group is no symbol. -/
theorem symbol_ne {n : Nat} (h : n < 64) : symbol n ≠ '=' := by
  intro heq
  have hvalue := value_symbol h
  rw [heq] at hvalue
  cases hvalue

theorem ofNat_eq {n : Nat} {x : UInt8} (h : n = x.toNat) : UInt8.ofNat n = x := by
  rw [h, UInt8.ofNat_toNat]

/-! ## §2 Groups -/

/-- By induction on the groups: the numbers behind the symbols are put together again to the bytes
that they were taken from. -/
theorem decodeList_encodeList (xs : List UInt8) : decodeList? (encodeList xs) = some xs := by
  fun_induction encodeList xs with
  | case1 => rfl
  | case2 x =>
    have hx := x.toNat_lt
    rw [decodeList?, value_symbol (by omega), value_symbol (by omega)]
    simp only [Option.bind_eq_bind, Option.bind_some]
    rw [if_pos (by omega), ofNat_eq (x := x) (by omega)]
  | case3 x y =>
    have hx := x.toNat_lt
    have hy := y.toNat_lt
    rw [decodeList?, value_symbol (by omega), value_symbol (by omega), value_symbol (by omega)]
    · simp only [Option.bind_eq_bind, Option.bind_some]
      rw [if_pos (by omega), ofNat_eq (x := x) (by omega), ofNat_eq (x := y) (by omega)]
    -- The third symbol is not one that fills up.
    · exact symbol_ne (by omega)
  | case4 x y z rest ih =>
    have hx := x.toNat_lt
    have hy := y.toNat_lt
    have hz := z.toNat_lt
    rw [decodeList?, value_symbol (by omega), value_symbol (by omega), value_symbol (by omega),
      value_symbol (by omega), ih]
    · simp only [Option.bind_eq_bind, Option.bind_some, Option.pure_def]
      rw [ofNat_eq (x := x) (by omega), ofNat_eq (x := y) (by omega), ofNat_eq (x := z) (by omega)]
    -- A whole group is not taken for the last one.
    · intro _ hlast
      exact absurd hlast (symbol_ne (by omega))
    · intro hlast
      exact absurd hlast (symbol_ne (by omega))

/-- A byte string is read back from its text. -/
theorem decode_encode (b : Bytes) : decode? (encode b) = some b := by
  rw [decode?, encode, String.toList_ofList, decodeList_encodeList]
  rfl

/-! ## §3 White space -/

theorem not_isBlank_symbol (n : Nat) : Text.isBlank (symbol n) = false := by
  have hall : ∀ n ∈ List.range 64, Text.isBlank (symbol n) = false := by decide
  by_cases h : n < 64
  · exact hall n (List.mem_range.mpr h)
  · -- There is no symbol for more than six bits.
    have hnone := List.getElem?_eq_none (l :=
      "ABCDEFGHIJKLMNOPQRSTUVWXYZabcdefghijklmnopqrstuvwxyz0123456789+/".toList) (Nat.le_of_not_lt h)
    rw [symbol, List.getD_eq_getElem?_getD, hnone]
    rfl

theorem not_isBlank_of_mem_encode (b : Bytes) :
    ∀ c ∈ (encode b).toList, Text.isBlank c = false := by
  have hfill : Text.isBlank '=' = false := rfl
  rw [encode, String.toList_ofList]
  fun_induction encodeList b.data.toList with
  | case1 => exact fun c hc => absurd hc List.not_mem_nil
  | case2 x => simp [not_isBlank_symbol, hfill]
  | case3 x y => simp [not_isBlank_symbol, hfill]
  | case4 x y z rest ih => simpa [not_isBlank_symbol] using ih

theorem trim_encode (b : Bytes) : Text.trim (encode b) = encode b := by
  rw [Text.trim, Text.trimChars_of_no_blank (not_isBlank_of_mem_encode b), String.ofList_toList]

end BackupVault.Base64
