import BackupVault.Proofs.Bytes
import BackupVault.Text.Decimal

/-!
# Digits

Bytes that were written in hexadecimal are read back, two digits for each, and the value of a row
of decimal digits is the number whose digits they are.

## Overview

- `Bytes.ofHexDigits_hex`: hexadecimal text is read back
- `Text.digitsValue_toDigits`: decimal digits have the value of their number
- `Text.digitsValue_lt`: a row of digits has a small value
- `Text.decimal_eq_some`: which texts are numbers below a limit
-/

set_option autoImplicit false

namespace BackupVault

/-! ## §1 Hexadecimal -/

namespace Bytes

theorem hexValue_hexDigit {n : Nat} (h : n < 16) : hexValue? (hexDigit n) = some n := by
  have hall : ∀ n ∈ List.range 16, hexValue? (hexDigit n) = some n := by decide
  exact hall n (List.mem_range.mpr h)

theorem toList_hex (b : Bytes) : (hex b).toList =
    b.data.toList.flatMap fun x => [hexDigit (x.toNat / 16), hexDigit (x.toNat % 16)] := by
  rw [hex, String.toList_ofList]

/-- Each byte is read back from its two digits. -/
theorem ofHexDigits_hex (b : Bytes) : ofHexDigits? (hex b).toList = some b.data.toList := by
  rw [toList_hex]
  induction b.data.toList with
  | nil => rfl
  | cons x xs ih =>
    have hx := x.toNat_lt
    have hbyte : UInt8.ofNat (16 * (x.toNat / 16) + x.toNat % 16) = x := by
      rw [Nat.div_add_mod, UInt8.ofNat_toNat]
    rw [List.flatMap_cons, List.cons_append, List.cons_append, List.nil_append, ofHexDigits?,
      hexValue_hexDigit (by omega), hexValue_hexDigit (by omega), ih]
    simp only [Option.bind_eq_bind, Option.bind_some, Option.pure_def, hbyte]

theorem length_hex (b : Bytes) : (hex b).toList.length = 2 * b.size := by
  rw [toList_hex, ← length_toList]
  induction b.data.toList with
  | nil => rfl
  | cons x xs ih =>
    rw [List.flatMap_cons, List.length_append, ih, List.length_cons, List.length_cons,
      List.length_cons, List.length_nil]
    omega

end Bytes

/-! ## §2 Decimal -/

namespace Text

theorem hexValue_of_isDigit {c : Char} (h : c.isDigit = true) :
    Bytes.hexValue? c = some (c.toNat - '0'.toNat) := by
  rw [Char.isDigit, Bool.and_eq_true, decide_eq_true_eq, decide_eq_true_eq] at h
  have hrange : '0' ≤ c ∧ c ≤ '9' := h
  rw [Bytes.hexValue?, if_pos hrange]

/-- The value of decimal digits is the one that the library gives them. -/
theorem digitsValue_eq {ds : List Char} (h : ∀ c ∈ ds, c.isDigit = true) :
    digitsValue 10 ds = Nat.ofDigitChars 10 ds 0 := by
  -- The folds are compared for any number to start with.
  have general : ∀ n, ds.foldl (fun n c => 10 * n + (Bytes.hexValue? c).getD 0) n =
      Nat.ofDigitChars 10 ds n := by
    induction ds with
    | nil => exact fun _ => rfl
    | cons c ds ih =>
      rw [List.forall_mem_cons] at h
      intro n
      rw [List.foldl_cons, Nat.ofDigitChars_cons, hexValue_of_isDigit h.1, Option.getD_some, ih h.2]
  exact general 0

theorem isDigit_of_mem_toDigits {n : Nat} {c : Char} (h : c ∈ Nat.toDigits 10 n) :
    c.isDigit = true :=
  Nat.isDigit_of_mem_toDigits (by decide) (by decide) h

/-- Zeros before the digits of a number do not count. -/
theorem digitsValue_toDigits (zeros n : Nat) :
    digitsValue 10 (List.replicate zeros '0' ++ Nat.toDigits 10 n) = n := by
  have hdigits : ∀ c ∈ List.replicate zeros '0' ++ Nat.toDigits 10 n, c.isDigit = true := by
    intro c hc
    rcases List.mem_append.mp hc with hzero | hdigit
    · rw [List.eq_of_mem_replicate hzero]
      rfl
    · exact isDigit_of_mem_toDigits hdigit
  rw [digitsValue_eq hdigits, Nat.ofDigitChars_append, Nat.ofDigitChars_replicate_zero,
    Nat.mul_zero, Nat.ofDigitChars_toDigits (by decide) (by decide)]

/-- Zeros after the digits of a number count tenfold each. -/
theorem digitsValue_zeros (ds : List Char) (zeros : Nat) :
    digitsValue 10 (ds ++ List.replicate zeros '0') = digitsValue 10 ds * 10 ^ zeros := by
  have hzero : (Bytes.hexValue? '0').getD 0 = 0 := by decide
  induction zeros with
  | zero => rw [List.replicate_zero, List.append_nil, Nat.pow_zero, Nat.mul_one]
  | succ zeros ih =>
    rw [digitsValue] at ih
    rw [List.replicate_succ', ← List.append_assoc, digitsValue, List.foldl_append, ih,
      List.foldl_cons, List.foldl_nil, hzero, Nat.add_zero, Nat.pow_succ]
    ac_rfl

theorem digitsValue_lt {ds : List Char} (h : ∀ c ∈ ds, c.isDigit = true) :
    digitsValue 10 ds < 10 ^ ds.length := by
  rw [digitsValue_eq h]
  induction ds with
  | nil => exact Nat.one_pos
  | cons c ds ih =>
    rw [List.forall_mem_cons] at h
    have hrest := ih h.2
    -- A digit is at most nine, so that it does not reach the next power of ten.
    have hdigit : c.toNat - '0'.toNat ≤ 9 := by
      have hc := h.1
      rw [Char.isDigit, Bool.and_eq_true, decide_eq_true_eq, decide_eq_true_eq] at hc
      have hle : c.toNat ≤ '9'.toNat := hc.2
      have hnine : '9'.toNat = '0'.toNat + 9 := rfl
      omega
    have hmul := Nat.mul_le_mul_left (10 ^ ds.length) hdigit
    rw [Nat.ofDigitChars_cons, Nat.ofDigitChars_eq_ofDigitChars_zero, Nat.mul_zero, Nat.zero_add,
      List.length_cons, Nat.pow_succ]
    omega

/-- A row of digits is the number that they stand for. -/
theorem digits_eq_some {ds : List Char} {n : Nat} : digits? ds = some n ↔
    ds ≠ [] ∧ (∀ c ∈ ds, c.isDigit = true) ∧ Nat.ofDigitChars 10 ds 0 = n := by
  have hall : (!ds.isEmpty && ds.all Char.isDigit) = true ↔
      ds ≠ [] ∧ ∀ c ∈ ds, c.isDigit = true := by simp
  unfold digits?
  by_cases h : ds ≠ [] ∧ ∀ c ∈ ds, c.isDigit = true
  · rw [if_pos (hall.mpr h), digitsValue_eq h.2, Option.some.injEq]
    exact ⟨fun hn => ⟨h.1, h.2, hn⟩, fun hn => hn.2.2⟩
  · rw [if_neg (mt hall.mp h)]
    exact iff_of_false (fun hn => nomatch hn) fun hn => h ⟨hn.1, hn.2.1⟩

/-- The digits of a number are what follows the plus sign, or all there is. -/
theorem decimal_eq_some {limit : Nat} {cs : List Char} {n : Nat} :
    decimal? limit cs = some n ↔ ∃ digits, (cs = digits ∨ cs = '+' :: digits) ∧
      digits? digits = some n ∧ n < limit := by
  unfold decimal?
  rw [Option.filter_eq_some_iff, decide_eq_true_iff]
  split
  · next rest =>
    constructor
    · exact fun h => ⟨rest, .inr rfl, h⟩
    · rintro ⟨digits, rfl | hsign, hdigits, hlimit⟩
      · -- A sign is no digit.
        have hplus := (digits_eq_some.mp hdigits).2.1 '+' List.mem_cons_self
        cases hplus
      · cases hsign
        exact ⟨hdigits, hlimit⟩
  · next hsign =>
    constructor
    · exact fun h => ⟨cs, .inl rfl, h⟩
    · rintro ⟨digits, rfl | hplus, hdigits, hlimit⟩
      · exact ⟨hdigits, hlimit⟩
      · exact absurd hplus (hsign digits)

end Text

end BackupVault
