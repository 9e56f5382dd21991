import BackupVault.Proofs.Text.Ascii
import Mathlib.Data.String.Basic

/-!
# The order of texts and that of their bytes

Texts compare by their first different characters, and byte strings by their first different bytes.
An encoded character that comes before another one differs from it first by a smaller byte, so that
texts are in the same order as their bytes.

## Overview

- `Bytes.Before`: a smaller byte at the first difference
- `Bytes.before_encodeChar`: encoded characters
- `Bytes.lexLt_ofText`: encoded texts
-/

set_option autoImplicit false

namespace BackupVault.Bytes

/-! ## §1 First differences -/

/-- The lists differ, and at their first difference the first one has the smaller byte. -/
inductive Before : List UInt8 → List UInt8 → Prop
  | head {x y : UInt8} {xs ys : List UInt8} (h : x < y) : Before (x :: xs) (y :: ys)
  | tail {x : UInt8} {xs ys : List UInt8} (h : Before xs ys) : Before (x :: xs) (x :: ys)

/-- A first difference is one in all longer lists. -/
theorem Before.append {xs ys : List UInt8} (h : Before xs ys) (xs' ys' : List UInt8) :
    Before (xs ++ xs') (ys ++ ys') := by
  induction h with
  | head h => exact .head h
  | tail h ih => exact .tail ih

theorem Before.lexLt {xs ys : List UInt8} (h : Before xs ys) :
    lexLt xs ys = true ∧ lexLt ys xs = false := by
  induction h with
  | @head x y xs ys h =>
    have hnot : (y < x) = False := eq_false (UInt8.lt_asymm h)
    have hne : (y == x) = false := beq_false_of_ne (UInt8.ne_of_lt h).symm
    simp [Bytes.lexLt, h, hnot, hne]
  | @tail x xs ys h ih => simpa [Bytes.lexLt] using ih

theorem lexLt_append (p xs ys : List UInt8) : lexLt (p ++ xs) (p ++ ys) = lexLt xs ys := by
  induction p with
  | nil => rfl
  | cons x p ih => simpa [lexLt] using ih

/-! ## §2 Characters -/

/-- Bytes that do not decrease, and what comes after them where they are the same. -/
theorem Before.ofNat {m n : Nat} {xs ys : List UInt8} (h : m ≤ n) (hn : n < 256)
    (hrest : m = n → Before xs ys) : Before (UInt8.ofNat m :: xs) (UInt8.ofNat n :: ys) := by
  by_cases heq : m = n
  · subst heq
    exact .tail (hrest rfl)
  · refine .head (UInt8.lt_iff_toNat_lt.mpr ?_)
    rw [UInt8.toNat_ofNat', UInt8.toNat_ofNat']
    omega

/-- The forms of encoded characters begin with larger bytes the longer they are, and characters of
the same form have their digits in the same places, the most significant one first. -/
theorem before_encodeChar {c d : Char} (h : c < d) :
    Before (String.utf8EncodeChar c) (String.utf8EncodeChar d) := by
  have hlt : c.val.toNat < d.val.toNat := UInt32.lt_iff_toNat_lt.mp h
  have hmax : d.val.toNat < 1114112 := by
    rcases d.valid with hd | ⟨-, hd⟩
    · exact Nat.lt_of_lt_of_le hd (by decide)
    · exact hd
  unfold String.utf8EncodeChar
  generalize c.val.toNat = m at hlt ⊢
  generalize d.val.toNat = n at hlt hmax ⊢
  by_cases hn₁ : n ≤ 127
  · have hm₁ : m ≤ 127 := by omega
    simp only [hm₁, hn₁, ↓reduceIte]
    exact .ofNat (by omega) (by omega) fun heq => by omega
  by_cases hn₂ : n ≤ 2047
  · by_cases hm₁ : m ≤ 127
    · simp only [hm₁, hn₁, hn₂, ↓reduceIte]
      exact .ofNat (by omega) (by omega) fun heq => by omega
    have hm₂ : m ≤ 2047 := by omega
    simp only [hm₁, hm₂, hn₁, hn₂, ↓reduceIte]
    refine .ofNat (by omega) (by omega) fun heq => ?_
    exact .ofNat (by omega) (by omega) fun heq' => by omega
  by_cases hn₃ : n ≤ 65535
  · by_cases hm₁ : m ≤ 127
    · simp only [hm₁, hn₁, hn₂, hn₃, ↓reduceIte]
      exact .ofNat (by omega) (by omega) fun heq => by omega
    by_cases hm₂ : m ≤ 2047
    · simp only [hm₁, hm₂, hn₁, hn₂, hn₃, ↓reduceIte]
      exact .ofNat (by omega) (by omega) fun heq => by omega
    have hm₃ : m ≤ 65535 := by omega
    simp only [hm₁, hm₂, hm₃, hn₁, hn₂, hn₃, ↓reduceIte]
    refine .ofNat (by omega) (by omega) fun heq => ?_
    refine .ofNat (by omega) (by omega) fun heq' => ?_
    exact .ofNat (by omega) (by omega) fun heq'' => by omega
  by_cases hm₁ : m ≤ 127
  · simp only [hm₁, hn₁, hn₂, hn₃, ↓reduceIte]
    exact .ofNat (by omega) (by omega) fun heq => by omega
  by_cases hm₂ : m ≤ 2047
  · simp only [hm₁, hm₂, hn₁, hn₂, hn₃, ↓reduceIte]
    exact .ofNat (by omega) (by omega) fun heq => by omega
  by_cases hm₃ : m ≤ 65535
  · simp only [hm₁, hm₂, hm₃, hn₁, hn₂, hn₃, ↓reduceIte]
    exact .ofNat (by omega) (by omega) fun heq => by omega
  simp only [hm₁, hm₂, hm₃, hn₁, hn₂, hn₃, ↓reduceIte]
  refine .ofNat (by omega) (by omega) fun heq => ?_
  refine .ofNat (by omega) (by omega) fun heq' => ?_
  refine .ofNat (by omega) (by omega) fun heq'' => ?_
  exact .ofNat (by omega) (by omega) fun heq''' => by omega

/-! ## §3 Texts -/

theorem lexLt_flatMap (cs ds : List Char) :
    lexLt (cs.flatMap String.utf8EncodeChar) (ds.flatMap String.utf8EncodeChar) = true ↔
      cs < ds := by
  have hne (c : Char) : String.utf8EncodeChar c ≠ [] := String.utf8EncodeChar_ne_nil
  induction cs generalizing ds with
  | nil =>
    cases ds with
    | nil => simp [lexLt]
    | cons d ds =>
      obtain ⟨x, xs, hx⟩ := List.exists_cons_of_ne_nil (hne d)
      simp [hx, lexLt]
  | cons c cs ih =>
    cases ds with
    | nil =>
      obtain ⟨x, xs, hx⟩ := List.exists_cons_of_ne_nil (hne c)
      simp [lexLt]
    | cons d ds =>
      rw [List.flatMap_cons, List.flatMap_cons, List.cons_lt_cons_iff]
      rcases lt_trichotomy c d with hlt | rfl | hgt
      · have hfirst := ((before_encodeChar hlt).append (cs.flatMap String.utf8EncodeChar)
          (ds.flatMap String.utf8EncodeChar)).lexLt.1
        exact ⟨fun _ => .inl hlt, fun _ => hfirst⟩
      · rw [lexLt_append]
        exact (ih ds).trans (by simp)
      · have hfirst := ((before_encodeChar hgt).append (ds.flatMap String.utf8EncodeChar)
          (cs.flatMap String.utf8EncodeChar)).lexLt.2
        rw [hfirst]
        simp [hgt.not_gt, hgt.ne']

/-- Texts are in the order of their bytes. -/
theorem lexLt_ofText (s t : String) :
    lexLt (ofText s).data.toList (ofText t).data.toList = true ↔ s < t := by
  rw [toList_ofText, toList_ofText, lexLt_flatMap, String.lt_iff_toList_lt]

end BackupVault.Bytes
