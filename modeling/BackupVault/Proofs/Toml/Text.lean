import BackupVault.Proofs.Text.Digits
import BackupVault.Toml.Text

/-!
# TOML strings are read back

A text is written as a string of one of three kinds, character by character, so that it is read back
one character at a time: no character of it is taken for the end of the string or for the beginning
of an escape.

## Overview

- `Toml.basicBody_quoteChar`, `Toml.basicLines_quoteLineChar`: one character with escapes
- `Toml.basicBody_flatMap`, `basicLines_flatMap`, `literalBody_append`: strings of each kind
- `Toml.string_quote`: a text
-/

set_option autoImplicit false

namespace BackupVault.Toml

/-! ## §1 Characters -/

/-- The characters without an appearance of their own have code points of at most two digits. -/
theorem toNat_lt_of_not_isPrintable {c : Char} (h : isPrintable c = false) : c.toNat < 256 := by
  by_cases hlow : c.toNat < 32
  · omega
  · have hspace : ' ' ≤ c := show 32 ≤ c.toNat from Nat.le_of_not_lt hlow
    simp only [isPrintable, hspace, decide_true, Bool.true_and, Bool.or_eq_false_iff,
      decide_eq_false_iff_not, ne_eq, Decidable.not_not] at h
    rw [h.2]
    decide

theorem hexValue_toUpper {n : Nat} (h : n < 16) :
    Bytes.hexValue? (Bytes.hexDigit n).toUpper = some n := by
  have hall : ∀ n ∈ List.range 16, Bytes.hexValue? (Bytes.hexDigit n).toUpper = some n := by decide
  exact hall n (List.mem_range.mpr h)

theorem codePoint_hexDigits {c : Char} (h : c.toNat < 256) :
    codePoint? ['0', '0', (Bytes.hexDigit (c.toNat / 16 % 16)).toUpper,
      (Bytes.hexDigit (c.toNat % 16)).toUpper] = some c := by
  have hzero : Bytes.hexValue? '0' = some 0 := by decide
  have hvalues : ['0', '0', (Bytes.hexDigit (c.toNat / 16 % 16)).toUpper,
      (Bytes.hexDigit (c.toNat % 16)).toUpper].mapM Bytes.hexValue? =
        some [0, 0, c.toNat / 16 % 16, c.toNat % 16] := by
    simp only [List.mapM_cons, List.mapM_nil, hzero,
      hexValue_toUpper (Nat.mod_lt _ (by decide : 0 < 16)), Option.pure_def,
      Option.bind_eq_bind, Option.bind_some]
  have hnumber : [0, 0, c.toNat / 16 % 16, c.toNat % 16].foldl (fun n d => 16 * n + d) 0 =
      c.toNat := by
    simp only [List.foldl_cons, List.foldl_nil]
    omega
  have hvalid : c.toNat.isValidChar := c.valid
  simp only [codePoint?, hvalues, Option.bind_eq_bind, Option.bind_some, hnumber, hvalid,
    ↓reduceIte, Char.ofNat_toNat]

/-- A letter after a backslash is read as the character that it stands for, since it is none of
those that begin something else there. -/
theorem escapeLetter_of_letterOf {c letter : Char} (h : letterOf? c = some letter) :
    escapeLetter? letter = some c ∧ letter ≠ 'u' ∧ letter ≠ 'U' ∧
      ∀ rest, isLineDone (letter :: rest) = false := by
  have hall : ∀ p ∈ letters, escapeLetter? p.1 = some p.2 ∧ p.1 ≠ 'u' ∧ p.1 ≠ 'U' ∧
      p.1 ≠ ' ' ∧ p.1 ≠ '\t' ∧ p.1 ≠ '\n' ∧ p.1 ≠ '\r' := by decide
  obtain ⟨p, hp, rfl⟩ := Option.map_eq_some_iff.mp h
  have hc : p.2 = c := beq_iff_eq.mp (List.find?_some hp :)
  obtain ⟨hletter, hu, hU, hspace, htab, hbreak, hreturn⟩ := hall p (List.mem_of_find?_eq_some hp)
  refine ⟨hc ▸ hletter, hu, hU, fun rest => ?_⟩
  simp [isLineDone, lineBreak?, hspace, htab, hbreak, hreturn]

/-- A character without a letter is no quote, no backslash and no line break. -/
theorem ne_of_letterOf_eq_none {c : Char} (h : letterOf? c = none) :
    c ≠ '"' ∧ c ≠ '\\' ∧ c ≠ '\n' ∧ c ≠ '\r' := by
  refine ⟨?_, ?_, ?_, ?_⟩ <;>
  · rintro rfl
    exact absurd h (by decide)

/-- A character of a text is read back, whatever comes after it. -/
theorem basicBody_quoteChar (c : Char) (rest : List Char) :
    basicBody? (quoteChar c ++ rest) = consChar c (basicBody? rest) := by
  unfold quoteChar
  cases hc : letterOf? c with
  | some letter =>
    obtain ⟨hletter, hu, hU, -⟩ := escapeLetter_of_letterOf hc
    simp [basicBody?, hletter, hu, hU]
  | none =>
    obtain ⟨hquote, hbackslash, -⟩ := ne_of_letterOf_eq_none hc
    cases hprintable : isPrintable c with
    | true => simp [basicBody?, hbackslash, hprintable]
    | false =>
      have hcode := codePoint_hexDigits (toNat_lt_of_not_isPrintable hprintable)
      simp [basicBody?, hcode]

/-- The same in a string on several lines. -/
theorem basicLines_quoteLineChar (c : Char) (rest : List Char) :
    basicLines? false (quoteLineChar c ++ rest) = consChar c (basicLines? false rest) := by
  unfold quoteLineChar
  by_cases hbreak : c = '\n'
  · rw [if_pos hbreak, hbreak]
    simp [basicLines?]
  rw [if_neg hbreak]
  unfold quoteChar
  cases hc : letterOf? c with
  | some letter =>
    obtain ⟨hletter, hu, hU, hline⟩ := escapeLetter_of_letterOf hc
    simp [basicLines?, hletter, hu, hU, hline]
  | none =>
    obtain ⟨hquote, hbackslash, -, hreturn⟩ := ne_of_letterOf_eq_none hc
    cases hprintable : isPrintable c with
    | true => simp [basicLines?, hquote, hbackslash, hreturn, hprintable]
    | false =>
      have hcode := codePoint_hexDigits (toNat_lt_of_not_isPrintable hprintable)
      simp [basicLines?, hcode]

/-! ## §2 Strings of each kind -/

theorem basicBody_flatMap (cs rest : List Char) :
    basicBody? (cs.flatMap quoteChar ++ '"' :: rest) = some (cs, rest) := by
  induction cs with
  | nil => rfl
  | cons c cs ih =>
    rw [List.flatMap_cons, List.append_assoc, basicBody_quoteChar, ih, consChar]

theorem basicLines_flatMap (cs : List Char) {c : Char} (hc : c ≠ '"') (rest : List Char) :
    basicLines? false (cs.flatMap quoteLineChar ++ '"' :: '"' :: '"' :: c :: rest) =
      some (cs, c :: rest) := by
  induction cs with
  | nil =>
    -- No further quote follows the three at the end.
    have hclosing : closing '"' (c :: rest) = ([], c :: rest) := by
      cases rest <;> simp [closing, hc]
    simp [basicLines?, hclosing]
  | cons d cs ih =>
    rw [List.flatMap_cons, List.append_assoc, basicLines_quoteLineChar, ih, consChar]

theorem literalBody_append {cs : List Char} (h : ∀ c ∈ cs, isPrintable c = true ∧ c ≠ '\'')
    (rest : List Char) : literalBody? (cs ++ '\'' :: rest) = some (cs, rest) := by
  induction cs with
  | nil => rfl
  | cons c cs ih =>
    obtain ⟨⟨hprintable, hquote⟩, hcs⟩ := List.forall_mem_cons.mp h
    simp [literalBody?, hprintable, ih hcs, consChar]

/-! ## §3 Texts -/

/-- A text begins with a quote of either kind. -/
theorem head_quote (s : String) :
    ∃ q rest, (quote s).toList = q :: rest ∧ (q = '"' ∨ q = '\'') := by
  unfold quote
  dsimp only
  split
  · exact ⟨_, _, String.toList_ofList, .inl rfl⟩
  · split
    · exact ⟨_, _, String.toList_ofList, .inr rfl⟩
    · exact ⟨_, _, String.toList_ofList, .inl rfl⟩

/-- No character is written as a double quote. -/
theorem head_quoteChar (c : Char) : ∃ d ds, quoteChar c = d :: ds ∧ d ≠ '"' := by
  unfold quoteChar
  cases hc : letterOf? c with
  | some letter => exact ⟨_, _, rfl, by decide⟩
  | none =>
    dsimp only
    split
    · exact ⟨c, _, rfl, (ne_of_letterOf_eq_none hc).1⟩
    · exact ⟨_, _, rfl, by decide⟩

/-- A string of one line is not one of several lines, since no third quote follows the first two. -/
theorem string_basic (cs : List Char) {c : Char} (hc : c ≠ '"') (rest : List Char) :
    string? ('"' :: (cs.flatMap quoteChar ++ '"' :: c :: rest)) =
      some (String.ofList cs, c :: rest) := by
  have hline : lineString? ('"' :: (cs.flatMap quoteChar ++ '"' :: c :: rest)) =
      some (String.ofList cs, c :: rest) := by
    rw [lineString?, basicBody_flatMap, Option.map_some]
  rw [← hline]
  cases cs with
  | nil => simp [string?, hc]
  | cons d ds =>
    obtain ⟨e, es, hquote, hne⟩ := head_quoteChar d
    simp [string?, hquote, hne]

theorem string_literal {cs : List Char} (hne : cs ≠ [])
    (h : ∀ c ∈ cs, isPrintable c = true ∧ c ≠ '\'') (rest : List Char) :
    string? ('\'' :: (cs ++ '\'' :: rest)) = some (String.ofList cs, rest) := by
  have hline : lineString? ('\'' :: (cs ++ '\'' :: rest)) = some (String.ofList cs, rest) := by
    rw [lineString?, literalBody_append h, Option.map_some]
  rw [← hline]
  obtain ⟨d, ds, rfl⟩ := List.exists_cons_of_ne_nil hne
  simp [string?, (h d List.mem_cons_self).2]

/-- A text is read back from a line, whatever kind of string it is written as. -/
theorem string_quote (s : String) {c : Char} (hc : c ≠ '"') (rest : List Char) :
    string? ((quote s).toList ++ c :: rest) = some (s, c :: rest) := by
  unfold quote
  dsimp only
  split
  · have hbody := basicLines_flatMap s.toList hc rest
    rw [String.toList_ofList]
    simp [string?, skipFirstBreak, lineBreak?, hbody]
  · split
    · rename_i hliteral
      rw [prefersLiteral, Bool.and_eq_true, List.any_eq_true, List.all_eq_true] at hliteral
      obtain ⟨⟨d, hd, -⟩, hall⟩ := hliteral
      have hstring := string_literal (List.ne_nil_of_mem hd)
        (fun c hmem => by simpa using hall c hmem) (c :: rest)
      rw [String.ofList_toList] at hstring
      rw [String.toList_ofList, List.append_assoc]
      exact hstring
    · have hstring := string_basic s.toList hc rest
      rw [String.ofList_toList] at hstring
      rw [String.toList_ofList, List.append_assoc]
      exact hstring

end BackupVault.Toml
