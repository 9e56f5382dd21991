import BackupVault.Config.TransferInfo
import BackupVault.Proofs.Config.Rows
import BackupVault.Proofs.Text.Digits
import BackupVault.Proofs.Wire.Reading

/-!
# What a transfer file says

A transfer file is read off its rows: an address, a name and a path, and nothing more.  So white
space around lines, carriage returns among it, and empty lines at the end do not matter.

## Overview

- `IsAddress`, `TransferInfo.isAddress_iff`: a host, the last colon, and a port
- `TransferInfo.Says`, `TransferInfo.ofText_eq_ok_iff`: what is read
- `TransferInfo.Judged`, `TransferInfo.ofText_judged`: and what does not matter
-/

set_option autoImplicit false

namespace BackupVault

open Text (isBlank)

/-! ## §1 Addresses -/

/-- A number below a limit in decimal digits, perhaps after a plus sign. -/
def IsDecimal (limit : Nat) (cs : List Char) : Prop :=
  ∃ digits, (cs = digits ∨ cs = '+' :: digits) ∧ digits ≠ [] ∧
    (∀ c ∈ digits, c.isDigit = true) ∧ Nat.ofDigitChars 10 digits 0 < limit

/-- A host that is not empty, and a port after the last colon. -/
def IsAddress (s : String) : Prop :=
  ∃ host port, s.toList = host ++ ':' :: port ∧ ':' ∉ port ∧ host ≠ [] ∧ IsDecimal 65536 port

theorem port_isSome {cs : List Char} : (port? cs).isSome = true ↔ IsDecimal 65536 cs := by
  rw [Option.isSome_iff_exists]
  constructor
  · rintro ⟨n, h⟩
    obtain ⟨digits, hcs, hdigits, hlimit⟩ := Text.decimal_eq_some.mp h
    obtain ⟨hne, hall, rfl⟩ := Text.digits_eq_some.mp hdigits
    exact ⟨digits, hcs, hne, hall, hlimit⟩
  · rintro ⟨digits, hcs, hne, hall, hlimit⟩
    have hdigits := Text.digits_eq_some.mpr ⟨hne, hall, rfl⟩
    exact ⟨_, Text.decimal_eq_some.mpr ⟨digits, hcs, hdigits, hlimit⟩⟩

theorem splitAtLastColon_of_split {port : List Char} (h : ':' ∉ port) (host : List Char) :
    splitAtLastColon (host ++ ':' :: port) = some (host, port) := by
  have hport : ∀ c ∈ port.reverse, decide (c ≠ ':') = true := fun c hc =>
    decide_eq_true fun hcolon => h (List.mem_reverse.mp (hcolon ▸ hc))
  have hafter : ((host ++ ':' :: port).reverse.takeWhile (· ≠ ':')).reverse = port := by
    rw [List.reverse_append, List.reverse_cons, List.append_assoc,
      List.takeWhile_append_of_pos hport]
    simp
  have hlength : (host ++ ':' :: port).length - port.length - 1 = host.length := by
    rw [List.length_append, List.length_cons]
    omega
  unfold splitAtLastColon
  simp only [hafter, hlength]
  rw [if_pos (by simp; omega), List.take_left]

theorem splitAtLastColon_of_none {cs : List Char} (h : ':' ∉ cs) : splitAtLastColon cs = none := by
  have hall : ∀ c ∈ cs.reverse, decide (c ≠ ':') = true := fun c hc =>
    decide_eq_true fun hcolon => h (List.mem_reverse.mp (hcolon ▸ hc))
  unfold splitAtLastColon
  rw [List.takeWhile_eq_self_iff.mpr hall, List.reverse_reverse]
  exact if_neg (Nat.lt_irrefl _)

theorem splitAtLastColon_eq_some {cs host port : List Char} :
    splitAtLastColon cs = some (host, port) ↔ cs = host ++ ':' :: port ∧ ':' ∉ port := by
  constructor
  · intro h
    by_cases hcolon : ':' ∈ cs
    · -- The last colon is the first one from behind.
      obtain ⟨back, front, hback, hnone⟩ := List.eq_append_cons_of_mem (List.mem_reverse.mpr hcolon)
      have hcs : cs = front.reverse ++ ':' :: back.reverse := by
        rw [← List.reverse_reverse cs, hback]
        simp
      have hnone' : ':' ∉ back.reverse := mt List.mem_reverse.mp hnone
      rw [hcs, splitAtLastColon_of_split hnone'] at h
      cases h
      exact ⟨hcs, hnone'⟩
    · rw [splitAtLastColon_of_none hcolon] at h
      cases h
  · rintro ⟨rfl, h⟩
    exact splitAtLastColon_of_split h host

namespace TransferInfo

theorem isAddress_iff {s : String} : isAddress s = true ↔ IsAddress s := by
  unfold isAddress
  constructor
  · intro h
    split at h
    · next host port hsplit =>
      obtain ⟨hs, hcolon⟩ := splitAtLastColon_eq_some.mp hsplit
      rw [Bool.and_eq_true, Bool.not_eq_true', List.isEmpty_eq_false_iff] at h
      exact ⟨host, port, hs, hcolon, h.1, port_isSome.mp h.2⟩
    · cases h
  · rintro ⟨host, port, hs, hcolon, hhost, hport⟩
    rw [splitAtLastColon_eq_some.mpr ⟨hs, hcolon⟩]
    show (!host.isEmpty && (port? port).isSome) = true
    rw [port_isSome.mpr hport, List.isEmpty_eq_false_iff.mpr hhost]
    rfl

/-! ## §2 Transfer files -/

/-- The text says this: its first rows are an address, a name that fits into a name field, and a
path, none of them empty, and all other rows are empty. -/
def Says (s : String) (t : TransferInfo) : Prop :=
  ∃ file rest, rows s = t.server :: t.name :: file :: rest ∧
    (∀ row ∈ [t.server, t.name, file], row ≠ "") ∧ (∀ row ∈ rest, row = "") ∧
    IsAddress t.server ∧ t.name.utf8ByteSize ≤ nameCapacity ∧ t.file = Path.ofText file

theorem threeLines_eq_ok_iff_rows {first second third s a b c : String} :
    threeLines first second third s = .ok (a, b, c) ↔ ∃ rest, rows s = a :: b :: c :: rest ∧
      (∀ row ∈ [a, b, c], row ≠ "") ∧ ∀ row ∈ rest, row = "" := by
  rw [threeLines_eq_ok_iff_exactLines, exactLines_eq_rows, judgeLines_eq_ok]
  constructor
  · rintro ⟨rest, hrows, -, hall, hrest⟩
    exact ⟨rest, hrows, hall, hrest⟩
  · rintro ⟨rest, hrows, hall, hrest⟩
    exact ⟨rest, hrows, rfl, hall, hrest⟩

/-- What is made of three lines. -/
theorem ofText_eq_ok_iff_threeLines {s : String} {t : TransferInfo} : ofText s = .ok t ↔ ∃ file,
    threeLines "server address" "client name" "file path" s = .ok (t.server, t.name, file) ∧
      IsAddress t.server ∧ t.name.utf8ByteSize ≤ nameCapacity ∧ t.file = Path.ofText file := by
  unfold ofText
  rw [bind_eq_ok]
  constructor
  · rintro ⟨⟨server, name, file⟩, hlines, h⟩
    cases haddress : isAddress server with
    | false =>
      simp only [haddress, Bool.not_false, ↓reduceIte] at h
      cases h
    | true =>
      simp only [haddress, Bool.not_true, Bool.false_eq_true, ↓reduceIte] at h
      split at h
      · cases h
      · next hname =>
        cases h
        exact ⟨file, hlines, isAddress_iff.mp haddress, Nat.not_lt.mp hname, rfl⟩
  · rintro ⟨file, hlines, haddress, hname, hfile⟩
    refine ⟨(t.server, t.name, file), hlines, ?_⟩
    simp only [isAddress_iff.mpr haddress, Nat.not_lt.mpr hname, Bool.not_true,
      Bool.false_eq_true, ↓reduceIte, ← hfile]
    rfl

/-- **A transfer file is read as what it says**, and is refused if it says nothing. -/
theorem ofText_eq_ok_iff {s : String} {t : TransferInfo} : ofText s = .ok t ↔ Says s t := by
  rw [ofText_eq_ok_iff_threeLines]
  constructor
  · rintro ⟨file, hlines, hrest⟩
    obtain ⟨rest, hrows, hall, hempty⟩ := threeLines_eq_ok_iff_rows.mp hlines
    exact ⟨file, rest, hrows, hall, hempty, hrest⟩
  · rintro ⟨file, rest, hrows, hall, hempty, hrest⟩
    exact ⟨file, threeLines_eq_ok_iff_rows.mpr ⟨rest, hrows, hall, hempty⟩, hrest⟩

/-- Only the rows count, and of them not the empty ones at the end. -/
theorem ofText_congr {s s' : String} {more : List String} (h : ∀ row ∈ more, row = "")
    (hrows : rows s' = rows s ++ more) : ofText s' = ofText s := by
  unfold ofText threeLines
  rw [exactLines_congr h hrows]

theorem ofText_congr_rows {s s' : String} (h : rows s' = rows s) : ofText s' = ofText s := by
  have hrows : rows s' = rows s ++ [] := by rw [h, List.append_nil]
  exact ofText_congr (List.forall_mem_nil _) hrows

/-- What was read is written on three lines, and read back from them. -/
theorem ofText_text {s : String} {t : TransferInfo} (h : ofText s = .ok t) :
    ofText t.text = .ok t := by
  obtain ⟨file, hlines, hserver, hname, hfile⟩ := ofText_eq_ok_iff_threeLines.mp h
  obtain ⟨hserver', hname', hfile'⟩ := isField_of_threeLines hlines
  have hdisplay : t.file.display = file := by
    rw [hfile, Path.display, Path.ofText, Text.lossy, Reader.fromUTF8_ofText]
  refine ofText_eq_ok_iff_threeLines.mpr ⟨file, ?_, hserver, hname, hfile⟩
  rw [text, hdisplay]
  exact threeLines_join hserver' hname' hfile'

/-- What is told of a text that is read as a transfer file. -/
structure Judged (s : String) : Prop where
  /-- It is read as what it says. -/
  reads : ∀ t, ofText s = .ok t ↔ Says s t
  /-- Carriage returns in front of its line feeds make no difference. -/
  returns : ofText (String.ofList (withReturns s.toList)) = ofText s
  /-- White space around its lines makes no difference. -/
  padded : ∀ s', List.Forall₂ Padded (pieces s) (pieces s') → ofText s' = ofText s
  /-- White space after it makes no difference, with or without line feeds. -/
  trailing : ∀ w, (∀ c ∈ w.toList, isBlank c = true) → ofText (s ++ w) = ofText s
  /-- What was read is read again once it was written on three lines. -/
  again : ∀ t, ofText s = .ok t → ofText t.text = .ok t

/-- **A transfer file is read as its rows have it**, whatever white space there is around them. -/
theorem ofText_judged (s : String) : Judged s where
  reads _ := ofText_eq_ok_iff
  returns := by
    apply ofText_congr_rows
    apply rows_of_padded
    rw [pieces, pieces, String.toList_ofList]
    exact padded_withReturns s.toList
  padded _ h := ofText_congr_rows (rows_of_padded h)
  trailing _ h := by
    obtain ⟨more, hmore, hrows⟩ := rows_append_blank s h
    exact ofText_congr hmore hrows
  again _ h := ofText_text h

/-- A file with an address of many colons, a sign before the port, and an empty line in the end. -/
def looseFile : String := " ::1:+080\r\nnaïve\t\n notes.txt\n\n"

theorem says_looseFile : Says looseFile ⟨"::1:+080", "naïve", Path.ofText "notes.txt"⟩ := by
  have hport : IsDecimal 65536 "+080".toList :=
    ⟨['0', '8', '0'], .inr rfl, by decide, by simp, by decide⟩
  refine ⟨"notes.txt", ["", ""], by decide, by decide, by decide, ?_, by decide, rfl⟩
  exact ⟨"::1".toList, "+080".toList, by decide, by decide, by decide, hport⟩

/-- It is read as what it says, also with carriage returns. -/
theorem ofText_judged_looseFile :
    ofText looseFile = .ok ⟨"::1:+080", "naïve", Path.ofText "notes.txt"⟩ ∧
      ofText (String.ofList (withReturns looseFile.toList)) = ofText looseFile :=
  ⟨((ofText_judged looseFile).reads _).mpr says_looseFile, (ofText_judged looseFile).returns⟩

end TransferInfo

end BackupVault
