import BackupVault.Config.Lines
import BackupVault.Proofs.Outcome
import BackupVault.Proofs.Text.Blank
import BackupVault.Proofs.Text.Lines

/-!
# Files of a few lines are read back

What is read from a line of such a file is a text of a certain form, and texts of this form, each
put on a line of its own, are read back as they are.

## Overview

- `IsField`: a text that may be on a line
- `trimmedLines_join`: the lines of a file that is put together
- `labelledLines_eq_ok`: which lines are found
- `judgeLines`, `judgeLines_append`: empty lines at the end make no difference
- `threeLines_join`, `isField_of_threeLines`: three lines, written and read
-/

set_option autoImplicit false

namespace BackupVault

open Text (joinLines)

/-- The text may be on a line of its own: it is not empty, there is no white space around it, and
it has no line feed in it. -/
structure IsField (s : String) : Prop where
  nonempty : s ≠ ""
  trimmed : Text.trim s = s
  noBreak : '\n' ∉ s.toList

/-- A text without any white space is one. -/
theorem isField_of_no_blank {s : String} (hne : s ≠ "")
    (h : ∀ c ∈ s.toList, Text.isBlank c = false) : IsField s where
  nonempty := hne
  trimmed := by rw [Text.trim, Text.trimChars_of_no_blank h, String.ofList_toList]
  noBreak hmem := by
    have hblank := h _ hmem
    cases hblank

namespace IsField

variable {s : String}

theorem isLine (h : IsField s) : Text.IsLine s := by
  have htrimmed : Text.trimChars s.toList = s.toList := by
    have hchars := congrArg String.toList h.trimmed
    rwa [Text.trim, String.toList_ofList] at hchars
  exact ⟨h.nonempty, h.noBreak, Text.getLast_ne_of_trimChars htrimmed rfl⟩

/-- On a line of its own it is all there is on the line. -/
theorem lines_eq (h : IsField s) : Text.lines (s ++ "\n") = [s] := by
  have hbreak : "\n".toList = ['\n'] := rfl
  obtain ⟨-, hnone, hreturn⟩ := h.isLine
  rw [Text.lines, String.toList_append, hbreak, Text.lineChars_of_break hnone,
    Text.lineChars_nil, Text.stripReturn_eq_self.mpr hreturn, List.map_singleton,
    String.ofList_toList]

end IsField

variable {s : String} {fields labels lines found rest : List String}

theorem trimmedLines_join (h : ∀ s ∈ fields, IsField s) :
    trimmedLines (joinLines fields) = fields := by
  rw [trimmedLines, Text.lines_join]
  induction fields with
  | nil => rfl
  | cons s fields ih =>
    rw [List.forall_mem_cons] at h
    rw [List.flatMap_cons, h.1.lines_eq, List.map_append, ih h.2, List.map_singleton,
      h.1.trimmed]
    rfl

theorem trimmedLines_append (s rest : String) :
    trimmedLines (s ++ "\n" ++ rest) = trimmedLines (s ++ "\n") ++ trimmedLines rest := by
  rw [trimmedLines, Text.lines_append, List.map_append]
  rfl

/-- The carriage return that may belong to a line break is white space. -/
theorem trimChars_stripReturn (cs : List Char) :
    Text.trimChars (Text.stripReturn cs) = Text.trimChars cs := by
  unfold Text.stripReturn
  split
  · rename_i hlast
    have hsplit := List.dropLast_append_getLast? _ hlast
    rw [← Text.trimChars_append_blank (c := '\r') rfl, hsplit]
  · rfl

/-- A text without a line feed is on one line, and trimmed there. -/
theorem trimmedLines_of_no_break (h : '\n' ∉ s.toList) :
    trimmedLines (s ++ "\n") = [Text.trim s] := by
  have hbreak : "\n".toList = ['\n'] := rfl
  rw [trimmedLines, Text.lines, String.toList_append, hbreak, Text.lineChars_of_break h,
    Text.lineChars_nil, List.map_singleton, List.map_singleton, Text.trim, String.toList_ofList,
    trimChars_stripReturn]
  rfl

/-- A text with a line feed is on two lines at least. -/
theorem length_trimmedLines_of_break (h : '\n' ∈ s.toList) :
    2 ≤ (trimmedLines (s ++ "\n")).length := by
  have hbreak : "\n".toList = ['\n'] := rfl
  rcases Text.break_cases s.toList with hnone | ⟨first, more, hsplit, hfirst⟩
  · exact absurd h hnone
  · rw [trimmedLines, Text.lines, String.toList_append, hbreak, hsplit, List.append_assoc,
      List.cons_append, Text.lineChars_of_break hfirst]
    have hmore := Text.lineChars_ne_nil more
    simp only [List.map_cons, List.length_cons, List.length_map]
    have hpos := List.length_pos_iff.mpr hmore
    omega

/-- What is read from a line, and is not empty, may be on a line of its own. -/
theorem isField_of_mem_trimmedLines {text : String} (h : s ∈ trimmedLines text) (hne : s ≠ "") :
    IsField s := by
  obtain ⟨line, hline, rfl⟩ := List.mem_map.mp h
  obtain ⟨cs, hcs, rfl⟩ := List.mem_map.mp hline
  refine ⟨hne, Text.trim_trim _, fun hmem => Text.lineChars_no_break _ cs hcs ?_⟩
  -- Trimming adds no line feeds.
  rw [Text.trim, String.toList_ofList, String.toList_ofList] at hmem
  exact Text.mem_of_mem_trimChars hmem

/-- The lines that are found are the first ones, one for each label, and none of them is empty. -/
theorem labelledLines_eq_ok : labelledLines labels lines = .ok (found, rest) ↔
    lines = found ++ rest ∧ found.length = labels.length ∧ ∀ s ∈ found, s ≠ "" := by
  induction labels generalizing lines found with
  | nil =>
    simp only [labelledLines, Except.ok.injEq, Prod.mk.injEq, List.length_nil,
      List.length_eq_zero_iff]
    constructor
    · rintro ⟨rfl, rfl⟩
      exact ⟨rfl, rfl, nofun⟩
    · rintro ⟨rfl, rfl, -⟩
      exact ⟨rfl, rfl⟩
  | cons label labels ih =>
    cases lines with
    | nil =>
      simp only [labelledLines, reduceCtorEq, false_iff, not_and]
      intro hnil hlength
      rw [(List.append_eq_nil_iff.mp hnil.symm).1] at hlength
      cases hlength
    | cons line lines =>
      rw [labelledLines]
      by_cases hempty : line = ""
      · rw [if_pos hempty]
        simp only [reduceCtorEq, false_iff, not_and]
        intro heq hlength hall
        cases found with
        | nil => cases hlength
        | cons s found => exact hall s List.mem_cons_self ((List.cons.inj heq).1.symm.trans hempty)
      · rw [if_neg hempty, bind_eq_ok]
        constructor
        · rintro ⟨⟨found', rest'⟩, hfound, ⟨⟩⟩
          obtain ⟨rfl, hlength, hall⟩ := ih.mp hfound
          exact ⟨rfl, congrArg Nat.succ hlength, List.forall_mem_cons.mpr ⟨hempty, hall⟩⟩
        · rintro ⟨heq, hlength, hall⟩
          cases found with
          | nil => cases hlength
          | cons s found =>
            obtain ⟨rfl, rfl⟩ := List.cons.inj heq
            have hrest := (List.forall_mem_cons.mp hall).2
            exact ⟨(found, rest), ih.mpr ⟨rfl, Nat.succ.inj hlength, hrest⟩, rfl⟩

/-- What is found of some lines, if there is nothing after them. -/
def judgeLines (labels lines : List String) : Except LineFault (List String) := do
  let (found, rest) ← labelledLines labels lines
  if rest.any (· ≠ "") then throw (.surplus labels.length)
  return found

theorem exactLines_eq (labels : List String) (s : String) :
    exactLines labels s = judgeLines labels (trimmedLines s) := rfl

/-- Exactly these lines are found if they come first, one for each label, and only empty lines come
after them. -/
theorem judgeLines_eq_ok : judgeLines labels lines = .ok found ↔
    ∃ rest, lines = found ++ rest ∧ found.length = labels.length ∧
      (∀ s ∈ found, s ≠ "") ∧ ∀ s ∈ rest, s = "" := by
  have hempty {rest : List String} : rest.any (· ≠ "") = false ↔ ∀ s ∈ rest, s = "" := by
    simp [List.any_eq_false]
  constructor
  · intro h
    obtain ⟨⟨found', rest⟩, hfound, hrest⟩ := bind_eq_ok.mp h
    obtain ⟨hlines, hlength, hall⟩ := labelledLines_eq_ok.mp hfound
    cases hsurplus : rest.any (· ≠ "") with
    | true =>
      simp only [hsurplus, ↓reduceIte] at hrest
      cases hrest
    | false =>
      simp only [hsurplus, Bool.false_eq_true, ↓reduceIte] at hrest
      cases hrest
      exact ⟨rest, hlines, hlength, hall, hempty.mp hsurplus⟩
  · rintro ⟨rest, hlines, hlength, hall, hrest⟩
    refine bind_eq_ok.mpr ⟨(found, rest), labelledLines_eq_ok.mpr ⟨hlines, hlength, hall⟩, ?_⟩
    simp only [hempty.mpr hrest, Bool.false_eq_true, ↓reduceIte]
    rfl

theorem exactLines_eq_ok {text : String} : exactLines labels text = .ok found ↔
    ∃ rest, trimmedLines text = found ++ rest ∧ found.length = labels.length ∧
      (∀ s ∈ found, s ≠ "") ∧ ∀ s ∈ rest, s = "" := judgeLines_eq_ok

/-- An empty line at the end is left over, or missed as a line that is not there. -/
theorem labelledLines_append (labels lines : List String) : labelledLines labels (lines ++ [""]) =
    (labelledLines labels lines).map fun (found, rest) => (found, rest ++ [""]) := by
  induction labels generalizing lines with
  | nil => rfl
  | cons label labels ih =>
    cases lines with
    | nil => rfl
    | cons line lines =>
      rw [List.cons_append, labelledLines, labelledLines, ih]
      by_cases hempty : line = ""
      · rw [if_pos hempty, if_pos hempty]
        rfl
      · rw [if_neg hempty, if_neg hempty]
        cases labelledLines labels lines <;> rfl

theorem judgeLines_append_empty (labels lines : List String) :
    judgeLines labels (lines ++ [""]) = judgeLines labels lines := by
  rw [judgeLines, judgeLines, labelledLines_append]
  cases labelledLines labels lines with
  | error fault => rfl
  | ok found =>
    obtain ⟨found, rest⟩ := found
    have hany : (rest ++ [""]).any (· ≠ "") = rest.any (· ≠ "") := by simp
    show (if (rest ++ [""]).any (· ≠ "") then _ else _) = if rest.any (· ≠ "") then _ else _
    rw [hany]

/-- Empty lines at the end make no difference; by induction on the number of them. -/
theorem judgeLines_append (labels : List String) {lines more : List String}
    (h : ∀ line ∈ more, line = "") :
    judgeLines labels (lines ++ more) = judgeLines labels lines := by
  induction more generalizing lines with
  | nil => rw [List.append_nil]
  | cons line more ih =>
    rw [List.forall_mem_cons] at h
    obtain ⟨rfl, hmore⟩ := h
    rw [List.append_cons, ih hmore, judgeLines_append_empty]

/-- Lines that may be lines are read back as they are. -/
theorem exactLines_join (hlength : fields.length = labels.length) (h : ∀ s ∈ fields, IsField s) :
    exactLines labels (joinLines fields) = .ok fields := by
  refine exactLines_eq_ok.mpr ⟨[], ?_, hlength, fun s hs => (h s hs).nonempty, nofun⟩
  rw [trimmedLines_join h, List.append_nil]

/-- Whatever is read may be written on lines, and there is a line for each label. -/
theorem isField_of_exactLines {text : String} (h : exactLines labels text = .ok found) :
    found.length = labels.length ∧ ∀ s ∈ found, IsField s := by
  obtain ⟨rest, hlines, hlength, hall, -⟩ := exactLines_eq_ok.mp h
  refine ⟨hlength, fun s hs => ?_⟩
  have hmem : s ∈ trimmedLines text := by
    rw [hlines]
    exact List.mem_append_left rest hs
  exact isField_of_mem_trimmedLines hmem (hall s hs)

section ThreeLines

variable {first second third a b c : String}

theorem threeLines_eq_ok_iff_exactLines : threeLines first second third s = .ok (a, b, c) ↔
    exactLines [first, second, third] s = .ok [a, b, c] := by
  constructor
  · intro h
    obtain ⟨found, hfound, hthree⟩ := bind_eq_ok.mp h
    split at hthree
    · cases hthree
      exact hfound
    · cases hthree
  · intro h
    exact bind_eq_ok.mpr ⟨[a, b, c], h, rfl⟩

/-- Three lines are read if they come first, and only empty lines come after them. -/
theorem threeLines_eq_ok : threeLines first second third s = .ok (a, b, c) ↔
    ∃ rest, trimmedLines s = a :: b :: c :: rest ∧ (∀ line ∈ [a, b, c], line ≠ "") ∧
      ∀ line ∈ rest, line = "" := by
  rw [threeLines_eq_ok_iff_exactLines, exactLines_eq_ok]
  constructor
  · rintro ⟨rest, hlines, -, hall, hrest⟩
    exact ⟨rest, hlines, hall, hrest⟩
  · rintro ⟨rest, hlines, hall, hrest⟩
    exact ⟨rest, hlines, rfl, hall, hrest⟩

theorem threeLines_join (ha : IsField a) (hb : IsField b) (hc : IsField c) :
    threeLines first second third (a ++ "\n" ++ b ++ "\n" ++ c ++ "\n") = .ok (a, b, c) := by
  have hjoin : a ++ "\n" ++ b ++ "\n" ++ c ++ "\n" = joinLines [a, b, c] := by
    simp only [joinLines, List.foldr_cons, List.foldr_nil, String.append_assoc, String.append_empty]
  have hfields : ∀ s ∈ [a, b, c], IsField s := by simp [ha, hb, hc]
  rw [threeLines_eq_ok_iff_exactLines, hjoin]
  exact exactLines_join rfl hfields

theorem isField_of_threeLines (h : threeLines first second third s = .ok (a, b, c)) :
    IsField a ∧ IsField b ∧ IsField c := by
  obtain ⟨-, hfields⟩ := isField_of_exactLines (threeLines_eq_ok_iff_exactLines.mp h)
  exact ⟨hfields _ (by simp), hfields _ (by simp), hfields _ (by simp)⟩

end ThreeLines

end BackupVault
