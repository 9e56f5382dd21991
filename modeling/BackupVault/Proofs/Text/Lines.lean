import BackupVault.Text.Lines

/-!
# Lines of a text that is put together

A text of pieces that each end in a line feed has the lines of these pieces; a piece that is a line
comes out as it is, and no other text of one piece does.

## Overview

- `Text.line_induction`: induction from one line feed to the next
- `Text.lineChars_append`: the lines of two pieces
- `Text.lineChars_no_break`: a line has no line feed in it
- `Text.lines_join`: the lines of any number of pieces
- `Text.IsLine`, `Text.flatMap_shown_eq_iff`: which texts come out as they are
-/

set_option autoImplicit false

namespace BackupVault.Text

/-! ## §1 Characters -/

theorem breakLine_of_break {cs : List Char} (h : '\n' ∉ cs) (rest : List Char) :
    breakLine (cs ++ '\n' :: rest) = (cs, some rest) := by
  induction cs with
  | nil => rfl
  | cons c cs ih =>
    rw [List.mem_cons, not_or] at h
    rw [List.cons_append, breakLine, ih h.2]
    rintro rfl
    exact h.1 rfl

theorem breakLine_of_none {cs : List Char} (h : '\n' ∉ cs) : breakLine cs = (cs, none) := by
  induction cs with
  | nil => rfl
  | cons c cs ih =>
    rw [List.mem_cons, not_or] at h
    rw [breakLine, ih h.2]
    rintro rfl
    exact h.1 rfl

theorem lineChars_nil : lineChars [] = [] := by
  rw [lineChars]
  rfl

/-- A first line, and those after it. -/
theorem lineChars_of_break {cs : List Char} (h : '\n' ∉ cs) (rest : List Char) :
    lineChars (cs ++ '\n' :: rest) = stripReturn cs :: lineChars rest := by
  have hbreak := breakLine_of_break h rest
  rw [lineChars]
  split
  · rename_i heq
    cases hbreak.symm.trans heq
  · rename_i heq
    cases hbreak.symm.trans heq
  · rename_i heq
    cases hbreak.symm.trans heq
    rfl

/-- A last line without a line feed. -/
theorem lineChars_of_none {cs : List Char} (h : '\n' ∉ cs) :
    lineChars cs = if cs = [] then [] else [cs] := by
  have hbreak := breakLine_of_none h
  rw [lineChars]
  split
  · rename_i heq
    cases hbreak.symm.trans heq
    rfl
  · rename_i hne heq
    cases hbreak.symm.trans heq
    rw [if_neg hne]
  · rename_i heq
    cases hbreak.symm.trans heq

/-- Any characters are a line without a line feed, or go on after their first one. -/
theorem break_cases (cs : List Char) :
    '\n' ∉ cs ∨ ∃ line rest, cs = line ++ '\n' :: rest ∧ '\n' ∉ line := by
  by_cases h : '\n' ∈ cs
  · exact .inr (List.eq_append_cons_of_mem h)
  · exact .inl h

/-- Induction from one line feed to the next: over a last line without one, and over a first line
in front of one. -/
@[elab_as_elim]
theorem line_induction {P : List Char → Prop} (last : ∀ cs, '\n' ∉ cs → P cs)
    (next : ∀ line rest, '\n' ∉ line → P rest → P (line ++ '\n' :: rest)) (cs : List Char) :
    P cs := by
  rcases break_cases cs with h | ⟨line, rest, rfl, h⟩
  · exact last cs h
  · exact next line rest h (line_induction last next rest)
termination_by cs.length
decreasing_by simp_all; omega

/-- Characters that end in a line feed have a first line. -/
theorem lineChars_ne_nil (cs : List Char) : lineChars (cs ++ ['\n']) ≠ [] := by
  rcases break_cases cs with h | ⟨line, rest, rfl, h⟩
  · rw [lineChars_of_break h]
    exact List.cons_ne_nil _ _
  · rw [List.append_assoc, List.cons_append, lineChars_of_break h]
    exact List.cons_ne_nil _ _

/-- What ends in a line feed has its lines, whatever comes after it. -/
theorem lineChars_append (cs rest : List Char) :
    lineChars (cs ++ '\n' :: rest) = lineChars (cs ++ ['\n']) ++ lineChars rest := by
  induction cs using line_induction with
  | last cs h =>
    rw [lineChars_of_break h, lineChars_of_break h, lineChars_nil]
    rfl
  | next line more h ih =>
    rw [List.append_assoc, List.cons_append, lineChars_of_break h, ih, List.append_assoc,
      List.cons_append, lineChars_of_break h, List.cons_append]

theorem stripReturn_sublist (line : List Char) : (stripReturn line).Sublist line := by
  unfold stripReturn
  split
  · exact List.dropLast_sublist line
  · exact .refl line

/-- No line has a line feed in it. -/
theorem lineChars_no_break (cs : List Char) : ∀ line ∈ lineChars cs, '\n' ∉ line := by
  induction cs using line_induction with
  | last cs h =>
    intro line hline
    rw [lineChars_of_none h] at hline
    split at hline
    · cases hline
    · rwa [List.mem_singleton.mp hline]
  | next first more h ih =>
    rw [lineChars_of_break h, List.forall_mem_cons]
    exact ⟨fun hmem => h ((stripReturn_sublist first).mem hmem), ih⟩

theorem stripReturn_eq_self {line : List Char} :
    stripReturn line = line ↔ line.getLast? ≠ some '\r' := by
  unfold stripReturn
  split
  · rename_i hlast
    refine ⟨fun heq => ?_, fun hne => absurd hlast hne⟩
    -- Something was taken off the end.
    have hpos : 0 < line.length := by
      refine List.length_pos_iff.mpr ?_
      rintro rfl
      cases hlast
    have hlength := congrArg List.length heq
    rw [List.length_dropLast] at hlength
    omega
  · rename_i hlast
    exact ⟨fun _ => hlast, fun _ => rfl⟩

/-! ## §2 Texts -/

/-- The pieces, each with a line feed at its end, one after another. -/
def joinLines (pieces : List String) : String :=
  pieces.foldr (fun s rest => s ++ "\n" ++ rest) ""

theorem lines_append (s rest : String) :
    lines (s ++ "\n" ++ rest) = lines (s ++ "\n") ++ lines rest := by
  have hbreak : "\n".toList = ['\n'] := rfl
  simp only [lines, String.toList_append, hbreak, List.append_assoc, List.singleton_append]
  rw [lineChars_append, List.map_append]

/-- The lines of the pieces are all there is, by induction on the pieces. -/
theorem lines_join (pieces : List String) :
    lines (joinLines pieces) = pieces.flatMap fun s => lines (s ++ "\n") := by
  induction pieces with
  | nil =>
    change (lineChars []).map String.ofList = []
    rw [lineChars_nil, List.map_nil]
  | cons s pieces ih =>
    change lines (s ++ "\n" ++ joinLines pieces) = _
    rw [lines_append, ih, List.flatMap_cons]

/-- What is shown of a text that is put on lines of its own: the lines of it that are not empty. -/
def shown (s : String) : List String := (lines (s ++ "\n")).filter (· ≠ "")

/-- The text is a line: it is not empty, it has no line feed in it, and it does not end in a
carriage return. -/
def IsLine (s : String) : Prop := s ≠ "" ∧ '\n' ∉ s.toList ∧ s.toList.getLast? ≠ some '\r'

theorem filter_lines_join (pieces : List String) :
    (lines (joinLines pieces)).filter (· ≠ "") = pieces.flatMap shown := by
  rw [lines_join, List.filter_flatMap]
  rfl

theorem shown_no_break {s line : String} (h : line ∈ shown s) : '\n' ∉ line.toList := by
  obtain ⟨cs, hcs, rfl⟩ := List.mem_map.mp (List.mem_filter.mp h).1
  rw [String.toList_ofList]
  exact lineChars_no_break _ cs hcs

/-- A text without a line feed is shown on one line, if at all. -/
theorem shown_of_no_break {s : String} (h : '\n' ∉ s.toList) :
    shown s = [String.ofList (stripReturn s.toList)].filter (· ≠ "") := by
  have hbreak : "\n".toList = ['\n'] := rfl
  rw [shown, lines, String.toList_append, hbreak, lineChars_of_break h, lineChars_nil]
  rfl

theorem shown_of_isLine {s : String} (h : IsLine s) : shown s = [s] := by
  obtain ⟨hne, hbreak, hreturn⟩ := h
  rw [shown_of_no_break hbreak, stripReturn_eq_self.mpr hreturn, String.ofList_toList]
  simp [hne]

/-- Texts without line feeds are shown on no more lines than there are texts. -/
theorem length_flatMap_shown_le {pieces : List String} (h : ∀ s ∈ pieces, '\n' ∉ s.toList) :
    (pieces.flatMap shown).length ≤ pieces.length := by
  induction pieces with
  | nil => exact Nat.le_refl _
  | cons s pieces ih =>
    rw [List.forall_mem_cons] at h
    have hfirst : (shown s).length ≤ 1 := by
      rw [shown_of_no_break h.1]
      exact List.length_filter_le _ _
    have hrest := ih h.2
    rw [List.flatMap_cons, List.length_append, List.length_cons]
    omega

/-- Texts without line feeds that come out as they are were lines: since none of them is shown on
more than one line, each has to be shown on one. -/
theorem isLine_of_flatMap_shown {pieces : List String} (hbreaks : ∀ s ∈ pieces, '\n' ∉ s.toList)
    (h : pieces.flatMap shown = pieces) : ∀ s ∈ pieces, IsLine s := by
  induction pieces with
  | nil => exact fun s hs => absurd hs List.not_mem_nil
  | cons s pieces ih =>
    rw [List.forall_mem_cons] at hbreaks
    rw [List.flatMap_cons, shown_of_no_break hbreaks.1] at h
    by_cases hempty : String.ofList (stripReturn s.toList) = ""
    · -- Then there would be too few.
      have hrest := length_flatMap_shown_le hbreaks.2
      rw [List.filter_cons_of_neg (by simpa using hempty), List.filter_nil, List.nil_append] at h
      rw [h, List.length_cons] at hrest
      omega
    · simp only [hempty, List.filter_cons, ne_eq, not_false_eq_true, decide_true, ↓reduceIte,
        List.filter_nil, List.singleton_append, List.cons.injEq] at h
      obtain ⟨hsame, hrest⟩ := h
      have hline : IsLine s := by
        refine ⟨?_, hbreaks.1, stripReturn_eq_self.mp ?_⟩
        · rwa [hsame] at hempty
        · simpa using congrArg String.toList hsame
      rw [List.forall_mem_cons]
      exact ⟨hline, ih hbreaks.2 hrest⟩

/-- Texts come out as they are exactly if all of them are lines. -/
theorem flatMap_shown_eq_iff (pieces : List String) :
    pieces.flatMap shown = pieces ↔ ∀ s ∈ pieces, IsLine s := by
  constructor
  · intro h
    refine isLine_of_flatMap_shown (fun s hs => ?_) h
    rw [← h] at hs
    obtain ⟨t, -, ht⟩ := List.mem_flatMap.mp hs
    exact shown_no_break ht
  · intro h
    induction pieces with
    | nil => rfl
    | cons s pieces ih =>
      rw [List.forall_mem_cons] at h
      rw [List.flatMap_cons, shown_of_isLine h.1, ih h.2, List.singleton_append]

end BackupVault.Text
