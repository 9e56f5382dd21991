import BackupVault.Proofs.Config.Lines

/-!
# Rows of a text

The lines of a file, trimmed, are the pieces between its line feeds without the white space around
them.  So it does not matter whether there are carriage returns before the line feeds, whether there
is white space around the lines, and what white space follows the last of them.

## Overview

- `pieces`, `rows`: the pieces of a text, as they are and trimmed
- `rows_eq`, `exactLines_congr`: lines are judged by the rows
- `Padded`, `rows_of_padded`, `padded_withReturns`: white space around lines
- `rows_append_blank`: white space at the end
-/

set_option autoImplicit false

namespace BackupVault

open Text (isBlank trimChars lineChars stripReturn)

/-! ## §1 Rows -/

/-- The pieces of a text between its line feeds. -/
def pieces (s : String) : List (List Char) := s.toList.splitOn '\n'

/-- A piece without the white space around it. -/
def rowOf (cs : List Char) : String := String.ofList (trimChars cs)

/-- The pieces of a text, each without the white space around it. -/
def rows (s : String) : List String := (pieces s).map rowOf

theorem splitOn_of_none {cs : List Char} (h : '\n' ∉ cs) : cs.splitOn '\n' = [cs] := by
  apply List.splitOnP_eq_singleton
  rintro c hc
  exact beq_false_of_ne fun hbreak => h (hbreak ▸ hc)

theorem splitOn_append (cs rest : List Char) :
    (cs ++ '\n' :: rest).splitOn '\n' = cs.splitOn '\n' ++ rest.splitOn '\n' :=
  List.splitOnP_append_cons cs rest (beq_self_eq_true '\n')

/-- The lines, trimmed, are the rows, but for an empty one after the last line feed. -/
theorem rowOf_lineChars (cs : List Char) : ∃ more ⊆ [""],
    (cs.splitOn '\n').map rowOf = (lineChars cs).map rowOf ++ more := by
  induction cs using Text.line_induction with
  | last cs h =>
    rw [splitOn_of_none h, Text.lineChars_of_none h]
    split
    · next hnil => exact ⟨[""], List.Subset.refl _, by rw [hnil]; rfl⟩
    · exact ⟨[], List.nil_subset _, rfl⟩
  | next line rest h ih =>
    obtain ⟨more, hmore, hrest⟩ := ih
    have hline : rowOf (stripReturn line) = rowOf line :=
      congrArg String.ofList (trimChars_stripReturn line)
    refine ⟨more, hmore, ?_⟩
    rw [splitOn_append, splitOn_of_none h, Text.lineChars_of_break h, List.map_append, hrest,
      List.map_singleton, List.map_cons, hline]
    rfl

theorem rows_eq (s : String) : ∃ more, (∀ row ∈ more, row = "") ∧
    rows s = trimmedLines s ++ more := by
  obtain ⟨more, hmore, hrows⟩ := rowOf_lineChars s.toList
  refine ⟨more, fun row hrow => List.mem_singleton.mp (hmore hrow), ?_⟩
  rw [rows, pieces, hrows, trimmedLines, Text.lines, List.map_map]
  congr 2
  funext cs
  rw [Function.comp, Text.trim, String.toList_ofList, rowOf]

/-- Lines are judged by the rows of the text. -/
theorem exactLines_eq_rows (labels : List String) (s : String) :
    exactLines labels s = judgeLines labels (rows s) := by
  obtain ⟨more, hmore, hrows⟩ := rows_eq s
  rw [exactLines_eq, hrows, judgeLines_append labels hmore]

/-- Two texts whose rows are the same, but for empty ones at the end, are judged alike. -/
theorem exactLines_congr {s s' : String} {more : List String} (h : ∀ row ∈ more, row = "")
    (hrows : rows s' = rows s ++ more) (labels : List String) :
    exactLines labels s' = exactLines labels s := by
  rw [exactLines_eq_rows, exactLines_eq_rows, hrows, judgeLines_append labels h]

/-! ## §2 White space -/

/-- White space was put around a piece. -/
def Padded (cs cs' : List Char) : Prop := ∃ before after, cs' = before ++ cs ++ after ∧
  (∀ c ∈ before, isBlank c = true) ∧ ∀ c ∈ after, isBlank c = true

theorem Padded.refl (cs : List Char) : Padded cs cs := ⟨[], [], by simp, nofun, nofun⟩

theorem Padded.after {after : List Char} (h : ∀ c ∈ after, isBlank c = true) (cs : List Char) :
    Padded cs (cs ++ after) := ⟨[], after, rfl, nofun, h⟩

/-- White space around a piece is trimmed off. -/
theorem Padded.rowOf_eq {cs cs' : List Char} (h : Padded cs cs') : rowOf cs' = rowOf cs := by
  obtain ⟨before, after, rfl, hbefore, hafter⟩ := h
  rw [rowOf, rowOf, Text.trimChars_append_blanks hafter, Text.trimChars_blanks_append hbefore]

theorem map_rowOf_of_padded {ps ps' : List (List Char)} (h : List.Forall₂ Padded ps ps') :
    ps'.map rowOf = ps.map rowOf := by
  induction h with
  | nil => rfl
  | cons hfirst _ ih => rw [List.map_cons, List.map_cons, hfirst.rowOf_eq, ih]

/-- White space around the pieces of a text leaves its rows as they are. -/
theorem rows_of_padded {s s' : String} (h : List.Forall₂ Padded (pieces s) (pieces s')) :
    rows s' = rows s := map_rowOf_of_padded h

/-- The characters with a carriage return in front of every line feed. -/
def withReturns (cs : List Char) : List Char :=
  cs.flatMap fun c => if c = '\n' then ['\r', '\n'] else [c]

theorem withReturns_of_none {cs : List Char} (h : '\n' ∉ cs) : withReturns cs = cs := by
  induction cs with
  | nil => rfl
  | cons c cs ih =>
    rw [List.mem_cons, not_or] at h
    show (if c = '\n' then ['\r', '\n'] else [c]) ++ withReturns cs = c :: cs
    rw [ih h.2, if_neg (Ne.symm h.1)]
    rfl

theorem withReturns_of_break {line : List Char} (h : '\n' ∉ line) (rest : List Char) :
    withReturns (line ++ '\n' :: rest) = line ++ ['\r'] ++ '\n' :: withReturns rest := by
  have hline := withReturns_of_none h
  rw [withReturns] at hline ⊢
  rw [List.flatMap_append, hline, List.append_assoc]
  rfl

/-- A carriage return in front of a line feed is white space at the end of a piece. -/
theorem padded_withReturns (cs : List Char) :
    List.Forall₂ Padded (cs.splitOn '\n') ((withReturns cs).splitOn '\n') := by
  induction cs using Text.line_induction with
  | last cs h =>
    rw [withReturns_of_none h, splitOn_of_none h]
    exact .cons (.refl cs) .nil
  | next line rest h ih =>
    have hreturn : '\n' ∉ line ++ ['\r'] := by simp [h]
    rw [withReturns_of_break h, splitOn_append, splitOn_append, splitOn_of_none h,
      splitOn_of_none hreturn]
    exact .cons (.after (by simp [isBlank]) line) ih

/-- White space, line feeds among it, has empty rows only. -/
theorem rowOf_of_blank {cs : List Char} (h : ∀ c ∈ cs, isBlank c = true) :
    ∀ row ∈ (cs.splitOn '\n').map rowOf, row = "" := by
  induction cs using Text.line_induction with
  | last cs hnone =>
    rw [splitOn_of_none hnone, List.map_singleton, List.forall_mem_singleton]
    exact (Padded.after h []).rowOf_eq
  | next line rest hline ih =>
    rw [List.forall_mem_append, List.forall_mem_cons] at h
    rw [splitOn_append, splitOn_of_none hline, List.map_append, List.forall_mem_append,
      List.map_singleton, List.forall_mem_singleton]
    exact ⟨(Padded.after h.1 []).rowOf_eq, ih h.2.2⟩

/-- White space after a text is white space at the end of its last piece, and then empty rows. -/
theorem rowOf_append_blank (cs : List Char) {after : List Char}
    (h : ∀ c ∈ after, isBlank c = true) :
    ∃ more, (∀ row ∈ more, row = "") ∧
      ((cs ++ after).splitOn '\n').map rowOf = (cs.splitOn '\n').map rowOf ++ more := by
  induction cs using Text.line_induction with
  | last cs hnone =>
    rcases Text.break_cases after with hafter | ⟨first, others, rfl, hfirst⟩
    · refine ⟨[], nofun, ?_⟩
      rw [splitOn_of_none (by simp [hnone, hafter]), splitOn_of_none hnone, List.map_singleton,
        (Padded.after h cs).rowOf_eq, List.append_nil, List.map_singleton]
    · rw [List.forall_mem_append, List.forall_mem_cons] at h
      refine ⟨_, rowOf_of_blank h.2.2, ?_⟩
      rw [← List.append_assoc, splitOn_append, splitOn_of_none (by simp [hnone, hfirst]),
        splitOn_of_none hnone, List.map_append, List.map_singleton, List.map_singleton,
        (Padded.after h.1 cs).rowOf_eq]
  | next line rest hline ih =>
    obtain ⟨more, hmore, hrest⟩ := ih
    refine ⟨more, hmore, ?_⟩
    rw [List.append_assoc, List.cons_append, splitOn_append, splitOn_append, List.map_append,
      hrest, List.map_append, List.append_assoc]

theorem rows_append_blank (s : String) {w : String} (h : ∀ c ∈ w.toList, isBlank c = true) :
    ∃ more, (∀ row ∈ more, row = "") ∧ rows (s ++ w) = rows s ++ more := by
  rw [rows, rows, pieces, pieces, String.toList_append]
  exact rowOf_append_blank s.toList h

end BackupVault
