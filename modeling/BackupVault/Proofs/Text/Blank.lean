import BackupVault.Text.Blank
import Mathlib.Data.List.DropRight
import Mathlib.Data.List.TakeWhile

/-!
# Texts without white space around them

Trimming takes white space off both ends.  Doing so twice is no more than doing it once, and a text
without any white space stays as it is.
-/

set_option autoImplicit false

namespace BackupVault.Text

variable {cs : List Char}

theorem trimChars_eq (cs : List Char) :
    trimChars cs = (cs.dropWhile isBlank).rdropWhile isBlank := rfl

/-- What is trimmed is trimmed for good. -/
theorem trimChars_trimChars (cs : List Char) : trimChars (trimChars cs) = trimChars cs := by
  have hstart : (trimChars cs).dropWhile isBlank = trimChars cs := by
    refine List.dropWhile_eq_self_iff.mpr fun hpos => ?_
    -- What is taken off the end leaves the beginning as it is.
    have hfront : trimChars cs <+: cs.dropWhile isBlank := List.rdropWhile_prefix isBlank _
    have hpos' : 0 < (cs.dropWhile isBlank).length := Nat.lt_of_lt_of_le hpos hfront.length_le
    rw [hfront.getElem hpos]
    exact List.dropWhile_get_zero_not _ cs hpos'
  rw [trimChars_eq (trimChars cs), hstart]
  exact List.rdropWhile_idempotent isBlank (cs.dropWhile isBlank)

theorem trim_trim (s : String) : trim (trim s) = trim s := by
  rw [trim, trim, String.toList_ofList, trimChars_trimChars]

theorem mem_of_mem_trimChars {c : Char} (h : c ∈ trimChars cs) : c ∈ cs :=
  List.dropWhile_sublist isBlank |>.mem ((List.rdropWhile_prefix isBlank _).mem h)

/-- The last character of what is trimmed is not white space. -/
theorem getLast_ne_of_trimChars (h : trimChars cs = cs) {c : Char} (hc : isBlank c = true) :
    cs.getLast? ≠ some c := by
  intro hlast
  have hne : (cs.dropWhile isBlank).rdropWhile isBlank ≠ [] := by
    rw [← trimChars_eq, h]
    rintro rfl
    cases hlast
  refine List.rdropWhile_last_not isBlank (cs.dropWhile isBlank) hne ?_
  have hsame : ((cs.dropWhile isBlank).rdropWhile isBlank).getLast? = some c := by
    rw [← trimChars_eq, h, hlast]
  rw [List.getLast?_eq_some_getLast hne, Option.some.injEq] at hsame
  rw [hsame, hc]

/-- Trimming takes white space off both ends, and nothing else. -/
theorem trimChars_split (cs : List Char) : ∃ before after, cs = before ++ trimChars cs ++ after ∧
    (∀ c ∈ before, isBlank c = true) ∧ ∀ c ∈ after, isBlank c = true := by
  refine ⟨cs.takeWhile isBlank, (cs.dropWhile isBlank).rtakeWhile isBlank, ?_, ?_, ?_⟩
  · rw [trimChars_eq, List.append_assoc, List.rdropWhile_append_rtakeWhile,
      List.takeWhile_append_dropWhile]
  · exact fun c hc => List.mem_takeWhile_imp hc
  · exact fun c hc => List.mem_rtakeWhile_imp hc

/-- Nothing is trimmed exactly if neither the first character nor the last one is white space. -/
theorem trimChars_eq_self_iff : trimChars cs = cs ↔
    (∀ c ∈ cs.head?, isBlank c = false) ∧ ∀ c ∈ cs.getLast?, isBlank c = false := by
  constructor
  · intro h
    refine ⟨fun c hc => ?_, fun c hc => ?_⟩
    · cases hblank : isBlank c with
      | false => rfl
      | true =>
        -- Without its first character the text would be too short.
        obtain ⟨rest, rfl⟩ : ∃ rest, cs = c :: rest := List.head?_eq_some_iff.mp hc
        have hlength : (trimChars (c :: rest)).length ≤ rest.length := by
          rw [trimChars_eq, List.dropWhile_cons_of_pos hblank]
          exact Nat.le_trans (List.rdropWhile_prefix isBlank _).length_le
            (List.dropWhile_sublist isBlank).length_le
        rw [h, List.length_cons] at hlength
        omega
    · cases hblank : isBlank c with
      | false => rfl
      | true => exact absurd hc (getLast_ne_of_trimChars h hblank)
  · rintro ⟨hfirst, hlast⟩
    have hstart : cs.dropWhile isBlank = cs := by
      apply List.dropWhile_eq_self_iff.mpr
      intro hpos hblank
      rw [hfirst _ (List.head?_eq_getElem? .. ▸ List.getElem?_eq_getElem hpos)] at hblank
      cases hblank
    have hend : cs.rdropWhile isBlank = cs := by
      apply List.rdropWhile_eq_self_iff.mpr
      intro hne hblank
      rw [hlast _ (List.getLast?_eq_some_getLast hne)] at hblank
      cases hblank
    rw [trimChars_eq, hstart, hend]

theorem trimChars_of_no_blank (h : ∀ c ∈ cs, isBlank c = false) : trimChars cs = cs :=
  trimChars_eq_self_iff.mpr
    ⟨fun c hc => h c (List.mem_of_mem_head? hc), fun c hc => h c (List.mem_of_getLast? hc)⟩

/-- White space at the end does not count. -/
theorem trimChars_append_blank {c : Char} (hc : isBlank c = true) (cs : List Char) :
    trimChars (cs ++ [c]) = trimChars cs := by
  rw [trimChars_eq, trimChars_eq, List.dropWhile_append]
  split
  · rename_i hall
    rw [List.isEmpty_iff.mp hall, List.dropWhile_cons_of_pos hc]
    rfl
  · exact List.rdropWhile_concat_pos isBlank _ c hc

theorem trimChars_append_blanks {after : List Char} (h : ∀ c ∈ after, isBlank c = true) :
    trimChars (cs ++ after) = trimChars cs := by
  induction after generalizing cs with
  | nil => rw [List.append_nil]
  | cons c after ih =>
    rw [List.forall_mem_cons] at h
    rw [List.append_cons, ih h.2, trimChars_append_blank h.1]

theorem trimChars_blanks_append {before : List Char} (h : ∀ c ∈ before, isBlank c = true) :
    trimChars (before ++ cs) = trimChars cs := by
  rw [trimChars_eq, trimChars_eq, List.dropWhile_append_of_pos h]

end BackupVault.Text
