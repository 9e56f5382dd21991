import BackupVault.Proofs.Text.Digits
import BackupVault.Proofs.Time.Calendar
import BackupVault.Time.Timestamp

/-!
# Points in time are read back

The text of a point in time is read field by field.  Each field is a row of digits before a
character that is no digit, so that it is read as a whole, and its value is the number that was
written.

## Overview

- `Timestamp.IsValid`: what a clock or a document can give
- `Timestamp.ofText_text`: points in time are read back
- `Timestamp.isValid_of_ofText`: what is read is valid
-/

set_option autoImplicit false

namespace BackupVault

namespace Date

/-! ## §1 Years -/

theorem daysBeforeYear_le {y y' : Int} (h : y ≤ y') : daysBeforeYear y ≤ daysBeforeYear y' := by
  unfold daysBeforeYear
  omega

theorem daysInMonth_le (year : Int) (month : Nat) : Calendar.daysInMonth year month ≤ 31 := by
  unfold Calendar.daysInMonth
  repeat' split
  all_goals decide

/-- A year begins 306 days after the first of March in the year before, and its dates are those up
to the beginning of the next one. -/
theorem dayNumber_bounds {d : Date} (h : d.isValid = true) :
    daysBeforeYear (d.year - 1) + 306 ≤ d.dayNumber + 719468 ∧
      d.dayNumber + 719468 < daysBeforeYear d.year + 306 := by
  simp only [isValid, Bool.and_eq_true, decide_eq_true_eq] at h
  obtain ⟨⟨⟨hmonth, hmonth'⟩, hday⟩, hday'⟩ := h
  have hlength := Nat.le_trans hday' (daysInMonth_le d.year d.month)
  have hyear : daysBeforeYear (d.year - 1) + 365 ≤ daysBeforeYear d.year := by
    unfold daysBeforeYear
    omega
  unfold dayNumber daysBeforeMonth
  dsimp only
  -- January and February are counted with the year before.
  by_cases hearly : d.month ≤ 2
  · rw [if_pos hearly, show (d.month + 9) % 12 = d.month + 9 by omega]
    omega
  · rw [if_neg hearly, show (d.month + 9) % 12 = d.month - 3 by omega]
    omega

end Date

namespace Timestamp

/-- A point in time that a clock or a document can give: it is in a year that is read, and a leap
second is the last one of its minute. -/
structure IsValid (t : Timestamp) : Prop where
  inRange : isInRange t.seconds = true
  nanos : t.nanos < 1000000000 ∨ t.nanos < 2000000000 ∧ t.seconds % 60 = 59

/-- The day of a valid point in time is in a year that is read. -/
theorem IsValid.year {t : Timestamp} (h : t.IsValid) :
    yearRange.1 ≤ (Date.ofDayNumber (t.seconds / 86400)).year ∧
      (Date.ofDayNumber (t.seconds / 86400)).year ≤ yearRange.2 := by
  obtain ⟨hlow, hhigh⟩ := Date.dayNumber_bounds (Date.isValid_ofDayNumber (t.seconds / 86400))
  rw [Date.dayNumber_ofDayNumber] at hlow hhigh
  have hrange := h.inRange
  have hfirst : Date.dayNumber ⟨yearRange.1, 1, 1⟩ =
      Date.daysBeforeYear (-262144) + 306 - 719468 := by decide
  have hlast : Date.dayNumber ⟨yearRange.2 + 1, 1, 1⟩ =
      Date.daysBeforeYear 262142 + 306 - 719468 := by decide
  rw [isInRange, Bool.and_eq_true, decide_eq_true_eq, decide_eq_true_eq, hfirst, hlast] at hrange
  generalize (Date.ofDayNumber (t.seconds / 86400)).year = year at hlow hhigh ⊢
  -- Outside of these years the days before the year would be too few or too many.
  constructor
  · refine Int.not_lt.mp fun hlt => ?_
    have hle := Date.daysBeforeYear_le (show year ≤ -262144 from Int.le_of_lt_add_one hlt)
    omega
  · refine Int.not_lt.mp fun hlt => ?_
    have hle := Date.daysBeforeYear_le (show 262142 ≤ year - 1 from Int.le_sub_one_of_lt hlt)
    omega

/-! ## §2 Fields -/

theorem trimStartChars_cons {c : Char} (h : Text.isBlank c = false) (cs : List Char) :
    Text.trimStartChars (c :: cs) = c :: cs := by
  rw [Text.trimStartChars, List.dropWhile_cons_of_neg (by rw [h]; exact Bool.false_ne_true)]

theorem isBlank_of_isDigit {c : Char} (h : c.isDigit = true) : Text.isBlank c = false := by
  rw [Char.isDigit, Bool.and_eq_true, decide_eq_true_eq, decide_eq_true_eq] at h
  have hlow : 48 ≤ c.toNat := h.1
  have hhigh : c.toNat ≤ 57 := h.2
  simp only [Text.isBlank, Bool.or_eq_false_iff, Bool.and_eq_false_iff, decide_eq_false_iff_not,
    beq_eq_false_iff_ne]
  omega

/-- A row of digits before something else is read as a whole. -/
theorem number_append {width : Nat} {ds : List Char} (hdigits : ∀ c ∈ ds, c.isDigit = true)
    (hne : ds ≠ []) (hlength : ds.length ≤ width) {c : Char} (hc : c.isDigit = false)
    (rest : List Char) :
    number? width (ds ++ c :: rest) = some (Text.digitsValue 10 ds, c :: rest) := by
  have htrim : Text.trimStartChars (ds ++ c :: rest) = ds ++ c :: rest := by
    cases ds with
    | nil => exact absurd rfl hne
    | cons d ds => exact trimStartChars_cons (isBlank_of_isDigit (hdigits d List.mem_cons_self)) _
  have htake : ((ds ++ c :: rest).take width).takeWhile Char.isDigit = ds := by
    rw [List.take_append, List.take_of_length_le hlength, List.takeWhile_append_of_pos hdigits]
    -- What comes after the digits begins with something else, if it is reached at all.
    cases hmore : width - ds.length with
    | zero => rw [List.take_zero, List.takeWhile_nil, List.append_nil]
    | succ n =>
      rw [List.take_succ_cons, List.takeWhile_cons_of_neg (by rw [hc]; exact Bool.false_ne_true),
        List.append_nil]
  have hempty : ds.isEmpty = false := List.isEmpty_eq_false_iff.mpr hne
  simp only [number?, htrim, htake, hempty, Bool.false_eq_true, ↓reduceIte, List.drop_left]

theorem toList_padded (width n : Nat) : (padded width n).toList =
    List.replicate (width - (Nat.toDigits 10 n).length) '0' ++ Nat.toDigits 10 n := by
  rw [padded, String.toList_ofList]

theorem isDigit_padded {width n : Nat} : ∀ c ∈ (padded width n).toList, c.isDigit = true := by
  intro c hc
  rw [toList_padded, List.mem_append] at hc
  rcases hc with hzero | hdigit
  · rw [List.eq_of_mem_replicate hzero]
    rfl
  · exact Text.isDigit_of_mem_toDigits hdigit

theorem padded_ne_nil (width n : Nat) : (padded width n).toList ≠ [] := by
  rw [toList_padded]
  exact List.append_ne_nil_of_right_ne_nil _ Nat.toDigits_ne_nil

theorem digitsValue_padded (width n : Nat) : Text.digitsValue 10 (padded width n).toList = n := by
  rw [toList_padded, Text.digitsValue_toDigits]

theorem length_padded {width n : Nat} (hpos : 0 < width) (h : n < 10 ^ width) :
    (padded width n).toList.length = width := by
  have hlength := (Nat.length_toDigits_le_iff (by decide : 1 < 10) hpos).mpr h
  rw [toList_padded, List.length_append, List.length_replicate]
  omega

theorem number_padded {width n : Nat} (hpos : 0 < width) (h : n < 10 ^ width) {c : Char}
    (hc : c.isDigit = false) (rest : List Char) :
    number? width ((padded width n).toList ++ c :: rest) = some (n, c :: rest) := by
  rw [number_append isDigit_padded (padded_ne_nil width n) (Nat.le_of_eq (length_padded hpos h)) hc,
    digitsValue_padded]

/-- A character of the right kind is found where it stands. -/
theorem mark_cons {c : Char} (hc : Text.isBlank c = false) (rest : List Char) :
    mark? c (c :: rest) = some rest := by
  simp only [mark?, trimStartChars_cons hc, ↓reduceIte]

/-- The digits of a year after its sign are read up to the next character. -/
theorem takeWhile_padded (width n : Nat) {c : Char} (hc : c.isDigit = false) (rest : List Char) :
    ((padded width n).toList ++ c :: rest).takeWhile Char.isDigit = (padded width n).toList := by
  rw [List.takeWhile_append_of_pos isDigit_padded,
    List.takeWhile_cons_of_neg (by rw [hc]; exact Bool.false_ne_true), List.append_nil]

theorem isEmpty_padded (width n : Nat) : (padded width n).toList.isEmpty = false :=
  List.isEmpty_eq_false_iff.mpr (padded_ne_nil width n)

/-- Without four digits a year comes after its sign. -/
theorem year_signed (n : Nat) {c : Char} (hc : c.isDigit = false) (rest : List Char) :
    year? ('-' :: ((padded 4 n).toList ++ c :: rest)) = some (-(n : Int), c :: rest) ∧
      year? ('+' :: ((padded 4 n).toList ++ c :: rest)) = some ((n : Int), c :: rest) := by
  constructor
  · simp only [year?, trimStartChars_cons (show Text.isBlank '-' = false by decide),
      takeWhile_padded 4 _ hc, isEmpty_padded, digitsValue_padded, Bool.false_eq_true, ↓reduceIte,
      List.drop_left]
  · simp only [year?, trimStartChars_cons (show Text.isBlank '+' = false by decide),
      takeWhile_padded 4 _ hc, isEmpty_padded, digitsValue_padded, Bool.false_eq_true, ↓reduceIte,
      List.drop_left]

theorem year_yearText (year : Int) {c : Char} (hc : c.isDigit = false) (rest : List Char) :
    year? ((yearText year).toList ++ c :: rest) = some (year, c :: rest) := by
  obtain ⟨hminus, hplus⟩ := year_signed year.natAbs hc rest
  by_cases hrange : 0 ≤ year ∧ year ≤ 9999
  · -- Four digits are read as a number; the first of them is no sign.
    have hnumber := number_padded (n := year.toNat) (by decide : 0 < 4) (by omega) hc rest
    obtain ⟨d, ds, hds⟩ := List.exists_cons_of_ne_nil (padded_ne_nil 4 year.toNat)
    have hdigit : d.isDigit = true := isDigit_padded d (hds ▸ List.mem_cons_self)
    have hvalue : ((year.toNat : Nat) : Int) = year := Int.toNat_of_nonneg hrange.1
    rw [yearText, if_pos hrange]
    rw [hds, List.cons_append] at hnumber ⊢
    unfold year?
    rw [trimStartChars_cons (isBlank_of_isDigit hdigit)]
    split
    · rename_i heq
      cases heq
      cases hdigit
    · rename_i heq
      cases heq
      cases hdigit
    · rw [hnumber, Option.map_some]
      dsimp only
      rw [hvalue]
  · rw [yearText, if_neg hrange, String.toList_append, List.append_assoc]
    by_cases hnegative : year < 0
    · have hsign : "-".toList = ['-'] := by decide
      have hvalue : -((year.natAbs : Nat) : Int) = year := by omega
      rw [if_pos hnegative, hsign, List.singleton_append, hminus, hvalue]
    · have hsign : "+".toList = ['+'] := by decide
      have hvalue : ((year.natAbs : Nat) : Int) = year := by omega
      rw [if_neg hnegative, hsign, List.singleton_append, hplus, hvalue]

/-- A fraction of a second is read up to the next character, whatever its width. -/
theorem fraction_padded {width n : Nat} (hpos : 0 < width) (hwidth : width ≤ 9)
    (h : n < 10 ^ width) {c : Char} (hc : c.isDigit = false) (rest : List Char) :
    fraction? ('.' :: ((padded width n).toList ++ c :: rest)) =
      some (n * 10 ^ (9 - width), c :: rest) := by
  have hlength := length_padded hpos h
  have htake : (padded width n).toList.take 9 = (padded width n).toList :=
    List.take_of_length_le (Nat.le_trans (Nat.le_of_eq hlength) hwidth)
  simp only [fraction?, takeWhile_padded width _ hc, isEmpty_padded, Bool.false_eq_true, ↓reduceIte,
    htake, Text.digitsValue_zeros, digitsValue_padded, List.drop_left]
  rw [hlength]

/-- A fraction that is not zero is written with a number of digits that divides nothing away. -/
theorem fractionText_cases (n : Nat) :
    n = 0 ∧ fractionText n = "" ∨
      ∃ width m, 0 < width ∧ width ≤ 9 ∧ m * 10 ^ (9 - width) = n ∧
        fractionText n = "." ++ padded width m := by
  unfold fractionText
  by_cases hzero : n = 0
  · exact .inl ⟨hzero, if_pos hzero⟩
  rw [if_neg hzero]
  by_cases hmilli : n % 1000000 = 0
  · exact .inr ⟨3, n / 1000000, by decide, by decide, by omega, if_pos hmilli⟩
  rw [if_neg hmilli]
  by_cases hmicro : n % 1000 = 0
  · exact .inr ⟨6, n / 1000, by decide, by decide, by omega, if_pos hmicro⟩
  · exact .inr ⟨9, n, by decide, by decide, Nat.mul_one n, if_neg hmicro⟩

theorem fraction_fractionText {n : Nat} (h : n < 10 ^ 9) {c : Char} (hc : c.isDigit = false)
    (hpoint : c ≠ '.') (rest : List Char) :
    fraction? ((fractionText n).toList ++ c :: rest) = some (n, c :: rest) := by
  rcases fractionText_cases n with ⟨rfl, htext⟩ | ⟨width, m, hpos, hwidth, rfl, htext⟩
  · rw [htext]
    change fraction? (c :: rest) = _
    unfold fraction?
    split
    · rename_i heq
      exact absurd (List.cons.inj heq).1 hpoint
    · rfl
  · have hm : m < 10 ^ width := by
      have hbillion : 10 ^ 9 = 10 ^ width * 10 ^ (9 - width) := by
        rw [← Nat.pow_add, Nat.add_sub_cancel' hwidth]
      exact Nat.lt_of_mul_lt_mul_right (hbillion ▸ h)
    rw [htext, String.toList_append]
    exact fraction_padded hpos hwidth hm hc rest

/-- No further digit follows the seconds. -/
theorem fractionText_append (n : Nat) {c : Char} (hc : c.isDigit = false) (rest : List Char) :
    ∃ d more, (fractionText n).toList ++ c :: rest = d :: more ∧ d.isDigit = false := by
  rcases fractionText_cases n with ⟨-, htext⟩ | ⟨width, m, -, -, -, htext⟩
  · rw [htext]
    exact ⟨c, rest, rfl, hc⟩
  · rw [htext, String.toList_append]
    exact ⟨'.', _, rfl, by decide⟩

/-! ## §3 Texts -/

theorem toList_text (t : Timestamp) : t.text.toList =
    (yearText (Date.ofDayNumber (t.seconds / 86400)).year).toList ++ '-' ::
      ((padded 2 (Date.ofDayNumber (t.seconds / 86400)).month).toList ++ '-' ::
        ((padded 2 (Date.ofDayNumber (t.seconds / 86400)).day).toList ++ 'T' ::
          ((padded 2 ((t.seconds % 86400).toNat / 3600)).toList ++ ':' ::
            ((padded 2 ((t.seconds % 86400).toNat / 60 % 60)).toList ++ ':' ::
              ((padded 2 ((t.seconds % 86400).toNat % 60 + t.nanos / 1000000000)).toList ++
                ((fractionText (t.nanos % 1000000000)).toList ++ ['Z'])))))) := by
  simp [text, secondText]

theorem date_append {d : Date} (h : d.isValid = true) (hfirst : yearRange.1 ≤ d.year)
    (hlast : d.year ≤ yearRange.2) {c : Char} (hc : c.isDigit = false) (rest : List Char) :
    date? ((yearText d.year).toList ++ '-' :: ((padded 2 d.month).toList ++ '-' ::
      ((padded 2 d.day).toList ++ c :: rest))) = some (d, c :: rest) := by
  have hvalid := h
  simp only [Date.isValid, Bool.and_eq_true, decide_eq_true_eq] at hvalid
  have hday := Date.daysInMonth_le d.year d.month
  unfold date?
  rw [year_yearText _ (by decide)]
  simp only [Option.bind_eq_bind, Option.bind_some]
  rw [mark_cons (by decide), Option.bind_some,
    number_padded (by decide) (by omega) (by decide), Option.bind_some, mark_cons (by decide),
    Option.bind_some, number_padded (by decide) (by omega) hc, Option.bind_some,
    if_pos ⟨h, hfirst, hlast⟩]

/-- A second past the last one of its minute is a leap second. -/
theorem timeOfDay_append {hour minute second nanos : Nat} (hhour : hour ≤ 23)
    (hminute : minute ≤ 59) (hsecond : second ≤ 60) (hnanos : nanos < 10 ^ 9) {c : Char}
    (hc : c.isDigit = false) (hpoint : c ≠ '.') (rest : List Char) :
    timeOfDay? ((padded 2 hour).toList ++ ':' :: ((padded 2 minute).toList ++ ':' ::
      ((padded 2 second).toList ++ ((fractionText nanos).toList ++ c :: rest)))) =
        some ((3600 * hour + 60 * minute + (second - if second = 60 then 1 else 0),
          nanos + (if second = 60 then 1 else 0) * 1000000000), c :: rest) := by
  obtain ⟨d, more, hmore, hd⟩ := fractionText_append nanos hc rest
  unfold timeOfDay?
  rw [number_padded (by decide) (by omega) (by decide)]
  simp only [Option.bind_eq_bind, Option.bind_some]
  rw [mark_cons (by decide), Option.bind_some, number_padded (by decide) (by omega) (by decide),
    Option.bind_some, mark_cons (by decide), Option.bind_some, hmore,
    number_padded (by decide) (by omega) hd, Option.bind_some, ← hmore,
    fraction_fractionText hnanos hc hpoint, Option.bind_some, if_pos ⟨hhour, hminute, hsecond⟩]

/-- A point in time is read back from its text. -/
theorem ofText_text {t : Timestamp} (h : t.IsValid) : ofText? t.text = some t := by
  obtain ⟨hfirst, hlast⟩ := h.year
  have hnanos := h.nanos
  have hday : 0 ≤ t.seconds % 86400 ∧ t.seconds % 86400 < 86400 := by omega
  -- The seconds of the day are put together again, and a leap second is told by its number.
  have htime : 3600 * ((t.seconds % 86400).toNat / 3600) +
      60 * ((t.seconds % 86400).toNat / 60 % 60) +
      ((t.seconds % 86400).toNat % 60 + t.nanos / 1000000000 -
        if (t.seconds % 86400).toNat % 60 + t.nanos / 1000000000 = 60 then 1 else 0) =
      (t.seconds % 86400).toNat := by
    split <;> omega
  have hfraction : t.nanos % 1000000000 +
      (if (t.seconds % 86400).toNat % 60 + t.nanos / 1000000000 = 60 then 1 else 0) * 1000000000 =
      t.nanos := by
    split <;> omega
  have hseconds :
      86400 * (t.seconds / 86400) + ((t.seconds % 86400).toNat : Int) - 0 = t.seconds := by omega
  have hoffset : offset? ['Z'] = some (0, []) := by decide
  unfold ofText?
  rw [toList_text, date_append (Date.isValid_ofDayNumber _) hfirst hlast (by decide)]
  simp only [Option.bind_eq_bind, Option.bind_some, ne_eq, not_true_eq_false, false_and, ↓reduceIte]
  rw [timeOfDay_append (by omega) (by omega) (by omega) (by omega) (by decide) (by decide), htime,
    hfraction]
  simp only [Option.bind_some, hoffset, Date.dayNumber_ofDayNumber, hseconds]
  rw [if_pos ⟨by decide, h.inRange, by decide⟩]

/-! ## §4 What is read is valid -/

theorem isDigit_of_mem_takeWhile {cs : List Char} :
    ∀ c ∈ cs.takeWhile Char.isDigit, c.isDigit = true :=
  List.all_eq_true.mp List.all_takeWhile

/-- A fraction is taken from nine digits. -/
theorem lt_of_fraction {cs rest : List Char} {n : Nat} (h : fraction? cs = some (n, rest)) :
    n < 1000000000 := by
  unfold fraction? at h
  split at h
  · rename_i cs
    generalize hds : cs.takeWhile Char.isDigit = ds at h
    have hdigits : ∀ c ∈ ds.take 9 ++ List.replicate (9 - ds.length) '0', c.isDigit = true := by
      intro c hc
      rcases List.mem_append.mp hc with hmem | hmem
      · exact isDigit_of_mem_takeWhile c (hds ▸ List.mem_of_mem_take hmem)
      · rw [List.eq_of_mem_replicate hmem]
        rfl
    have hlength : (ds.take 9 ++ List.replicate (9 - ds.length) '0').length = 9 := by
      rw [List.length_append, List.length_take, List.length_replicate]
      omega
    have hlt := Text.digitsValue_lt hdigits
    rw [hlength] at hlt
    dsimp only at h
    split at h
    · cases h
    · cases h
      exact hlt
  · cases h
    decide

/-- A second that is read is a leap second only at the end of its minute. -/
theorem nanos_of_timeOfDay {cs rest : List Char} {second nanos : Nat}
    (h : timeOfDay? cs = some ((second, nanos), rest)) :
    nanos < 1000000000 ∨ nanos < 2000000000 ∧ second % 60 = 59 := by
  unfold timeOfDay? at h
  simp only [Option.bind_eq_bind, Option.bind_eq_some_iff] at h
  obtain ⟨⟨hour, _⟩, -, _, -, ⟨minute, _⟩, -, _, -, ⟨second, _⟩, -, ⟨nanos, _⟩, hfraction, h⟩ := h
  have hlt := lt_of_fraction hfraction
  dsimp only at h
  by_cases hrange : hour ≤ 23 ∧ minute ≤ 59 ∧ second ≤ 60
  · rw [if_pos hrange] at h
    by_cases hleap : second = 60
    · rw [if_pos hleap] at h
      cases h
      omega
    · rw [if_neg hleap] at h
      cases h
      omega
  · rw [if_neg hrange] at h
    cases h

/-- Offsets are whole minutes. -/
theorem offset_mod {cs rest : List Char} {offset : Int} (h : offset? cs = some (offset, rest)) :
    offset % 60 = 0 := by
  have hamount {cs rest : List Char} {n : Int} (h : offsetAmount? cs = some (n, rest)) :
      n % 60 = 0 := by
    unfold offsetAmount? at h
    simp only [Option.bind_eq_bind, Option.bind_eq_some_iff] at h
    obtain ⟨⟨hours, _⟩, -, ⟨minutes, _⟩, -, h⟩ := h
    cases h
    omega
  have hnegative {cs rest : List Char} {n : Int}
      (h : (offsetAmount? cs).map (fun read => (-read.1, read.2)) = some (n, rest)) :
      n % 60 = 0 := by
    obtain ⟨⟨m, _⟩, hm, h⟩ := Option.map_eq_some_iff.mp h
    have := hamount hm
    cases h
    omega
  unfold offset? at h
  split at h
  · cases h; rfl
  · cases h; rfl
  · exact hamount h
  · exact hnegative h
  · exact hnegative h
  · split at h
    · cases h; rfl
    · cases h

/-- Only valid points in time are read. -/
theorem isValid_of_ofText {s : String} {t : Timestamp} (h : ofText? s = some t) : t.IsValid := by
  unfold ofText? at h
  simp only [Option.bind_eq_bind, Option.bind_eq_some_iff] at h
  obtain ⟨⟨date, rest⟩, -, h⟩ := h
  dsimp only at h
  split at h
  · rename_i c rest
    by_cases hmark : c ≠ 'T' ∧ c ≠ 't' ∧ c ≠ ' '
    · rw [if_pos hmark] at h
      cases h
    · rw [if_neg hmark] at h
      simp only [Option.bind_eq_some_iff] at h
      obtain ⟨⟨⟨second, nanos⟩, rest⟩, htime, ⟨offset, rest⟩, hoffset, h⟩ := h
      have hnanos := nanos_of_timeOfDay htime
      have hminutes := offset_mod hoffset
      dsimp only at h
      split at h
      · rename_i hrange
        cases h
        -- Days and offsets are whole minutes, so that a leap second stays at the end of its minute.
        exact ⟨hrange.2.1, hnanos.imp_right fun hleap => ⟨hleap.1, by dsimp only; omega⟩⟩
      · cases h
  · cases h

end Timestamp

end BackupVault
