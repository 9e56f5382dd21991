import BackupVault.Proofs.Toml.Text
import BackupVault.Toml.Document

/-!
# Lines of a TOML document are read back

What a piece of a document does is told by the draft before it and the draft after it, whatever
comes behind.  Pieces that stand one after another compose, so that a document is read back line by
line.

## Overview

- `Toml.Reads`: a piece of a document leads from one draft to another
- `Toml.reads_element`, `Toml.reads_field`: the lines of a list of tables
- `Toml.reads_table`, `Toml.parse_tables`: its tables, and a document of them
-/

set_option autoImplicit false

namespace BackupVault.Toml

/-! ## §1 Pieces of a document -/

/-- Fuel that is left over does no harm. -/
theorem lines_mono {n m : Nat} (h : n ≤ m) {d d' : Draft} {cs : List Char}
    (hlines : lines? n d cs = some d') : lines? m d cs = some d' := by
  induction n generalizing m d cs with
  | zero =>
    cases cs with
    | nil => simpa [lines?] using hlines
    | cons c cs => simp [lines?] at hlines
  | succ n ih =>
    obtain ⟨m, rfl⟩ := Nat.exists_eq_add_one_of_ne_zero (by omega : m ≠ 0)
    cases cs with
    | nil => simpa [lines?] using hlines
    | cons c cs =>
      simp only [lines?, Option.bind_eq_bind, Option.bind_eq_some_iff] at hlines ⊢
      obtain ⟨line, hline, hrest⟩ := hlines
      exact ⟨line, hline, ih (by omega) hrest⟩

/-- Reading goes on behind the piece with the second draft, if it comes to the piece with the first
one. -/
def Reads (piece : List Char) (d d' : Draft) : Prop :=
  ∀ fuel rest result, lines? fuel d' rest = some result →
    lines? (piece.length + fuel) d (piece ++ rest) = some result

theorem reads_nil (d : Draft) : Reads [] d d := by
  intro fuel rest result h
  rwa [List.length_nil, Nat.zero_add, List.nil_append]

theorem Reads.append {piece piece' : List Char} {d d' d'' : Draft} (h : Reads piece d d')
    (h' : Reads piece' d' d'') : Reads (piece ++ piece') d d'' := by
  intro fuel rest result hrest
  rw [List.length_append, Nat.add_assoc, List.append_assoc]
  exact h _ _ _ (h' _ _ _ hrest)

/-- A line is a piece of a document. -/
theorem reads_line {c : Char} {cs : List Char} {d d' : Draft}
    (h : ∀ rest, line? d (c :: cs ++ rest) = some (d', rest)) : Reads (c :: cs) d d' := by
  intro fuel rest result hrest
  have hline : line? d (c :: (cs ++ rest)) = some (d', rest) := h rest
  simp only [List.length_cons, Nat.add_right_comm, List.cons_append, lines?, hline,
    Option.bind_eq_bind, Option.bind_some]
  exact lines_mono (Nat.le_add_left _ _) hrest

/-- A whole document is read line by line. -/
theorem parse_of_reads {c : Char} (hc : c ≠ '\ufeff') {cs : List Char} {d : Draft}
    (h : Reads (c :: cs) {} d) : parse? (String.ofList (c :: cs)) = some d.entries := by
  have hlines : lines? ((c :: cs).length + 1) {} (c :: cs ++ []) = some d :=
    h 1 [] d (by simp [lines?])
  rw [List.append_nil] at hlines
  unfold parse?
  rw [String.toList_ofList]
  split
  · rename_i heq
    injection heq with hmark
    exact absurd hmark hc
  · dsimp only
    rw [hlines, Option.map_some]

/-! ## §2 Keys -/

theorem skipBlanks_cons {c : Char} (h : isBlank c = false) (rest : List Char) :
    skipBlanks (c :: rest) = c :: rest := by
  rw [skipBlanks, List.dropWhile_cons_of_neg (by rw [h]; exact Bool.false_ne_true)]

/-- A key that needs no quotes. -/
def IsBare (key : String) : Prop := key ≠ "" ∧ ∀ c ∈ key.toList, isKeyChar c = true

instance (key : String) : Decidable (IsBare key) :=
  decidable_of_iff (key ≠ "" ∧ key.toList.all isKeyChar = true)
    (and_congr_right fun _ => List.all_eq_true)

theorem IsBare.ne_nil {key : String} (h : IsBare key) : key.toList ≠ [] :=
  fun hnil => h.1 (String.toList_eq_nil_iff.mp hnil)

theorem ne_of_isKeyChar {c : Char} (h : isKeyChar c = true) :
    isBlank c = false ∧ c ≠ '"' ∧ c ≠ '\'' := by
  refine ⟨Bool.eq_false_iff.mpr fun hblank => ?_, ?_, ?_⟩
  · rw [isBlank, Bool.or_eq_true, decide_eq_true_eq, decide_eq_true_eq] at hblank
    rcases hblank with rfl | rfl <;> exact absurd h (by decide)
  · rintro rfl
    exact absurd h (by decide)
  · rintro rfl
    exact absurd h (by decide)

/-- A step without quotes is read up to the next character that does not belong to it. -/
theorem step_append {key : String} (hkey : IsBare key) {c : Char} (hc : isKeyChar c = false)
    (rest : List Char) : step? (skipBlanks (key.toList ++ c :: rest)) = some (key, c :: rest) := by
  have htake : (key.toList ++ c :: rest).takeWhile isKeyChar = key.toList := by
    rw [List.takeWhile_append_of_pos hkey.2,
      List.takeWhile_cons_of_neg (by rw [hc]; exact Bool.false_ne_true), List.append_nil]
  have hdrop : (key.toList ++ c :: rest).dropWhile isKeyChar = c :: rest := by
    rw [List.dropWhile_append_of_pos hkey.2,
      List.dropWhile_cons_of_neg (by rw [hc]; exact Bool.false_ne_true)]
  have hempty : key.toList.isEmpty = false := List.isEmpty_eq_false_iff.mpr hkey.ne_nil
  obtain ⟨k, ks, hks⟩ := List.exists_cons_of_ne_nil hkey.ne_nil
  obtain ⟨hblank, hquote, hquote'⟩ := ne_of_isKeyChar (hkey.2 k (hks ▸ List.mem_cons_self))
  have hcons : key.toList ++ c :: rest = k :: (ks ++ c :: rest) := by rw [hks, List.cons_append]
  rw [hcons, skipBlanks_cons hblank, ← hcons]
  unfold step?
  split
  · rename_i heq
    injection hcons.symm.trans heq with heq
    exact absurd heq hquote
  · rename_i heq
    injection hcons.symm.trans heq with heq
    exact absurd heq hquote'
  · simp only [htake, hdrop, hempty, Bool.false_eq_true, ↓reduceIte, String.ofList_toList]

/-- A key of one step is read with the blanks behind it.  What comes then must not be a dot. -/
theorem key_append {key : String} (hkey : IsBare key) {c : Char} (hc : isKeyChar c = false)
    {rest more : List Char} {d : Char} (hblanks : skipBlanks (c :: rest) = d :: more)
    (hdot : d ≠ '.') : key? (key.toList ++ c :: rest) = some (([], key), d :: more) := by
  have hsteps : steps? depthLimit (key.toList ++ c :: rest) = some ([key], d :: more) := by
    rw [depthLimit, steps?, step_append hkey hc]
    simp only [Option.bind_eq_bind, Option.bind_some, hblanks]
    split
    · rename_i heq
      injection heq with heq
      exact absurd heq hdot
    · rfl
  have hdepth : 1 < depthLimit := by decide
  simp [key?, hsteps, hdepth]

/-! ## §3 Lines -/

theorem lineEnd_break (rest : List Char) : lineEnd? ('\n' :: rest) = some rest := by
  rw [lineEnd?, skipBlanks_cons (by decide)]
  rfl

/-- A header of a list of tables. -/
theorem reads_element {key : String} (hkey : IsBare key) {d : Draft} {entries : Entries}
    (hopen : openElement [] key d.entries = some entries) :
    Reads ('[' :: '[' :: (key.toList ++ [']', ']', '\n'])) d { entries, header := [key] } := by
  refine reads_line fun rest => ?_
  have hkeys := key_append hkey (by decide : isKeyChar ']' = false)
    (skipBlanks_cons (by decide : isBlank ']' = false) (']' :: '\n' :: rest)) (by decide)
  simp only [line?, List.cons_append, List.append_assoc, List.nil_append,
    skipBlanks_cons (by decide : isBlank '[' = false), elementLine?, hkeys, after?, ↓reduceIte,
    Option.bind_eq_bind, Option.bind_some, lineEnd_break, hopen, Option.pure_def]

/-- A line that begins with a key is not empty. -/
theorem line_key {c : Char} (hc : isKeyChar c = true) (d : Draft) (rest : List Char) :
    line? d (c :: rest) = valueLine? d (c :: rest) := by
  have hne {x : Char} (hx : isKeyChar x = false) : c ≠ x := by
    rintro rfl
    exact absurd hc (by rw [hx]; exact Bool.false_ne_true)
  have hbracket := hne (by decide : isKeyChar '[' = false)
  have hcomment := hne (by decide : isKeyChar '#' = false)
  have hbreak := hne (by decide : isKeyChar '\n' = false)
  have hreturn := hne (by decide : isKeyChar '\r' = false)
  have hend : lineEnd? (c :: rest) = none := by
    simp [lineEnd?, skipBlanks_cons (ne_of_isKeyChar hc).1, hcomment, lineBreak?, hbreak, hreturn]
  simp [line?, skipBlanks_cons (ne_of_isKeyChar hc).1, hbracket, hend]

/-- An empty line changes nothing. -/
theorem reads_empty (d : Draft) : Reads ['\n'] d d := by
  refine reads_line fun rest => ?_
  simp [line?, skipBlanks_cons (by decide : isBlank '\n' = false), lineEnd_break]

theorem value_quote (fuel depth : Nat) (s : String) {c : Char} (hc : c ≠ '"') (rest : List Char) :
    value? (fuel + 1) depth ((quote s).toList ++ c :: rest) = some (.string s, c :: rest) := by
  have hstring := string_quote s hc rest
  obtain ⟨q, more, hquote, rfl | rfl⟩ := head_quote s
  all_goals
    rw [hquote, List.cons_append] at hstring ⊢
    rw [value?, hstring, Option.map_some]

/-- A line that gives a text to a key. -/
def fieldLine (field : String × String) : List Char :=
  field.1.toList ++ ' ' :: '=' :: ' ' :: ((quote field.2).toList ++ ['\n'])

theorem reads_field {field : String × String} (hkey : IsBare field.1) {d : Draft}
    {entries : Entries}
    (hassign : assignBelow d.header [] field.1 (.string field.2) d.entries = some entries) :
    Reads (fieldLine field) d { d with entries } := by
  obtain ⟨key, value⟩ := field
  obtain ⟨k, ks, hks⟩ := List.exists_cons_of_ne_nil hkey.ne_nil
  rw [fieldLine, hks, List.cons_append]
  refine reads_line fun rest => ?_
  have hequals : skipBlanks (' ' :: '=' :: ' ' :: ((quote value).toList ++ '\n' :: rest)) =
      '=' :: ' ' :: ((quote value).toList ++ '\n' :: rest) := rfl
  have hkeys := key_append hkey (by decide : isKeyChar ' ' = false) hequals (by decide)
  have hblanks : skipBlanks (' ' :: ((quote value).toList ++ '\n' :: rest)) =
      (quote value).toList ++ '\n' :: rest := by
    obtain ⟨q, more, hquote, rfl | rfl⟩ := head_quote value <;> rw [hquote] <;> rfl
  rw [hks] at hkeys
  rw [List.cons_append, line_key (hkey.2 k (hks ▸ List.mem_cons_self))]
  simp only [valueLine?, List.cons_append, List.append_assoc, List.nil_append] at hkeys ⊢
  simp only [hkeys, after?, ↓reduceIte, Option.bind_eq_bind, Option.bind_some, hblanks,
    value_quote _ _ _ (by decide : '\n' ≠ '"'), lineEnd_break, hassign, Option.pure_def]

/-! ## §4 Lists of tables -/

/-- A table of texts, opened by a header. -/
def table (fields : List (String × String)) : Value :=
  .table .header (fields.map fun field => (field.1, .string field.2))

/-- A document that is a list of tables of texts, with its last table still open. -/
def listing (key : String) (tables : List (List (String × String))) : Draft where
  entries := [(key, .array true (tables.map table))]
  header := [key]

theorem openElement_nil (key : String) :
    openElement [] key [] = some (listing key [[]]).entries := rfl

theorem openElement_listing (key : String) (tables : List (List (String × String))) :
    openElement [] key (listing key tables).entries =
      some (listing key (tables ++ [[]])).entries := by
  simp [openElement, within, listing, Entries.find?, Entries.replace, table]

/-- A new key gets its text in the last table. -/
theorem assignBelow_listing (key : String) (tables : List (List (String × String)))
    {fields : List (String × String)} {field : String × String}
    (hnew : ∀ other ∈ fields, other.1 ≠ field.1) :
    assignBelow [key] [] field.1 (.string field.2) (listing key (tables ++ [fields])).entries =
      some (listing key (tables ++ [fields ++ [field]])).entries := by
  have hnone : (fields.map fun field => (field.1, Value.string field.2)).lookup field.1 = none := by
    rw [List.lookup_eq_none_iff]
    rintro ⟨k, v⟩ hmem
    obtain ⟨other, hother, heq⟩ := List.mem_map.mp hmem
    cases heq
    exact bne_iff_ne.mpr fun h => hnew other hother h.symm
  simp [assignBelow, within, assign, listing, Entries.find?, Entries.replace, table, hnone]

/-- The fields of a table are read one after another. -/
theorem reads_fields (key : String) (tables : List (List (String × String)))
    {fields more : List (String × String)} (hkeys : ∀ field ∈ more, IsBare field.1)
    (hnodup : ((fields ++ more).map (·.1)).Nodup) :
    Reads (more.flatMap fieldLine) (listing key (tables ++ [fields]))
      (listing key (tables ++ [fields ++ more])) := by
  induction more generalizing fields with
  | nil =>
    rw [List.append_nil]
    exact reads_nil _
  | cons field more ih =>
    have hnew : ∀ other ∈ fields, other.1 ≠ field.1 := by
      intro other hother
      rw [List.map_append, List.nodup_append] at hnodup
      exact hnodup.2.2 _ (List.mem_map_of_mem hother) _ (List.mem_map_of_mem List.mem_cons_self)
    rw [List.append_cons] at hnodup
    rw [List.flatMap_cons, List.append_cons fields]
    have hfirst : Reads (fieldLine field) (listing key (tables ++ [fields]))
        (listing key (tables ++ [fields ++ [field]])) :=
      reads_field (hkeys field List.mem_cons_self) (assignBelow_listing key tables hnew)
    exact hfirst.append (ih (fun field hmem => hkeys field (List.mem_cons_of_mem _ hmem)) hnodup)

/-- A table of texts as lines of a document. -/
def tableLines (key : String) (fields : List (String × String)) : List Char :=
  '[' :: '[' :: (key.toList ++ [']', ']', '\n']) ++ fields.flatMap fieldLine

/-- The keys of a table need no quotes, and each of them comes once. -/
def IsTable (fields : List (String × String)) : Prop :=
  (∀ field ∈ fields, IsBare field.1) ∧ (fields.map (·.1)).Nodup

/-- The lines of a table are read into a further table of the document. -/
theorem reads_table {key : String} (hkey : IsBare key) {tables : List (List (String × String))}
    {d : Draft} (hopen : openElement [] key d.entries = some (listing key (tables ++ [[]])).entries)
    {fields : List (String × String)} (hfields : IsTable fields) :
    Reads (tableLines key fields) d (listing key (tables ++ [fields])) :=
  (reads_element hkey hopen).append (reads_fields key tables hfields.1 hfields.2)

/-- The lines of further tables, each of them after an empty line. -/
theorem reads_more {key : String} (hkey : IsBare key) (tables : List (List (String × String)))
    {more : List (List (String × String))} (hmore : ∀ fields ∈ more, IsTable fields) :
    Reads (more.flatMap fun fields => ['\n'] ++ tableLines key fields) (listing key tables)
      (listing key (tables ++ more)) := by
  induction more generalizing tables with
  | nil =>
    rw [List.append_nil]
    exact reads_nil _
  | cons fields more ih =>
    rw [List.flatMap_cons, List.append_cons]
    have hfirst := reads_table hkey (openElement_listing key tables)
      (hmore fields List.mem_cons_self)
    exact ((reads_empty _).append hfirst).append
      (ih _ fun fields hmem => hmore fields (List.mem_cons_of_mem _ hmem))

theorem intercalate_cons {α : Type} (separator piece : List α) (pieces : List (List α)) :
    separator.intercalate (piece :: pieces) = piece ++ pieces.flatMap (separator ++ ·) := by
  induction pieces generalizing piece with
  | nil => simp
  | cons next pieces ih =>
    rw [List.intercalate_cons_cons, ih, List.flatMap_cons, List.append_assoc, List.append_assoc]

/-- A list of tables is read back from its lines, with an empty line between the tables. -/
theorem parse_tables {key : String} (hkey : IsBare key) {fields : List (String × String)}
    {more : List (List (String × String))} (hfields : IsTable fields)
    (hmore : ∀ fields ∈ more, IsTable fields) :
    parse? (String.ofList (['\n'].intercalate ((fields :: more).map (tableLines key)))) =
      some [(key, .array true ((fields :: more).map table))] := by
  rw [List.map_cons, intercalate_cons, List.flatMap_map]
  have hfirst : Reads (tableLines key fields) {} (listing key ([] ++ [fields])) :=
    reads_table hkey (openElement_nil key) hfields
  exact parse_of_reads (by decide) (hfirst.append (reads_more hkey [fields] hmore))

end BackupVault.Toml
