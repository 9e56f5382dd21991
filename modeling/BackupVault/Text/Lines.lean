/-!
# Lines of a text

A line ends at a line feed.  A carriage return just before that line feed belongs to the line
break; anywhere else it is an ordinary character.  The last line needs no line feed, and a text
that ends in one has no empty line after it.
-/

set_option autoImplicit false

namespace BackupVault.Text

/-- The characters up to the first line feed, and what follows it (`none` without a line feed). -/
def breakLine : List Char → List Char × Option (List Char)
  | [] => ([], none)
  | '\n' :: rest => ([], some rest)
  | c :: rest =>
    let (line, after) := breakLine rest
    (c :: line, after)

theorem length_of_breakLine {cs rest : List Char} (h : (breakLine cs).2 = some rest) :
    rest.length < cs.length := by
  fun_induction breakLine cs with
  | case1 => simp at h
  | case2 rest' =>
    simp only [Option.some.injEq] at h
    subst h
    simp
  | case3 c cs _ line after heq ih =>
    rw [heq] at ih
    have := ih h
    simp only [List.length_cons]
    omega

/-- A carriage return at the end of a line that a line feed closes is part of the break. -/
def stripReturn (line : List Char) : List Char :=
  match line.getLast? with
  | some '\r' => line.dropLast
  | _ => line

/-- The lines of a text, without their breaks. -/
def lineChars (cs : List Char) : List (List Char) :=
  match h : breakLine cs with
  | ([], none) => []
  | (line, none) => [line]
  | (line, some rest) =>
    have : rest.length < cs.length := length_of_breakLine (by rw [h])
    stripReturn line :: lineChars rest
termination_by cs.length

def lines (s : String) : List String := (lineChars s.toList).map String.ofList

end BackupVault.Text
