import BackupVault.Config.Error
import BackupVault.Text.Blank
import BackupVault.Text.Lines

/-!
# Files of a few lines

Two files hold a fixed number of lines, each with a meaning of its own.  White space around a line
does not count, and neither do empty lines at the end.
-/

set_option autoImplicit false

namespace BackupVault

def trimmedLines (s : String) : List String := (Text.lines s).map Text.trim

/-- The first line for each label, none of which may be empty, and the lines after them. -/
def labelledLines : (labels lines : List String) → Except LineFault (List String × List String)
  | [], lines => .ok ([], lines)
  | label :: _, [] => .error (.missing label)
  | label :: labels, line :: lines =>
    if line = "" then .error (.missing label)
    else do
      let (found, rest) ← labelledLines labels lines
      return (line :: found, rest)

/-- Exactly one line for each label, and nothing after them. -/
def exactLines (labels : List String) (s : String) : Except LineFault (List String) := do
  let (found, rest) ← labelledLines labels (trimmedLines s)
  if rest.any (· ≠ "") then throw (.surplus labels.length)
  return found

def threeLines (first second third : String) (s : String) :
    Except LineFault (String × String × String) := do
  match ← exactLines [first, second, third] s with
  | [a, b, c] => return (a, b, c)
  | _ => throw (.surplus 3)

end BackupVault
