import BackupVault.Bytes
import BackupVault.Text.CharTable

/-!
# Quoted text

Messages quote a text between double quotes.  Quotes and backslashes are escaped, the common
controls have escapes of one letter, and every other character without an appearance of its own
is shown by its code point.
-/

set_option autoImplicit false

namespace BackupVault.Text

/-- A code point in lower-case hexadecimal without leading zeros, between braces. -/
def codePointEscape (c : Char) : List Char :=
  ['\\', 'u', '\x7b'] ++ Nat.toDigits 16 c.toNat ++ ['\x7d']

def quoteChar (c : Char) : List Char :=
  if c = '"' then ['\\', '"']
  else if c = '\\' then ['\\', '\\']
  else if c = '\n' then ['\\', 'n']
  else if c = '\r' then ['\\', 'r']
  else if c = '\t' then ['\\', 't']
  else if c = Char.ofNat 0 then ['\\', '0']
  else if ' ' ≤ c ∧ c ≤ '~' then [c]
  else if isExtending c || isInvisible c then codePointEscape c
  else [c]

/-- The text between double quotes, with escapes. -/
def quoted (s : String) : String :=
  String.ofList ('"' :: s.toList.flatMap quoteChar ++ ['"'])

end BackupVault.Text
