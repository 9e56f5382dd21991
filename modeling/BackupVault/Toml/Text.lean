import BackupVault.Bytes

/-!
# TOML text

Strings of a document, and what stands between its values: blanks, comments and line breaks.
Each reader takes a list of characters and gives what it read with the characters after it.

## Overview

- `Toml.string?`: the four kinds of strings
- `Toml.quote`: a text as a string of a document
- `Toml.lineEnd?`, `Toml.skipTrivia?`: the rest of a line, and everything up to the next value
-/

set_option autoImplicit false

namespace BackupVault.Toml

/-! ## §1 Blanks, comments and line breaks -/

def isBlank (c : Char) : Bool := c = ' ' || c = '\t'

/-- A character that may stand in a comment, and in a string that has no escapes. -/
def isPrintable (c : Char) : Bool := c = '\t' || (' ' ≤ c && c ≠ '\x7f')

def skipBlanks (cs : List Char) : List Char := cs.dropWhile isBlank

/-- The characters after a line break. -/
def lineBreak? : List Char → Option (List Char)
  | '\n' :: rest => some rest
  | '\r' :: '\n' :: rest => some rest
  | _ => none

/-- The characters after the line, of which only blanks and a comment may be left. -/
def lineEnd? (cs : List Char) : Option (List Char) :=
  let cs := match skipBlanks cs with
    | '#' :: rest => rest.dropWhile isPrintable
    | rest => rest
  if cs.isEmpty then some [] else lineBreak? cs

/-- The characters after blanks, line breaks and comments, each comment closed by a line break. -/
def skipTrivia? : (comment : Bool) → List Char → Option (List Char)
  | _, [] => some []
  | _, '\n' :: rest => skipTrivia? false rest
  | _, '\r' :: '\n' :: rest => skipTrivia? false rest
  | true, c :: rest => if isPrintable c then skipTrivia? true rest else none
  | false, c :: rest =>
    if c = '#' then skipTrivia? true rest
    else if isBlank c then skipTrivia? false rest
    else some (c :: rest)

/-! ## §2 Escapes -/

/-- The letters that stand for characters after a backslash. -/
def letters : List (Char × Char) :=
  [('b', '\x08'), ('t', '\t'), ('n', '\n'), ('f', '\x0c'), ('r', '\r'), ('"', '"'), ('\\', '\\')]

def escapeLetter? (letter : Char) : Option Char := letters.lookup letter

def letterOf? (c : Char) : Option Char := (letters.find? (·.2 == c)).map (·.1)

def codePoint? (digits : List Char) : Option Char := do
  let values ← digits.mapM Bytes.hexValue?
  let n := values.foldl (fun n d => 16 * n + d) 0
  if n.isValidChar then some (Char.ofNat n) else none

def consChar (c : Char) : Option (List Char × List Char) → Option (List Char × List Char)
  | some (cs, rest) => some (c :: cs, rest)
  | none => none

/-! ## §3 Strings on one line -/

/-- The rest of a string with escapes. -/
def basicBody? : List Char → Option (List Char × List Char)
  | '"' :: rest => some ([], rest)
  | '\\' :: 'u' :: a :: b :: c :: d :: rest => do
    consChar (← codePoint? [a, b, c, d]) (basicBody? rest)
  | '\\' :: 'U' :: a :: b :: c :: d :: e :: f :: g :: h :: rest => do
    consChar (← codePoint? [a, b, c, d, e, f, g, h]) (basicBody? rest)
  | '\\' :: c :: rest => do consChar (← escapeLetter? c) (basicBody? rest)
  | c :: rest => if isPrintable c then consChar c (basicBody? rest) else none
  | [] => none

/-- The rest of a string without escapes. -/
def literalBody? : List Char → Option (List Char × List Char)
  | '\'' :: rest => some ([], rest)
  | c :: rest => if isPrintable c then consChar c (literalBody? rest) else none
  | [] => none

/-! ## §4 Strings on several lines -/

/-- Up to two of the characters that close a string may stand right before its end. -/
def closing (quote : Char) (rest : List Char) : List Char × List Char :=
  match rest with
  | a :: b :: after =>
    if a = quote ∧ b = quote then ([quote, quote], after)
    else if a = quote then ([quote], b :: after)
    else ([], rest)
  | [a] => if a = quote then ([quote], []) else ([], rest)
  | [] => ([], [])

def isLineDone : List Char → Bool
  | ' ' :: rest => isLineDone rest
  | '\t' :: rest => isLineDone rest
  | cs => (lineBreak? cs).isSome

/-- The rest of a string with escapes.  A backslash at the end of a line skips everything up to
the next character that is neither a blank nor a line break. -/
def basicLines? : (skipping : Bool) → List Char → Option (List Char × List Char)
  | _, '"' :: '"' :: '"' :: rest => some (closing '"' rest)
  | skipping, '\r' :: '\n' :: rest =>
    if skipping then basicLines? true rest else consChar '\n' (basicLines? false rest)
  | skipping, '\n' :: rest =>
    if skipping then basicLines? true rest else consChar '\n' (basicLines? false rest)
  | _, '\\' :: 'u' :: a :: b :: c :: d :: rest => do
    consChar (← codePoint? [a, b, c, d]) (basicLines? false rest)
  | _, '\\' :: 'U' :: a :: b :: c :: d :: e :: f :: g :: h :: rest => do
    consChar (← codePoint? [a, b, c, d, e, f, g, h]) (basicLines? false rest)
  | _, '\\' :: c :: rest =>
    if isLineDone (c :: rest) then basicLines? true (c :: rest)
    else do consChar (← escapeLetter? c) (basicLines? false rest)
  | skipping, c :: rest =>
    if skipping && isBlank c then basicLines? true rest
    else if isPrintable c then consChar c (basicLines? false rest)
    else none
  | _, [] => none

def literalLines? : List Char → Option (List Char × List Char)
  | '\'' :: '\'' :: '\'' :: rest => some (closing '\'' rest)
  | '\r' :: '\n' :: rest => consChar '\n' (literalLines? rest)
  | c :: rest => if c = '\n' || isPrintable c then consChar c (literalLines? rest) else none
  | [] => none

/-- A line break right after the opening quotes does not count. -/
def skipFirstBreak (cs : List Char) : List Char := (lineBreak? cs).getD cs

/-! ## §5 Strings -/

def lineString? : List Char → Option (String × List Char)
  | '"' :: rest => (basicBody? rest).map fun (s, rest) => (String.ofList s, rest)
  | '\'' :: rest => (literalBody? rest).map fun (s, rest) => (String.ofList s, rest)
  | _ => none

def string? : List Char → Option (String × List Char)
  | '"' :: '"' :: '"' :: rest =>
    (basicLines? false (skipFirstBreak rest)).map fun (s, rest) => (String.ofList s, rest)
  | '\'' :: '\'' :: '\'' :: rest =>
    (literalLines? (skipFirstBreak rest)).map fun (s, rest) => (String.ofList s, rest)
  | cs => lineString? cs

/-! ## §6 Writing -/

/-- A character in a string with escapes. -/
def quoteChar (c : Char) : List Char :=
  match letterOf? c with
  | some letter => ['\\', letter]
  | none =>
    if isPrintable c then [c]
    else
      ['\\', 'u', '0', '0', (Bytes.hexDigit (c.toNat / 16 % 16)).toUpper,
        (Bytes.hexDigit (c.toNat % 16)).toUpper]

/-- The same in a string on several lines, where line breaks stand for themselves. -/
def quoteLineChar (c : Char) : List Char := if c = '\n' then ['\n'] else quoteChar c

/-- A text of one line is written without escapes if it would need some otherwise, and may be. -/
def prefersLiteral (cs : List Char) : Bool :=
  cs.any (fun c => c = '"' || c = '\\') && cs.all fun c => isPrintable c && c ≠ '\''

/-- A text as a string of a document: on several lines if it has line breaks, and otherwise on one
line, without escapes or with them. -/
def quote (s : String) : String :=
  let cs := s.toList
  if cs.contains '\n' then
    String.ofList ('"' :: '"' :: '"' :: '\n' :: cs.flatMap quoteLineChar ++ ['"', '"', '"'])
  else if prefersLiteral cs then String.ofList ('\'' :: cs ++ ['\''])
  else String.ofList ('"' :: cs.flatMap quoteChar ++ ['"'])

end BackupVault.Toml
