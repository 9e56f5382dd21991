import BackupVault.Toml.Scalar
import BackupVault.Toml.Text

/-!
# TOML documents

A document is read line by line: a header opens a table, a key gets a value in it.  Lists may run
over several lines, tables between braces may not.

## Overview

- `Toml.key?`: a key, which may be dotted
- `Toml.value?`: a value of any kind
- `Toml.parse?`: a document
-/

set_option autoImplicit false

namespace BackupVault.Toml

/-! ## §1 Keys -/

/-- A character of a key without quotes. -/
def isKeyChar (c : Char) : Bool := c.isAlphanum || c = '_' || c = '-'

def step? (cs : List Char) : Option (String × List Char) :=
  match cs with
  | '"' :: _ => lineString? cs
  | '\'' :: _ => lineString? cs
  | cs =>
    let bare := cs.takeWhile isKeyChar
    if bare.isEmpty then none else some (String.ofList bare, cs.dropWhile isKeyChar)

/-- The steps of a key, blanks around each of them. -/
def steps? : (fuel : Nat) → List Char → Option (List String × List Char)
  | 0, _ => none
  | fuel + 1, cs => do
    let (step, rest) ← step? (skipBlanks cs)
    match skipBlanks rest with
    | '.' :: rest => do
      let (more, rest) ← steps? fuel rest
      return (step :: more, rest)
    | rest => return ([step], rest)

/-- Keys have fewer steps than this, and values nest less deep. -/
def depthLimit : Nat := 80

/-- A key: the steps that lead to its last one, and the last one. -/
def key? (cs : List Char) : Option ((List String × String) × List Char) := do
  let (steps, rest) ← steps? depthLimit cs
  let last ← steps.getLast?
  if steps.length < depthLimit then return ((steps.dropLast, last), rest) else none

/-! ## §2 Values -/

mutual

def value? : (fuel depth : Nat) → List Char → Option (Value × List Char)
  | 0, _, _ => none
  | fuel + 1, depth, cs =>
    match cs with
    | '"' :: _ => (string? cs).map fun (s, rest) => (.string s, rest)
    | '\'' :: _ => (string? cs).map fun (s, rest) => (.string s, rest)
    | '[' :: rest =>
      if depth + 1 < depthLimit then do
        let (items, rest) ← items? fuel (depth + 1) (← skipTrivia? false rest)
        return (.array false items, rest)
      else none
    | '\x7b' :: rest =>
      if depth + 1 < depthLimit then
        match skipBlanks rest with
        | '\x7d' :: rest => some (.table .inline [], rest)
        | rest => do
          let (entries, rest) ← pairs? fuel (depth + 1) [] rest
          return (.table .inline entries, rest)
      else none
    | cs => scalar? cs

/-- The rest of a list, after its bracket or a comma. -/
def items? : (fuel depth : Nat) → List Char → Option (List Value × List Char)
  | 0, _, _ => none
  | _ + 1, _, ']' :: rest => some ([], rest)
  | fuel + 1, depth, cs => do
    let (item, rest) ← value? fuel depth cs
    match ← skipTrivia? false rest with
    | ',' :: rest => do
      let (items, rest) ← items? fuel depth (← skipTrivia? false rest)
      return (item :: items, rest)
    | ']' :: rest => return ([item], rest)
    | _ => none

/-- The rest of a table between braces, after its brace or a comma, with the entries so far. -/
def pairs? : (fuel depth : Nat) → Entries → List Char → Option (Entries × List Char)
  | 0, _, _, _ => none
  | fuel + 1, depth, entries, cs => do
    let ((init, last), rest) ← key? cs
    let (v, rest) ← value? fuel depth (skipBlanks (← after? '=' rest))
    let entries ← assign init last v false entries
    match skipBlanks rest with
    | ',' :: rest => pairs? fuel depth entries rest
    | '\x7d' :: rest => return (entries, rest)
    | _ => none

end

/-! ## §3 Lines -/

/-- A document of which some lines were read. -/
structure Draft where
  entries : Entries := []
  /-- The table that the last header named. -/
  header : List String := []

/-- A header of a list of tables, after its brackets. -/
def elementLine? (d : Draft) (cs : List Char) : Option (Draft × List Char) := do
  let ((init, last), rest) ← key? cs
  let rest ← lineEnd? (← after? ']' (← after? ']' rest))
  return ({ entries := ← openElement init last d.entries, header := init ++ [last] }, rest)

/-- A header of a table, after its bracket. -/
def tableLine? (d : Draft) (cs : List Char) : Option (Draft × List Char) := do
  let ((init, last), rest) ← key? cs
  let rest ← lineEnd? (← after? ']' rest)
  return ({ entries := ← openTable init last d.entries, header := init ++ [last] }, rest)

def valueLine? (d : Draft) (cs : List Char) : Option (Draft × List Char) := do
  let ((init, last), rest) ← key? cs
  let (v, rest) ← value? (2 * rest.length + 2) 0 (skipBlanks (← after? '=' rest))
  let rest ← lineEnd? rest
  return ({ d with entries := ← assignBelow d.header init last v d.entries }, rest)

def line? (d : Draft) (cs : List Char) : Option (Draft × List Char) :=
  match skipBlanks cs with
  | '[' :: '[' :: rest => elementLine? d rest
  | '[' :: rest => tableLine? d rest
  | cs =>
    match lineEnd? cs with
    | some rest => some (d, rest)
    | none => valueLine? d cs

def lines? : (fuel : Nat) → Draft → List Char → Option Draft
  | _, d, [] => some d
  | 0, _, _ => none
  | fuel + 1, d, cs => do
    let (d, rest) ← line? d cs
    lines? fuel d rest

/-- The table that a document stands for.  A mark of byte order before it does not count. -/
def parse? (s : String) : Option Entries :=
  let cs := match s.toList with
    | '\ufeff' :: rest => rest
    | cs => cs
  (lines? (cs.length + 1) {} cs).map (·.entries)

end BackupVault.Toml
