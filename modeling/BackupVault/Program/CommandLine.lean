import BackupVault.Text.Decimal

/-!
# Command lines

A command line is a list of words: options that take a value, and operands.  The value of an
option is the next word, or stands in the same word: `--user 7`, `--user=7`, `-u 7`, `-u7` and
`-u=7` are the same.  After `--` every word is an operand.

Words are taken from left to right, and the first one that is out of place decides what becomes
of the whole line.

## Overview

- `Grammar`: the options and operands of a command
- `Grammar.scan`: taking the words of a command line
-/

set_option autoImplicit false

namespace BackupVault.CommandLine

/-- What a value has to be. -/
inductive Kind where
  | text
  | path
  /-- A whole number below a limit; zero may have a minus sign. -/
  | number (limit : Nat)
  /-- A size, which never has a minus sign. -/
  | size
deriving DecidableEq, Repr

def Kind.value? (k : Kind) (s : String) : Option Nat :=
  match k with
  | number limit => Text.signedDecimal? limit s.toList
  | size => Text.decimal? UInt64.size s.toList
  | _ => none

def Kind.accepts (k : Kind) (s : String) : Bool :=
  match k with
  | text => true
  | path => s ≠ ""
  | k => (k.value? s).isSome

/-- An option that takes a value. -/
structure Flag where
  long : String
  short : Option Char := none
  kind : Kind
deriving DecidableEq, Repr

/-- The options and operands of a command. -/
structure Grammar where
  flags : List Flag := []
  /-- All of them have to be there. -/
  operands : List Kind := []
  hasVersion : Bool := false
deriving DecidableEq, Repr

/-- Why a command line asks for nothing that can be done. -/
inductive Refusal where
  | badUsage
  | help
  | version
deriving DecidableEq, Repr

/-- The values of options, by their long names, and the operands. -/
structure Words where
  values : List (String × String) := []
  operands : List String := []
deriving DecidableEq, Repr

namespace Words

def value? (w : Words) (long : String) : Option String := w.values.lookup long

def operand (w : Words) (i : Nat) : String := w.operands.getD i ""

end Words

namespace Grammar

/-- What a word is on its own. -/
inductive Word where
  | operand
  /-- All words after this one are operands. -/
  | rest
  | value (f : Flag) (written : String)
  /-- The next word is the value. -/
  | pending (f : Flag)
  | refused (r : Refusal)

def isOption (word : List Char) : Bool :=
  match word with
  | '-' :: _ :: _ => true
  | _ => false

/-- Text before the first equals sign, and the text after it. -/
def splitAtEquals (cs : List Char) : List Char × Option (List Char) :=
  match cs.dropWhile (· ≠ '=') with
  | [] => (cs, none)
  | _ :: after => (cs.takeWhile (· ≠ '='), some after)

/-- A word after two hyphens. -/
def longWord (g : Grammar) (cs : List Char) : Word :=
  let (name, attached) := splitAtEquals cs
  match g.flags.find? (·.long = String.ofList name), attached with
  | some f, some written => .value f (String.ofList written)
  | some f, none => .pending f
  | none, some _ => .refused .badUsage
  | none, none =>
    if name = "help".toList then .refused .help
    else if name = "version".toList ∧ g.hasVersion then .refused .version
    else .refused .badUsage

/-- A word after one hyphen. -/
def shortWord (g : Grammar) (c : Char) (attached : List Char) : Word :=
  match g.flags.find? (·.short = some c), attached with
  | some f, [] => .pending f
  | some f, '=' :: written => .value f (String.ofList written)
  | some f, written => .value f (String.ofList written)
  | none, _ =>
    if c = 'h' then .refused .help
    else if c = 'V' ∧ g.hasVersion then .refused .version
    else .refused .badUsage

def word (g : Grammar) (s : String) : Word :=
  match s.toList with
  | ['-', '-'] => .rest
  | '-' :: '-' :: cs => g.longWord cs
  | '-' :: c :: cs => g.shortWord c cs
  | _ => .operand

/-- Take the value of an option, which may come only once. -/
def takeValue (f : Flag) (written : String) (w : Words) : Except Refusal Words :=
  if (w.value? f.long).isSome || !f.kind.accepts written then .error .badUsage
  else .ok { w with values := w.values ++ [(f.long, written)] }

/-- Take an operand, if there is a place for it. -/
def takeOperand (g : Grammar) (w : Words) (written : String) : Except Refusal Words :=
  match g.operands[w.operands.length]? with
  | some kind =>
    if kind.accepts written then .ok { w with operands := w.operands ++ [written] }
    else .error .badUsage
  | none => .error .badUsage

def takeAll (g : Grammar) : List String → Words → Except Refusal Words
  | [], w => .ok w
  | s :: others, w =>
    match g.word s with
    | .operand => do takeAll g others (← g.takeOperand w s)
    | .rest => others.foldlM g.takeOperand w
    | .value f written => do takeAll g others (← takeValue f written w)
    | .refused r => .error r
    | .pending f =>
      match others with
      | [] => .error .badUsage
      | next :: others =>
        if isOption next.toList then .error .badUsage
        else do takeAll g others (← takeValue f next w)

/-- Take the words of a command line, on which no operand is missing. -/
def scan (g : Grammar) (line : List String) : Except Refusal Words := do
  let w ← g.takeAll line {}
  if w.operands.length < g.operands.length then throw .badUsage
  return w

end Grammar

end BackupVault.CommandLine
