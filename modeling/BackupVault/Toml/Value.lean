/-!
# TOML values

A document is a table of values under keys.  A table remembers how it came about, since that
decides what a later line may still add to it.

## Overview

- `Toml.Value`, `Toml.Entries`: values and tables
- `Toml.within`: change a table deep inside another one
- `Toml.openTable`, `Toml.openElement`, `Toml.assign`: what the lines of a document do
-/

set_option autoImplicit false

namespace BackupVault.Toml

/-- How a table came about. -/
inductive Origin where
  /-- A header named it. -/
  | header
  /-- A header named a table inside it. -/
  | implied
  /-- A dotted key leads through it. -/
  | dotted
  /-- It stands between braces, and is complete. -/
  | inline
deriving DecidableEq, Repr

/-- A value.  Numbers with a fraction and points in time are kept as they were written. -/
inductive Value where
  | string (s : String)
  | integer (n : Int)
  | float (written : String)
  | boolean (b : Bool)
  | datetime (written : String)
  /-- A list; one that headers made can be extended by further headers. -/
  | array (byHeaders : Bool) (items : List Value)
  | table (origin : Origin) (entries : List (String × Value))

instance : Inhabited Value := ⟨.boolean false⟩

/-- The content of a table, in the order of its first mention. -/
abbrev Entries := List (String × Value)

namespace Entries

def find? (es : Entries) (key : String) : Option Value := es.lookup key

/-- The value under a key that is there already is changed. -/
def replace (es : Entries) (key : String) (v : Value) : Entries :=
  es.map fun e => if e.1 = key then (key, v) else e

end Entries

namespace Value

def string? : Value → Option String
  | string s => some s
  | _ => none

def integer? : Value → Option Int
  | integer n => some n
  | _ => none

def array? : Value → Option (List Value)
  | array _ items => some items
  | _ => none

end Value

/-! ## §1 Changing a table inside another one -/

/-- Follow a path of keys, making the tables that are missing, and change the table at its end.
The path belongs to a dotted key or to a header.  A list that headers made stands for its last
element.  The change is told whether the table was made by a dotted key. -/
def within (dotted : Bool) (change : Bool → Entries → Option Entries) :
    (path : List String) → (byDots : Bool) → Entries → Option Entries
  | [], byDots, es => change byDots es
  | key :: path, _, es =>
    match es.find? key with
    | none => do
      let inner ← within dotted change path dotted []
      return es ++ [(key, .table (if dotted then .dotted else .implied) inner)]
    | some (.table .inline _) => none
    | some (.table .header inner) =>
      if dotted then none
      else do return es.replace key (.table .header (← within dotted change path false inner))
    | some (.table origin inner) => do
      return es.replace key (.table origin (← within dotted change path (origin == .dotted) inner))
    | some (.array true items) =>
      match items.getLast? with
      | some (.table origin inner) => do
        let last : Value := .table origin (← within dotted change path false inner)
        return es.replace key (.array true (items.dropLast ++ [last]))
      | _ => none
    | some _ => none

/-! ## §2 Lines -/

/-- A header opens a table, which must not have been opened before. -/
def openTable (init : List String) (last : String) (doc : Entries) : Option Entries :=
  within false (fun _ es =>
    match es.find? last with
    | none => some (es ++ [(last, .table .header [])])
    | some (.table .implied inner) => some (es.replace last (.table .header inner))
    | some _ => none) init false doc

/-- A header opens a further element of a list of tables. -/
def openElement (init : List String) (last : String) (doc : Entries) : Option Entries :=
  within false (fun _ es =>
    match es.find? last with
    | none => some (es ++ [(last, .array true [.table .header []])])
    | some (.array true items) =>
      some (es.replace last (.array true (items ++ [.table .header []])))
    | some _ => none) init false doc

/-- A key, which may be dotted, gets a value in the table at hand.  It must be new there. -/
def assign (init : List String) (last : String) (v : Value) (byDots : Bool) (es : Entries) :
    Option Entries :=
  within true (fun byDots es =>
    if byDots == init.isEmpty || (es.find? last).isSome then none
    else some (es ++ [(last, v)])) init byDots es

/-- A key gets a value in the table of a header. -/
def assignBelow (header init : List String) (last : String) (v : Value) (doc : Entries) :
    Option Entries :=
  within false (fun byDots es => assign init last v byDots es) header false doc

end BackupVault.Toml
