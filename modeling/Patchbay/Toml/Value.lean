/-
TOML documents as data, and the rules for putting keys into tables.

A document is a table of values by key.  What makes TOML more than nested tables is
that every table remembers how it came about: by a header of its own, on the way to
a deeper header, through dotted keys, or written inline.  That decides who may still
add to it, and `define`, `openTable` and `openArray` are those rules.
-/

namespace Patchbay.Toml

/-- How a table came about. -/
inductive Origin where
  /-- Named by its own header. -/
  | header
  /-- Made on the way to a deeper header. -/
  | passage
  /-- Made by a dotted key. -/
  | dotted
  deriving DecidableEq

inductive Value where
  | integer (n : Int)
  | float (lexeme : String)
  | boolean (b : Bool)
  | string (s : String)
  | time (lexeme : String)
  /-- A bracketed list. -/
  | array (items : List Value)
  /-- A table in braces, which is complete as it is written. -/
  | inlineTable (entries : List (String × Value))
  | table (origin : Origin) (entries : List (String × Value))
  /-- The tables that double-bracket headers add one by one. -/
  | tables (items : List (List (String × Value)))

/-- Keys with their values, in the order in which they were defined. -/
abbrev Entries := List (String × Value)

namespace Entries

def find? (entries : Entries) (key : String) : Option Value :=
  List.lookup key entries

/-- The last element replaced by what `change` makes of it. -/
def changeLast (change : Entries → Option Entries) :
    List Entries → Option (List Entries)
  | [] => none
  | [last] => (change last).map fun e => [e]
  | first :: rest => (changeLast change rest).map (first :: ·)

/-- Replace the value of a key, or add the key at the end. -/
def put (entries : Entries) (key : String) (value : Value) : Entries :=
  match entries with
  | [] => [(key, value)]
  | (k, v) :: rest => if k = key then (key, value) :: rest else (k, v) :: put rest key value

/-- Define a key that may be dotted, within one table.  A dotted key may pass through tables that
no header has named and through the last table of an array, but may add only to tables that
dotted keys made. -/
def define (mayHold : Bool) (entries : Entries) (path : List String) (value : Value) :
    Option Entries :=
  match path with
  | [] => none
  | [key] =>
    if mayHold ∧ (find? entries key).isNone then some (entries ++ [(key, value)]) else none
  | key :: more =>
    match find? entries key with
    | none => (define true [] more value).map fun inner => entries ++ [(key, .table .dotted inner)]
    | some (.table .dotted inner) =>
      (define true inner more value).map fun inner => put entries key (.table .dotted inner)
    | some (.table .passage inner) =>
      (define false inner more value).map fun inner => put entries key (.table .passage inner)
    | some (.tables items) =>
      (changeLast (fun last => define false last more value) items).map fun items =>
        put entries key (.tables items)
    | some _ => none

/-- Change the table that a header path names, through `finish` at its last key.  Tables that are
missing on the way are made. -/
def atHeader (finish : Entries → String → Option Entries) (entries : Entries) :
    List String → Option Entries
  | [] => none
  | [key] => finish entries key
  | key :: more =>
    match find? entries key with
    | none =>
      (atHeader finish [] more).map fun inner => entries ++ [(key, .table .passage inner)]
    | some (.table origin inner) =>
      (atHeader finish inner more).map fun inner => put entries key (.table origin inner)
    | some (.tables items) =>
      (changeLast (fun last => atHeader finish last more) items).map fun items =>
        put entries key (.tables items)
    | some _ => none

/-- Open the table of a header.  A table that was only passed through may be opened once. -/
def openTable (entries : Entries) (path : List String) : Option Entries :=
  atHeader (fun entries key =>
    match find? entries key with
    | none => some (entries ++ [(key, .table .header [])])
    | some (.table .passage inner) => some (put entries key (.table .header inner))
    | some _ => none) entries path

/-- Add one more table to the array of a double-bracket header. -/
def openArray (entries : Entries) (path : List String) : Option Entries :=
  atHeader (fun entries key =>
    match find? entries key with
    | none => some (entries ++ [(key, .tables [[]])])
    | some (.tables items) => some (put entries key (.tables (items ++ [[]])))
    | some _ => none) entries path

/-- Define a key in the table that the current header opened. -/
def defineUnder (entries : Entries) (header : List String) (path : List String) (value : Value) :
    Option Entries :=
  if header.isEmpty then define true entries path value
  else
    atHeader (fun entries key =>
      match find? entries key with
      | some (.table origin inner) =>
        (define true inner path value).map fun inner => put entries key (.table origin inner)
      | some (.tables items) =>
        (changeLast (fun last => define true last path value) items).map fun items =>
          put entries key (.tables items)
      | _ => none) entries header

end Entries

end Patchbay.Toml
