/-! TOML values, and tables that are put together piece by piece. How a table came about decides
what may still be added to it: a table is headed once, and dotted keys add only to tables that
dotted keys have made. -/

namespace MarkdownPreview.Toml

/-- How a table came about. -/
inductive TableForm where
  /-- By its own header, or as the whole document. -/
  | headed
  /-- By the header of a table inside it. -/
  | implied
  /-- By dotted keys. -/
  | dotted
  /-- As a value in braces. -/
  | inline
  deriving Repr, DecidableEq

inductive Value where
  | string (text : List Char)
  | bool (b : Bool)
  | number
  | moment
  | array (items : List Value)
  | table (form : TableForm) (entries : List (List Char × Value))
  /-- The tables that one header has begun again and again: all but the last, and the last. -/
  | tables (earlier : List (List (List Char × Value))) (last : List (List Char × Value))
  deriving Inhabited

/-- The keys of a table and their values, in order. -/
abbrev Entries := List (List Char × Value)

namespace Entries

def find? (entries : Entries) (key : List Char) : Option Value :=
  (List.find? (fun e => e.1 == key) entries).map (·.2)

/-- The entries with the value of a key changed. -/
def replace (entries : Entries) (key : List Char) (v : Value) : Entries :=
  entries.map fun e => if e.1 == key then (key, v) else e

/-- Adds a key that is not there yet. -/
def insert? (entries : Entries) (key : List Char) (v : Value) : Option Entries :=
  if (find? entries key).isSome then none else some (entries ++ [(key, v)])

/-- Changes the table at the end of a path below a table of a given form, making the tables on the
way that are not there. -/
def update? (dotted : Bool) (change : TableForm → Entries → Option Entries) :
    List (List Char) → TableForm → Entries → Option Entries
  | [], form, entries => change form entries
  | key :: path, _, entries =>
    match find? entries key with
    | none =>
      let form : TableForm := if dotted then .dotted else .implied
      (update? dotted change path form []).map fun inner => entries ++ [(key, .table form inner)]
    | some (.table form inner) =>
      if form = .inline ∨ (dotted ∧ form = .headed) then none
      else (update? dotted change path form inner).map fun inner =>
        replace entries key (.table form inner)
    | some (.tables earlier last) =>
      (update? dotted change path .headed last).map fun last =>
        replace entries key (.tables earlier last)
    | some _ => none

/-- Adds a value to a table at the end of a path of dotted keys. -/
def insertAt? (entries : Entries) (path : List (List Char)) (key : List Char) (v : Value) :
    Option Entries :=
  let change (form : TableForm) (inner : Entries) : Option Entries :=
    if path ≠ [] ∧ form ≠ .dotted then none else insert? inner key v
  update? true change path .headed entries

/-- Begins the table with a header: a new one, or one that the headers of tables inside it imply. -/
def beginTable? (entries : Entries) (path : List (List Char)) (key : List Char) : Option Entries :=
  let change (_ : TableForm) (inner : Entries) : Option Entries :=
    match find? inner key with
    | none => some (inner ++ [(key, .table .headed [])])
    | some (.table .implied own) => some (replace inner key (.table .headed own))
    | some _ => none
  update? false change path .headed entries

/-- Begins the next table of those with one header. -/
def beginNextTable? (entries : Entries) (path : List (List Char)) (key : List Char) :
    Option Entries :=
  let change (_ : TableForm) (inner : Entries) : Option Entries :=
    match find? inner key with
    | none => some (inner ++ [(key, .tables [] [])])
    | some (.tables earlier last) => some (replace inner key (.tables (earlier ++ [last]) []))
    | some _ => none
  update? false change path .headed entries

end Entries

end MarkdownPreview.Toml
