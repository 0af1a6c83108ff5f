import WaveletPrecision.Sample.Basic

/-
Values of a TOML document, and the tables they are collected in.

While a document is read, a table can still grow, and how it may grow depends on how it
came about: by its own header, by the header of a table inside it, or by a dotted key.
`Item` remembers this; `Item.close` forgets it when the document is complete.
-/
namespace WaveletPrecision

namespace Toml

/-- A complete value. -/
inductive Value where
  | string (text : String)
  | integer (value : Int)
  | float (value : Binary64)
  | boolean (value : Bool)
  | dateTime
  | array (elements : List Value)
  | table (entries : List (String × Value))

/-- How a table came about. -/
inductive Origin where
  /-- By its own header; the whole document counts as one. -/
  | header
  /-- By the header of a table inside it. -/
  | implied
  /-- By a dotted key. -/
  | dotted
deriving DecidableEq

/-- What a key of a growing table stands for. -/
inductive Item where
  /-- A value, which grows no more. -/
  | value (v : Value)
  /-- A table. -/
  | table (origin : Origin) (entries : List (String × Item))
  /-- A list of tables with headers of their own, the last one first. -/
  | tables (last : List (String × Item)) (earlier : List (List (String × Item)))

/-- The entries of a growing table, in the order in which their keys appeared. -/
abbrev Entries := List (String × Item)

/-! ### Closing -/

mutual

/-- The value of an item. -/
def Item.close : Item → Value
  | .value v => v
  | .table _ entries => .table (closeEntries entries)
  | .tables last earlier => .array (closeTables earlier [.table (closeEntries last)])

/-- The values of the entries of a table. -/
def closeEntries : List (String × Item) → List (String × Value)
  | [] => []
  | (key, item) :: rest => (key, item.close) :: closeEntries rest

/-- The values of a list of tables in reversed order, in front of others. -/
def closeTables : List (List (String × Item)) → List Value → List Value
  | [], done => done
  | entries :: rest, done => closeTables rest (.table (closeEntries entries) :: done)

end

/-! ### Entries by key -/

/-- The item of a key. -/
def find? (entries : Entries) (key : String) : Option Item :=
  (entries.find? fun entry => entry.1 = key).map Prod.snd

/-- The entries with the item of a key replaced, or added at the end. -/
def put (entries : Entries) (key : String) (item : Item) : Entries :=
  if entries.any (fun entry => entry.1 = key) then
    entries.map fun entry => if entry.1 = key then (key, item) else entry
  else entries ++ [(key, item)]

/-! ### Growing -/

/-- Change the table at the end of a header's path.  Missing tables on the way are implied by
the header, and a list of tables stands for its last one. -/
def underHeader (change : Entries → Option Entries) : List String → Entries → Option Entries
  | [], entries => change entries
  | key :: path, entries =>
    match find? entries key with
    | none => (underHeader change path []).map fun inner =>
        put entries key (.table .implied inner)
    | some (.table origin inner) => (underHeader change path inner).map fun inner =>
        put entries key (.table origin inner)
    | some (.tables last earlier) => (underHeader change path last).map fun last =>
        put entries key (.tables last earlier)
    | some (.value _) => none

/-- Open a table by a header that ends in `key`.  A table can be opened once, unless it was only
implied so far. -/
def openTable (key : String) (entries : Entries) : Option Entries :=
  match find? entries key with
  | none => some (put entries key (.table .header []))
  | some (.table .implied inner) => some (put entries key (.table .header inner))
  | some _ => none

/-- Open one more table of a list by a header that ends in `key`. -/
def openNext (key : String) (entries : Entries) : Option Entries :=
  match find? entries key with
  | none => some (put entries key (.tables [] []))
  | some (.tables last earlier) => some (put entries key (.tables [] (last :: earlier)))
  | some _ => none

/-- Add a value under a key of its own to a table. -/
def insert (key : String) (v : Value) (entries : Entries) : Option Entries :=
  match find? entries key with
  | none => some (put entries key (.value v))
  | some _ => none

/-- Add a value under a dotted key.  The tables on the way must have been made by dotted keys
too: a table with a header, or one that a header implied, is not extended from outside. -/
def insertDotted (v : Value) : List String → String → Entries → Option Entries
  | [], key, entries => insert key v entries
  | first :: path, key, entries =>
    match find? entries first with
    | none => (insertDotted v path key []).map fun inner =>
        put entries first (.table .dotted inner)
    | some (.table .dotted inner) => (insertDotted v path key inner).map fun inner =>
        put entries first (.table .dotted inner)
    | some (.table .implied inner) =>
      if path.isEmpty then none
      else (insertDotted v path key inner).map fun inner =>
        put entries first (.table .implied inner)
    | some (.tables last earlier) =>
      if path.isEmpty then none
      else (insertDotted v path key last).map fun last =>
        put entries first (.tables last earlier)
    | some (.table .header _) => none
    | some (.value _) => none

end Toml

end WaveletPrecision
