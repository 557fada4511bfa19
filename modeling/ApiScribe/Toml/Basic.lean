/-! TOML documents as trees of tables. A table remembers how it came to be, since
that decides what may still be added to it: nothing is defined twice, and a
table that was written out as a whole is never opened again. -/
namespace ApiScribe

/-- How a table came to be. -/
inductive TableOrigin where
  /-- A header of its own. -/
  | header
  /-- The header of a table below it. -/
  | above
  /-- A dotted key. -/
  | dotted
  /-- Braces, which close it. -/
  | braces
  deriving DecidableEq, Repr

/-- A value. Fractions and moments in time are not kept, as no setting is one. -/
inductive Toml where
  | str (text : String)
  | int (number : Int)
  | fraction
  | bool (value : Bool)
  | moment
  | array (items : List Toml)
  | table (origin : TableOrigin) (entries : List (String × Toml))
  /-- The tables that headers in double brackets add one by one. -/
  | tables (items : List Toml)

namespace Toml

abbrev Entries := List (String × Toml)

/-- Changes what stands under a key, or adds it behind the other entries. -/
def update (key : String) (change : Option Toml → Option Toml) : Entries → Option Entries
  | [] => (change none).map fun value => [(key, value)]
  | (name, value) :: rest =>
    if name = key then (change (some value)).map fun changed => (name, changed) :: rest
    else (update key change rest).map ((name, value) :: ·)

/-- Adds a value under a key that is free. -/
def addNew (key : String) (value : Toml) : Entries → Option Entries :=
  update key fun | none => some value | some _ => none

/-- Changes the last table of a list. -/
def changeLast (change : Toml → Option Toml) (items : List Toml) : Option (List Toml) :=
  match items.reverse with
  | [] => none
  | last :: before => (change last).map fun changed => (changed :: before).reverse

/-- Changes the entries of a table. -/
def changeEntries (change : Entries → Option Entries) : Toml → Option Toml
  | .table origin entries => (change entries).map (.table origin)
  | _ => none

/-- Follows the names of a header and changes the entries there. Tables that are
missing on the way are made; of several tables the last one is meant. -/
def within (change : Entries → Option Entries) : List String → Entries → Option Entries
  | [] => change
  | key :: rest => update key fun
    | none => (within change rest []).map (.table .above)
    | some (.table .braces _) => none
    | some (.table origin entries) => (within change rest entries).map (.table origin)
    | some (.tables items) => (changeLast (changeEntries (within change rest)) items).map .tables
    | some _ => none

/-- Opens a table. One that is there only for the sake of a table below it can
be opened once. -/
def openTable (key : String) : Entries → Option Entries :=
  update key fun
    | none => some (.table .header [])
    | some (.table .above entries) => some (.table .header entries)
    | some _ => none

/-- Opens one more table of a list. -/
def openItem (key : String) : Entries → Option Entries :=
  update key fun
    | none => some (.tables [.table .header []])
    | some (.tables items) => some (.tables (items ++ [.table .header []]))
    | some _ => none

/-- Assigns a value to a dotted key. The table that takes the value has to come
from dotted keys; those on the way to it may also stand above a header. -/
def assign (value : Toml) : List String → Entries → Option Entries
  | [] => fun _ => none
  | [key] => addNew key value
  | key :: next :: rest => update key fun
    | none => (assign value (next :: rest) []).map (.table .dotted)
    | some (.table .dotted entries) => (assign value (next :: rest) entries).map (.table .dotted)
    | some (.table .above entries) =>
      if rest.isEmpty then none
      else (assign value (next :: rest) entries).map (.table .above)
    | some (.tables items) =>
      if rest.isEmpty then none
      else (changeLast (changeEntries (assign value (next :: rest))) items).map .tables
    | some _ => none

/-- Opens what a header names. -/
def openHeader (openLast : String → Entries → Option Entries) (path : List String)
    (root : Entries) : Option Entries :=
  path.getLast?.bind fun key => within (openLast key) path.dropLast root

end Toml
end ApiScribe
