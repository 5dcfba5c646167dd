import MessageExport.Toml.Item
/-!
# MessageExport.Toml.Entries

**Adding** to the entries of a TOML document.

A document grows by three kinds of line: a key with a value, the header of a table
and the header of an element of an array of tables. Each names a path, and each
may only add: what a line says cannot be taken back or said again. Where a path
goes through an array of tables, it goes on in the last of them.
-/

namespace MessageExport.Toml

namespace Entries

/-- The item under a key. -/
def find? (key : String) : Entries → Option Item
  | [] => none
  | (k, item) :: rest => if k = key then some item else find? key rest

/-- The entries without a key. -/
def erase (key : String) (entries : Entries) : Entries :=
  entries.filter fun entry => entry.1 ≠ key

/-- Change the item under a key, or add one at the end. -/
def alter (key : String) (change : Option Item → Option Item) : Entries → Option Entries
  | [] => (change none).map fun item => [(key, item)]
  | (k, item) :: rest =>
      if k = key then (change (some item)).map fun item => (k, item) :: rest
      else (alter key change rest).map fun rest => (k, item) :: rest

/-- Add an entry with a new key. -/
def add (key : String) (value : Item) (entries : Entries) : Option Entries :=
  if (find? key entries).isSome then none else some (entries ++ [(key, value)])

end Entries

/-- Change the last of a list of tables. -/
def alterLast (change : Entries → Option Entries) : List Entries → Option (List Entries)
  | [] => none
  | [last] => (change last).map fun last => [last]
  | first :: rest => (alterLast change rest).map fun rest => first :: rest

/-- Change the entries of a table that a header may go through, or of a new one. -/
def throughHeader (change : Entries → Option Entries) : Option Item → Option Item
  | none => (change []).map (.table .implied)
  | some (.table .inline _) => none
  | some (.table origin entries) => (change entries).map (.table origin)
  | some (.tables elements) => (alterLast change elements).map .tables
  | some _ => none

/-- Change the entries at the end of a path of a header. -/
def within (change : Entries → Option Entries) : List String → Entries → Option Entries
  | [], entries => change entries
  | key :: path, entries => entries.alter key (throughHeader (within change path))

/-- Change the entries of a table that a dotted key may go through, or of a new one. A
key that `ends` in the table adds to it directly, which needs a table that dotted keys
have made. -/
def throughKey (ends : Bool) (change : Entries → Option Entries) : Option Item → Option Item
  | none => (change []).map (.table .dotted)
  | some (.table .dotted entries) => (change entries).map (.table .dotted)
  | some (.table .implied entries) =>
      if ends then none else (change entries).map (.table .implied)
  | some (.tables elements) => if ends then none else (alterLast change elements).map .tables
  | some _ => none

/-- Add a value under a dotted key: a path, and the key at its end. -/
def addValue (key : String) (value : Item) : List String → Entries → Option Entries
  | [], entries => entries.add key value
  | first :: path, entries =>
      entries.alter first (throughKey path.isEmpty (addValue key value path))

/-- Open a table. One that is implied so far moves to the end. -/
def openTable (key : String) (entries : Entries) : Option Entries :=
  match entries.find? key with
  | none => some (entries ++ [(key, .table .header [])])
  | some (.table .implied inner) => some (entries.erase key ++ [(key, .table .header inner)])
  | some _ => none

/-- Open a further element of an array of tables. -/
def openElement (key : String) (entries : Entries) : Option Entries :=
  entries.alter key fun
    | none => some (.tables [[]])
    | some (.tables elements) => some (.tables (elements ++ [[]]))
    | some _ => none

end MessageExport.Toml
