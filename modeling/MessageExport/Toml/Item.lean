import MessageExport.Number.Binary64
import MessageExport.Number.Shortest
import MessageExport.Text.Quoted
/-!
# MessageExport.Toml.Item

**Items** of a TOML document: values, tables and arrays of tables.

A table remembers how it came about, because that decides whether later lines may
add to it. The entries of a table are in the order in which they were first
written.
-/

namespace MessageExport.Toml

/-- How a table came about. -/
inductive Origin where
  /-- Written between braces; it is complete. -/
  | inline
  /-- Opened by a header of its own. -/
  | header
  /-- Implied by the header of a table below it. -/
  | implied
  /-- Implied by a dotted key. -/
  | dotted
  deriving DecidableEq, Repr

/-- What a key of a document stands for. -/
inductive Item where
  | text (value : String)
  | integer (value : Int)
  | real (value : Binary64)
  | boolean (value : Bool)
  /-- A date, a time of day or both, as it is written. -/
  | moment (spelling : List Char)
  | array (elements : List Item)
  | table (origin : Origin) (entries : List (String × Item))
  /-- An array of tables, each opened by a header of its own. -/
  | tables (elements : List (List (String × Item)))

/-- The entries of a table. -/
abbrev Entries := List (String × Item)

/-- Numbers are always written out in full. A tie goes away from zero. -/
def realFormat : Shortest.Format where
  positional _ := true
  tie := .awayFromZero

/-- The text of a floating point number. -/
def realText : Binary64 → String
  | .finite isNegative size =>
      String.ofList (Shortest.text realFormat isNegative size)
  | .infinite isNegative => if isNegative then "-inf" else "inf"
  | .nan => "NaN"

/-- An item as it is named when another kind of value was expected. -/
def Item.describe : Item → String
  | .text value => "string " ++ Text.quoted value
  | .integer value => "integer `" ++ toString value ++ "`"
  | .real value => "floating point `" ++ realText value ++ "`"
  | .boolean value => "boolean `" ++ toString value ++ "`"
  | .moment _ => "map"
  | .array _ => "sequence"
  | .table _ _ => "map"
  | .tables _ => "sequence"

end MessageExport.Toml
