import MessageExport.Number.Binary64
import MessageExport.Number.Shortest
import MessageExport.Text.Quoted
/-!
# MessageExport.Json.Tree

**JSON trees**: what a JSON text says, with the members of an object in the order
in which they are written and repeated names kept.
-/

namespace MessageExport.Json

/-- A number of a JSON text. Integers of 64 bits are exact; a negative one may go
down to the least signed integer. -/
inductive Number where
  | natural (value : UInt64)
  /-- The negative integer of the given size. -/
  | negative (size : Nat)
  | real (isNegative : Bool) (size : Magnitude)
  deriving DecidableEq, Repr

/-- A JSON value. -/
inductive Tree where
  | null
  | boolean (value : Bool)
  | number (value : Number)
  | text (value : String)
  | array (elements : List Tree)
  | object (members : List (String × Tree))

/-- Numbers are written out in full from five places behind the point to sixteen
before it, and with an exponent outside. A tie goes to the even digit. -/
def realFormat : Shortest.Format where
  positional power := -5 ≤ power && power ≤ 15
  tie := .toEven

/-- The text of a floating point number. -/
def realText (isNegative : Bool) (size : Magnitude) : List Char :=
  Shortest.text realFormat isNegative size

/-- The text of a number. -/
def Number.text : Number → List Char
  | .natural value => (toString value.toNat).toList
  | .negative size => '-' :: (toString size).toList
  | .real isNegative size => realText isNegative size

/-- A number as it is named when another kind of value was expected. -/
def Number.describe : Number → String
  | .real isNegative size =>
      "floating point `" ++ String.ofList (realText isNegative size) ++ "`"
  | n => "integer `" ++ String.ofList n.text ++ "`"

/-- A value as it is named when another kind of value was expected. -/
def Tree.describe : Tree → String
  | .null => "null"
  | .boolean value => "boolean `" ++ toString value ++ "`"
  | .number value => value.describe
  | .text value => "string " ++ Text.quoted value
  | .array _ => "sequence"
  | .object _ => "map"

end MessageExport.Json
