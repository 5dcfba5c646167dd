/-!
# MessageExport.Sort

**Sort entries**: a field and the direction in which it is sorted.
-/

namespace MessageExport

/-- The direction of a sort. -/
inductive Direction where
  /-- Smallest first. -/
  | ascending
  /-- Largest first. -/
  | descending
  deriving DecidableEq, Repr, Inhabited

namespace Direction

/-- The name of a direction in documents and requests. -/
def wireName : Direction → String
  | .ascending => "Ascending"
  | .descending => "Descending"

/-- The direction that a user names, by its short or its full name in any
ASCII case. -/
def ofUserText? (text : String) : Option Direction :=
  let lowered := String.ofList (text.toList.map Char.toLower)
  if lowered = "asc" ∨ lowered = "ascending" then some .ascending
  else if lowered = "desc" ∨ lowered = "descending" then some .descending
  else none

end Direction

/-- One field of a sort order. -/
structure SortEntry where
  /-- The field sorted by. -/
  field : String
  /-- The direction of this field. -/
  direction : Direction
  deriving DecidableEq, Repr

/-- The entry for the same field in another direction. -/
def SortEntry.withDirection (entry : SortEntry) (direction : Direction) : SortEntry :=
  { entry with direction }

end MessageExport
