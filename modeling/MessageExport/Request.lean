import MessageExport.View.Basic
/-!
# MessageExport.Request

**Export requests**: what is sent to have messages written to a file.

A request names either the result set of one search type, or every message of a
search; the second carries the context of the query in its payload.
-/

namespace MessageExport

/-- A field chosen for an export. -/
structure SelectedField where
  field : String
  deriving DecidableEq, Repr

/-- What is exported: columns, sort order and, for unscoped exports, the context
of the query. -/
structure Payload where
  /-- The exported columns, in order. -/
  fields : List String
  sort : List SortEntry
  timeRange : Option TimeRange := none
  queryText : Option QueryText := none
  streams : Option (List StreamId) := none
  deriving DecidableEq

/-- One export. -/
inductive Request where
  /-- The messages of one result set of a search. -/
  | searchType (search : SearchId) (searchType : SearchTypeId) (payload : Payload)
  /-- Every message of a search. -/
  | allMessages (payload : Payload)
  deriving DecidableEq

/-- The payload of a request, of either form. -/
def Request.payload : Request → Payload
  | .searchType _ _ payload => payload
  | .allMessages payload => payload

end MessageExport
