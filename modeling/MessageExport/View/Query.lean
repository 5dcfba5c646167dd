import MessageExport.Identifier
import MessageExport.Instant.Basic
/-!
# MessageExport.View.Query

**Queries**: a time range, a query text, a tree of filters and the result sets
that the query produces.
-/

namespace MessageExport

/-- The time that a query covers. -/
inductive TimeRange where
  /-- The last so many seconds. -/
  | relative (range : UInt64)
  /-- Between two instants. -/
  | absolute (start stop : Instant)
  /-- A range in words, such as "last week". -/
  | keyword (text : String)
  deriving DecidableEq

/-- The text of a query and the language it is in. -/
structure QueryText where
  /-- The query language. -/
  type : String
  /-- The query itself. -/
  text : String := ""
  deriving DecidableEq, Repr

/-- A query that says nothing is an empty `elasticsearch` query. -/
instance : Inhabited QueryText := ⟨{ type := "elasticsearch" }⟩

/-- A node of a filter tree. -/
structure Filter where
  /-- What the node does, such as `or`. -/
  type : String
  /-- The entity that the node refers to. -/
  id : Option String := none
  /-- The nodes below. -/
  children : List Filter := []

/-- The type of the filters that restrict a query to a stream. -/
def streamFilterType : String := "stream"

/-- The filter restricts a query to a stream. -/
def Filter.isStream (filter : Filter) : Bool :=
  filter.type == streamFilterType

/-- A result set of a query. -/
structure SearchType where
  id : SearchTypeId
  /-- What the result set holds. -/
  type : String
  deriving DecidableEq

/-- A query of a search. -/
structure Query where
  id : QueryId
  timeRange : TimeRange
  text : QueryText := default
  filter : Option Filter := none
  searchTypes : List SearchType := []

end MessageExport
