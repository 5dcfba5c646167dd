import MessageExport.IdMap
import MessageExport.View.Query
import MessageExport.View.Widget
/-!
# MessageExport.View.Basic

**Views**: saved or ad-hoc arrangements of queries and widgets, and the
**documents** that bundle a view with the fields that can be exported from it.

A view is a snapshot. Everything in this library selects from it and reshapes
it; nothing changes it.
-/

namespace MessageExport

/-- The kinds of view. -/
inductive ViewKind where
  /-- An ad-hoc search with a single query. -/
  | search
  /-- A saved layout of several queries. -/
  | dashboard
  deriving DecidableEq, Repr, Inhabited

/-- The name of a view kind in documents. -/
def ViewKind.wireName : ViewKind → String
  | .search => "SEARCH"
  | .dashboard => "DASHBOARD"

/-- The search behind a view. -/
structure Search where
  id : SearchId
  queries : List Query := []

/-- The titles that users gave, by widget. -/
structure Titles where
  widget : IdMap .widget String := IdMap.empty

/-- The widgets of one query and what is known of them. -/
structure ViewState where
  query : Option QueryId := none
  widgets : List Widget := []
  titles : Titles := {}
  /-- The search type behind each widget. -/
  searchTypes : IdMap .widget SearchTypeId := IdMap.empty

/-- An arrangement of queries and widgets. -/
structure View where
  id : ViewId
  kind : ViewKind
  search : Search
  /-- The states, in the order of the queries. -/
  states : List ViewState := []

/-- A field that can be exported, with its indexed type. -/
structure IndexedField where
  name : String
  type : String
  deriving DecidableEq, Repr

/-- A view and the fields that can be exported from it. -/
structure Document where
  view : View
  fields : List IndexedField := []

/-- The names of the exportable fields, in order. -/
def Document.fieldNames (document : Document) : List String :=
  document.fields.map IndexedField.name

end MessageExport
