import MessageExport.Export.Warning
import MessageExport.View.Query
/-!
# MessageExport.Export.Stream

The **streams** that a query is restricted to.

They are named by the direct children of the query's filter that are of type
`stream`. A child without a usable id names no stream and gives a warning in its
place, so each of these children is either a stream or a warning.
-/

namespace MessageExport

/-- What a stream filter gives: its stream, or a warning that it has none. -/
def Filter.stream (filter : Filter) : Except Warning StreamId :=
  match filter.id with
  | none => .error .streamWithoutId
  | some raw =>
      match Identifier.ofString? .stream raw with
      | some id => .ok id
      | none => .error .streamWithEmptyId

/-- What the stream filters below a filter give, in order. -/
def Filter.streamResults (filter : Filter) : List (Except Warning StreamId) :=
  (filter.children.filter Filter.isStream).map Filter.stream

/-- The streams of a list of results. -/
def streamsOf (results : List (Except Warning StreamId)) : List StreamId :=
  results.filterMap fun
    | .ok id => some id
    | .error _ => none

/-- The warnings of a list of results. -/
def warningsOf (results : List (Except Warning StreamId)) : List Warning :=
  results.filterMap fun
    | .ok _ => none
    | .error warning => some warning

/-- The streams that a filter restricts to. -/
def Filter.streams (filter : Filter) : List StreamId :=
  streamsOf filter.streamResults

/-- What a filter leaves out. -/
def Filter.streamWarnings (filter : Filter) : List Warning :=
  warningsOf filter.streamResults

/-- The streams that a query is restricted to; none if it has no filter. -/
def Query.streams (query : Query) : List StreamId :=
  match query.filter with
  | none => []
  | some filter => filter.streams

/-- What the filter of a query leaves out. -/
def Query.streamWarnings (query : Query) : List Warning :=
  match query.filter with
  | none => []
  | some filter => filter.streamWarnings

end MessageExport
