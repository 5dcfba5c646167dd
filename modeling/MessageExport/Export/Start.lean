import MessageExport.Export.Fault
import MessageExport.Export.Stream
import MessageExport.Export.Table
import MessageExport.Request
/-!
# MessageExport.Export.Start

**Starting an export**: from a view and the chosen settings to a request.

If there is a search type behind the selected table, the export is limited to it.
Otherwise a search exports every message of its sole query, whose context goes
into the payload; a dashboard cannot. The request is handed to a receiver, which
is not touched by an export that cannot be started.
-/

namespace MessageExport

/-- The payload of fields and a sort order, without the context of a query. -/
def Payload.ofSettings (fields : List SelectedField) (sort : List SortEntry) : Payload where
  fields := fields.map SelectedField.field
  sort := sort

/-- The payload with the context of a query. -/
def Payload.withQuery (payload : Payload) (query : Query) : Payload :=
  { payload with
    timeRange := some query.timeRange
    queryText := some query.text
    streams := some query.streams }

/-- An export that was started. -/
structure Started where
  request : Request
  /-- What the export leaves out. -/
  warnings : List Warning
  deriving DecidableEq

/-- Start an export of a view, with the settings of a dialog. -/
def View.startExport (view : View) (table : Option Widget) (fields : List SelectedField)
    (sort : List SortEntry) : Except ExportFault Started :=
  let payload := Payload.ofSettings fields sort
  let limited (searchType : SearchType) : Started :=
    ⟨.searchType view.search.id searchType.id payload, []⟩
  match view.kind, view.resolve? table with
  | .dashboard, some searchType => .ok (limited searchType)
  | .dashboard, none => .error .dashboardRequiresWidget
  | .search, resolved =>
      match view.search.queries, resolved with
      | [_], some searchType => .ok (limited searchType)
      | [query], none => .ok ⟨.allMessages (payload.withQuery query), query.streamWarnings⟩
      | queries, _ => .error (.singleQueryRequired queries.length)

/-! ### Where requests go -/

/-- What takes up requests: one operation for each form, on states of its own. -/
structure Receiver (State : Type) where
  /-- Export the messages of one result set. -/
  searchType : Payload → SearchId → SearchTypeId → State → State
  /-- Export every message. -/
  allMessages : Payload → State → State

/-- The receiver that records requests, in the order in which they come. -/
def recorder : Receiver (List Request) where
  searchType payload search id recorded := recorded ++ [.searchType search id payload]
  allMessages payload recorded := recorded ++ [.allMessages payload]

/-- Take up a request. -/
def Receiver.take {State : Type} (receiver : Receiver State) : Request → State → State
  | .searchType search id payload => receiver.searchType payload search id
  | .allMessages payload => receiver.allMessages payload

@[simp] theorem recorder_take (request : Request) (recorded : List Request) :
    recorder.take request recorded = recorded ++ [request] := by
  cases request <;> rfl

/-- Start an export of a view and hand the request to a receiver. -/
def View.exportTo {State : Type} (receiver : Receiver State) (view : View)
    (table : Option Widget) (fields : List SelectedField) (sort : List SortEntry)
    (state : State) : State × Except ExportFault (List Warning) :=
  match view.startExport table fields sort with
  | .ok started => (receiver.take started.request state, .ok started.warnings)
  | .error fault => (state, .error fault)

end MessageExport
