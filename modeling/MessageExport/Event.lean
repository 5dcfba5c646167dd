import MessageExport.Export.Dialog
import MessageExport.Settings.Resolve
/-!
# MessageExport.Event

The **events** of a run, as its log tells them.

An event has a level, a message and fields. Which events are told, and how a line of the
log looks and which time it bears, is not decided here: that is up to a `Journal`, which
turns each event into the bytes that the log file grows by.
-/

namespace MessageExport

/-- The version of the program. -/
def version : String := "0.1.0"

/-- How much an event matters. -/
inductive Level where
  | debug
  | info
  | warn
  deriving DecidableEq, Repr

/-- What happens in a run. -/
inductive Event where
  /-- Logging has started. -/
  | loggingStarted (path : Path)
  /-- The settings are known. -/
  | settingsResolved (settings : Settings)
  /-- The document is about to be read from the standard input. -/
  | readingInput
  /-- The document is about to be read from a file. -/
  | readingDocument (path : Path)
  /-- Something was left out or refused. -/
  | warned (warning : Warning)
  /-- A dialog was opened on a view, with so many tables. -/
  | dialogOpened (view : ViewId) (kind : ViewKind) (tables : Nat) (selected : Option WidgetId)
  /-- The settings of a table were adopted. -/
  | tableAdopted (table : WidgetId)
  /-- The view maps a table to no search type. -/
  | tableUnmapped (table : WidgetId)
  /-- The view maps a table to a search type that no query has. -/
  | searchTypeMissing (table : WidgetId) (searchType : SearchTypeId)
  /-- The context of a query went into a payload. -/
  | contextMerged (query : QueryId) (streams : List StreamId)
  /-- An export of so many fields is started, of a search type or of every message. -/
  | exportStarted (view : ViewId) (kind : ViewKind) (searchType : Option SearchTypeId)
      (fields : Nat)
  deriving DecidableEq

namespace Event

/-- How much an event matters. -/
def level : Event → Level
  | loggingStarted _ | settingsResolved _ | exportStarted .. => .info
  | warned _ => .warn
  | readingInput | readingDocument _ | dialogOpened .. | tableAdopted _ | tableUnmapped _
  | searchTypeMissing .. | contextMerged .. => .debug

/-- What is said of an event. -/
def message : Event → String
  | loggingStarted _ => "Logging initialized"
  | settingsResolved _ => "Configuration loaded and resolved"
  | readingInput => "Reading view document from stdin"
  | readingDocument _ => "Reading view document"
  | warned warning => warning.message
  | dialogOpened .. => "Opened export dialog"
  | tableAdopted _ => "Applied widget export settings"
  | tableUnmapped _ => "Widget has no search type mapping"
  | searchTypeMissing .. => "Mapped search type not found in search"
  | contextMerged .. => "Merged query context"
  | exportStarted _ .dashboard (some _) _ => "Starting dashboard widget export"
  | exportStarted _ .search (some _) _ => "Starting search widget export"
  | exportStarted _ _ none _ => "Starting export of all messages"

/-- The name of a view kind in diagnostics. -/
def kindDetail : ViewKind → String
  | .search => "Search"
  | .dashboard => "Dashboard"

/-- A stream in diagnostics. -/
def streamDetail (stream : StreamId) : String :=
  Text.positional "StreamId" [Text.quoted stream.raw]

/-- What an event is about, by name. -/
def fields : Event → List (String × String)
  | loggingStarted path => [("log_path", path.text), ("version", Text.quoted version)]
  | settingsResolved settings => [("config", settings.detail)]
  | readingInput => []
  | readingDocument path => [("path", path.text)]
  | warned warning => warning.fields
  | dialogOpened view kind tables selected =>
      [("view_id", view.raw), ("view_type", kindDetail kind), ("widgets", toString tables),
        ("initial_widget", Text.optional (selected.map fun id => Text.quoted id.raw))]
  | tableAdopted table => [("widget_id", table.raw)]
  | tableUnmapped table => [("widget_id", table.raw)]
  | searchTypeMissing table searchType =>
      [("widget_id", table.raw), ("search_type_id", searchType.raw)]
  | contextMerged query streams =>
      [("query_id", query.raw),
        ("streams", Text.optional (some (Text.listed (streams.map streamDetail))))]
  | exportStarted view _ searchType fields =>
      [("view_id", view.raw)] ++
        (searchType.map fun id => ("search_type_id", id.raw)).toList ++
        [("fields", toString fields)]

end Event

/-! ### What happens in a dialog -/

namespace Dialog

/-- What happens when a dialog has been opened on a view. -/
def openingEvents (dialog : Dialog) (view : View) : List Event :=
  dialog.openingWarnings.map .warned ++
    [.dialogOpened view.id view.kind dialog.tables.length (dialog.selected.map Widget.id)]

/-- What happens when a table is selected. -/
def selectionEvents (dialog : Dialog) (id : WidgetId) : List Event :=
  match dialog.selectTable id with
  | .ok _ => [.tableAdopted id]
  | .error _ => (dialog.selectionWarnings id).map .warned

end Dialog

namespace View

/-- What happens when the search type behind a table is looked for. -/
def resolutionEvents (view : View) (table : Option Widget) : List Event :=
  match table with
  | none => []
  | some table =>
      match view.searchTypeIds.find? table.id with
      | none => [.tableUnmapped table.id]
      | some id =>
          if (view.resolve? (some table)).isSome then [] else [.searchTypeMissing table.id id]

/-- What happens when a request of a view is handed over. -/
def requestEvents (view : View) : Request → List Event
  | .searchType _ id payload =>
      [.exportStarted view.id view.kind (some id) payload.fields.length]
  | .allMessages payload =>
      (view.search.queries.map fun query => .contextMerged query.id query.streams) ++
        [.exportStarted view.id view.kind none payload.fields.length]

/-- What happens when an export of a view is started. -/
def exportEvents (view : View) (table : Option Widget) (fields : List SelectedField)
    (sort : List SortEntry) : List Event :=
  view.resolutionEvents table ++
    match view.startExport table fields sort with
    | .error _ => []
    | .ok started => started.warnings.map .warned ++ view.requestEvents started.request

end View

/-- What happens when a download is asked for in a dialog. -/
def Dialog.downloadEvents (dialog : Dialog) (view : View) : List Event :=
  if dialog.downloadEnabled then view.exportEvents dialog.selected dialog.fields dialog.sort
  else []

/-! ### Lines -/

/-- How events are written down. The line of an event depends on how many came before, for
it bears the time, and is empty if the event is not to be told. -/
structure Journal where
  line : Nat → Event → List UInt8

namespace Journal

/-- The journal that tells nothing. -/
def silent : Journal where
  line _ _ := []

/-- The journal that tells the events of some levels, each with its level, message and
fields behind a time. -/
def plain (told : Level → Bool) (time : Nat → String) : Journal where
  line count event :=
    if told event.level then
      let name := match event.level with
        | .debug => "DEBUG"
        | .info => " INFO"
        | .warn => " WARN"
      let fields := event.fields.map fun (label, x) => " " ++ label ++ "=" ++ x
      Text.encode (time count ++ name ++ " " ++ event.message ++ String.join fields ++ "\n")
    else []

/-- The lines of events, after so many others. -/
def lines (journal : Journal) : Nat → List Event → List UInt8
  | _, [] => []
  | count, event :: events => journal.line count event ++ journal.lines (count + 1) events

end Journal

end MessageExport
