import MessageExport.Identifier
import MessageExport.Text.Structure
/-!
# MessageExport.Export.Fault

Why an **export cannot be prepared or started**.
-/

namespace MessageExport

/-- Why an export cannot be prepared or started. -/
inductive ExportFault where
  /-- A dashboard export is not scoped to the result set of a message table. -/
  | dashboardRequiresWidget
  /-- A search has no query, or several. -/
  | singleQueryRequired (count : Nat)
  /-- The widget is not a message table of the view. -/
  | unknownWidget (id : WidgetId)
  /-- The settings are not complete yet. -/
  | downloadDisabled
  /-- The dialog was opened for one widget. -/
  | selectionLocked (fixed : WidgetId)
  /-- There is no other message table to go back for. -/
  | reselectionNotAllowed
  deriving DecidableEq

/-- A widget's identifier in diagnostics. -/
def WidgetId.detail (id : WidgetId) : String :=
  Text.positional "WidgetId" [Text.quoted id.raw]

namespace ExportFault

/-- What is said of a fault. -/
def message : ExportFault → String
  | dashboardRequiresWidget => "CSV exports on a dashboard require a selected widget"
  | singleQueryRequired count =>
      "Searches must only have a single query (found " ++ toString count ++ ")"
  | unknownWidget id => "Widget " ++ id.raw ++ " is not a message table of this view"
  | downloadDisabled => "Download is not enabled until the export settings are complete"
  | selectionLocked fixed =>
      "Export is fixed to widget " ++ fixed.raw ++ "; no other widget can be selected"
  | reselectionNotAllowed => "Selecting a different message table is not available here"

/-- The fault in diagnostics. -/
def detail : ExportFault → String
  | dashboardRequiresWidget => "DashboardRequiresWidget"
  | singleQueryRequired count => Text.labelled "SingleQueryRequired" [("count", toString count)]
  | unknownWidget id => Text.labelled "UnknownWidget" [("id", WidgetId.detail id)]
  | downloadDisabled => "DownloadDisabled"
  | selectionLocked fixed =>
      Text.labelled "WidgetSelectionLocked" [("fixed", WidgetId.detail fixed)]
  | reselectionNotAllowed => "ReselectionNotAllowed"

end ExportFault

end MessageExport
