import MessageExport.Identifier
/-!
# MessageExport.Export.Warning

**Warnings**: what was left out or refused on the way, although the work went on.
-/

namespace MessageExport

/-- Something that was left out or refused. -/
inductive Warning where
  /-- A stream filter names no stream and is left out. -/
  | streamWithoutId
  /-- A stream filter names the empty stream and is left out. -/
  | streamWithEmptyId
  /-- The widget that a dialog is opened for is not a message table. -/
  | fixedWidgetUnknown (widget : WidgetId)
  /-- A widget was selected in a dialog opened for another one, or for itself. -/
  | selectionRejected (widget fixed : WidgetId)
  deriving DecidableEq

namespace Warning

/-- What is said of a warning. -/
def message : Warning → String
  | streamWithoutId => "Skipping stream filter without id"
  | streamWithEmptyId => "Skipping stream filter with invalid id"
  | fixedWidgetUnknown _ => "Fixed widget is not a message table of this view"
  | selectionRejected _ _ => "Rejected selection in fixed-widget dialog"

/-- What a warning is about, by name. -/
def fields : Warning → List (String × String)
  | streamWithoutId => []
  | streamWithEmptyId => [("error", IdKind.stream.emptyMessage)]
  | fixedWidgetUnknown widget => [("widget_id", widget.raw)]
  | selectionRejected widget fixed =>
      [("widget_id", widget.raw), ("fixed_widget_id", fixed.raw)]

end Warning

end MessageExport
