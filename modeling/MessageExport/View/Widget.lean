import MessageExport.Identifier
import MessageExport.Sort
/-!
# MessageExport.View.Widget

**Widgets** and the settings of **message tables**, the one kind of widget
whose rows can be exported.
-/

namespace MessageExport

/-- What a message table shows: its columns and its sort order. -/
structure TableSettings where
  /-- The columns, in order. -/
  fields : List String := []
  /-- The sort order, first entry first. -/
  sort : List SortEntry := []
  deriving DecidableEq, Repr, Inhabited

/-- A visualisation placed in a view. -/
structure Widget where
  id : WidgetId
  /-- What the widget shows; message tables are `messages`. -/
  type : String
  settings : TableSettings := {}
  deriving DecidableEq

/-- The type of the widgets that are message tables. -/
def messageTableType : String := "messages"

/-- The widget is a message table. -/
def Widget.isMessageTable (widget : Widget) : Bool :=
  widget.type == messageTableType

end MessageExport
