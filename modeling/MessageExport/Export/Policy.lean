import MessageExport.Export.Table
/-!
# MessageExport.Export.Policy

What a dialog does **by the kind of its view**.

A search can export everything it finds, so it needs no table as long as there is
no choice between several. A dashboard always needs one, and even a sole table
has to be chosen. A dialog that is *single* was opened for one widget and leaves
no choice.
-/

namespace MessageExport.ViewKind

/-- The title of the dialog. -/
def title : ViewKind → String
  | .search => "Export all search results"
  | .dashboard => "Export message table search results"

/-- The table that is selected at first: the one that the dialog is opened for, if it
is a table, or else the sole table of a search. -/
def initialTable (kind : ViewKind) (tables : List Widget) (fixed : Option WidgetId) :
    Option Widget :=
  match fixed, kind, tables with
  | some id, _, _ => findTable? tables id
  | none, .search, [only] => some only
  | none, _, _ => none

/-- Whether a table is to be picked. -/
def showsPicker (kind : ViewKind) (single : Bool) (selected : Option Widget)
    (tables : List Widget) : Bool :=
  match kind with
  | .search => !single && selected.isNone && decide (1 < tables.length)
  | .dashboard => !single && selected.isNone

/-- Whether the selection can be taken back, given whether a table is to be picked. -/
def allowsReselection (kind : ViewKind) (single picking : Bool) (tables : List Widget) : Bool :=
  match kind with
  | .search => !single && !picking && decide (1 < tables.length)
  | .dashboard => !single && !picking

/-- Whether the export can be started, given whether a table is to be picked. -/
def enablesDownload (kind : ViewKind) (picking : Bool) (selected : Option Widget) : Bool :=
  match kind with
  | .search => !picking
  | .dashboard => selected.isSome

end MessageExport.ViewKind
