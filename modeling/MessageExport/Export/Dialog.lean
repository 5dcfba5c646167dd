import MessageExport.Export.Policy
import MessageExport.Export.Start
/-!
# MessageExport.Export.Dialog

The **dialog** in which an export is prepared.

A dialog is opened on a view and keeps what it needs of it. It is then changed by
steps: each either succeeds, or is refused with a fault and changes nothing. A
download hands out a request and leaves the dialog as it is.
-/

namespace MessageExport

/-- The state of a dialog. -/
structure Dialog where
  /-- The kind of the view that the dialog was opened on. -/
  kind : ViewKind
  /-- The widget that the dialog was opened for, if it was opened for one. -/
  fixed : Option WidgetId
  /-- The message tables of the view. -/
  tables : List Widget
  /-- The titles of the view. -/
  titles : IdMap .widget String
  selected : Option Widget
  fields : List SelectedField
  sort : List SortEntry

/-- The fields with the given names. -/
def selectNames (names : List String) : List SelectedField :=
  names.map fun name => ⟨name⟩

@[simp] theorem map_field_selectNames (names : List String) :
    (selectNames names).map SelectedField.field = names := by
  unfold selectNames
  rw [List.map_map]
  exact List.map_id names

namespace Dialog

/-- The dialog on a view. A table that is selected at first brings its own settings. -/
def ofView (view : View) (fixed : Option WidgetId) (defaultFields : List String) : Dialog :=
  let tables := view.messageTables
  let selected := view.kind.initialTable tables fixed
  { kind := view.kind
    fixed
    tables
    titles := view.titles
    selected
    fields := selectNames (match selected with
      | some table => table.settings.fields
      | none => defaultFields)
    sort := match selected with
      | some table => table.settings.sort
      | none => [] }

/-- What opening a dialog warns of: that it is not opened for a message table. -/
def openingWarnings (dialog : Dialog) : List Warning :=
  match dialog.fixed, dialog.selected with
  | some id, none => [.fixedWidgetUnknown id]
  | _, _ => []

/-! ### What the dialog shows -/

/-- The title of the dialog. -/
def title (dialog : Dialog) : String :=
  dialog.kind.title

/-- The dialog was opened for one widget. -/
def isSingle (dialog : Dialog) : Bool :=
  dialog.fixed.isSome

/-- Whether a table is to be picked. -/
def showsPicker (dialog : Dialog) : Bool :=
  dialog.kind.showsPicker dialog.isSingle dialog.selected dialog.tables

/-- Whether the selection can be taken back. -/
def allowsReselection (dialog : Dialog) : Bool :=
  dialog.kind.allowsReselection dialog.isSingle dialog.showsPicker dialog.tables

/-- Whether the export can be started. -/
def downloadEnabled (dialog : Dialog) : Bool :=
  dialog.kind.enablesDownload dialog.showsPicker dialog.selected

/-- The tables that are offered. -/
def options (dialog : Dialog) : List TableOption :=
  dialog.tables.map (Widget.option dialog.titles)

/-- The direction of the first sort entry. -/
def sortDirection (dialog : Dialog) : Option Direction :=
  dialog.sort.head?.map SortEntry.direction

/-- The hint under the title, by whether the browser takes credentials from the link. -/
def infoText (credentialsInUrl : Bool) : String :=
  if credentialsInUrl then
    "Please right click the download link below and choose \"Save Link As...\" to download the CSV file."
  else
    "Please click the download link below. Your browser may ask for your username and password to download the CSV file."

/-! ### Steps -/

/-- What can be done in a dialog. -/
inductive Step where
  /-- Select a table, and adopt its settings. -/
  | selectTable (id : WidgetId)
  /-- Take the selection back. -/
  | resetSelection
  /-- Choose the fields. -/
  | selectFields (names : List String)
  /-- Choose the sort order. -/
  | setSort (entries : List SortEntry)
  /-- Sort every entry in one direction. -/
  | setSortDirection (direction : Direction)
  /-- Start the export of a view. -/
  | download (view : View)

/-- What comes of a step. -/
structure Reply where
  /-- The dialog after the step. -/
  dialog : Dialog
  /-- The request of a download, or nothing, unless the step is refused. -/
  result : Except ExportFault (Option Request)
  warnings : List Warning := []

/-- Select a table, unless the dialog was opened for a widget. -/
def selectTable (dialog : Dialog) (id : WidgetId) : Except ExportFault Dialog :=
  match dialog.fixed with
  | some fixed => .error (.selectionLocked fixed)
  | none =>
      match findTable? dialog.tables id with
      | none => .error (.unknownWidget id)
      | some table =>
          .ok { dialog with
            selected := some table
            fields := selectNames table.settings.fields
            sort := table.settings.sort }

/-- Take the selection back; the settings stay. -/
def resetSelection (dialog : Dialog) : Except ExportFault Dialog :=
  if dialog.allowsReselection then .ok { dialog with selected := none }
  else .error .reselectionNotAllowed

/-- Choose the fields. -/
def selectFields (dialog : Dialog) (names : List String) : Dialog :=
  { dialog with fields := selectNames names }

/-- Choose the sort order. -/
def setSort (dialog : Dialog) (entries : List SortEntry) : Dialog :=
  { dialog with sort := entries }

/-- Sort every entry in one direction. -/
def setSortDirection (dialog : Dialog) (direction : Direction) : Dialog :=
  { dialog with sort := dialog.sort.map fun entry => entry.withDirection direction }

/-- Start the export of a view with the settings of the dialog. -/
def download (dialog : Dialog) (view : View) : Except ExportFault Started :=
  if dialog.downloadEnabled then view.startExport dialog.selected dialog.fields dialog.sort
  else .error .downloadDisabled

/-- What a selection warns of: that it is refused because the dialog is single. -/
def selectionWarnings (dialog : Dialog) (id : WidgetId) : List Warning :=
  match dialog.fixed with
  | some fixed => [.selectionRejected id fixed]
  | none => []

/-- The reply to a step that gives a new dialog or is refused. -/
def replyOf (dialog : Dialog) (warnings : List Warning) : Except ExportFault Dialog → Reply
  | .ok changed => ⟨changed, .ok none, warnings⟩
  | .error fault => ⟨dialog, .error fault, warnings⟩

/-- Take a step. -/
def step (dialog : Dialog) : Step → Reply
  | .selectTable id => dialog.replyOf (dialog.selectionWarnings id) (dialog.selectTable id)
  | .resetSelection => dialog.replyOf [] dialog.resetSelection
  | .selectFields names => dialog.replyOf [] (.ok (dialog.selectFields names))
  | .setSort entries => dialog.replyOf [] (.ok (dialog.setSort entries))
  | .setSortDirection direction => dialog.replyOf [] (.ok (dialog.setSortDirection direction))
  | .download view =>
      match dialog.download view with
      | .ok started => ⟨dialog, .ok (some started.request), started.warnings⟩
      | .error fault => ⟨dialog, .error fault, []⟩

/-- Take steps one after another: the replies, in order. -/
def run (dialog : Dialog) : List Step → List Reply
  | [] => []
  | step :: steps =>
      let reply := dialog.step step
      reply :: reply.dialog.run steps

/-- The dialog after steps. -/
def after (dialog : Dialog) (steps : List Step) : Dialog :=
  steps.foldl (fun dialog step => (dialog.step step).dialog) dialog

/-- The requests handed out by a list of replies. -/
def requestsOf (replies : List Reply) : List Request :=
  replies.filterMap fun reply => reply.result.toOption.join

end Dialog

end MessageExport
