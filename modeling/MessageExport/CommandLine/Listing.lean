import MessageExport.Export.Dialog
/-!
# MessageExport.CommandLine.Listing

The **listing** of what can be exported: message tables and fields.
-/

namespace MessageExport.CommandLine

/-- The line of a table, marked if it is the selected one. -/
def optionLine (selected : Option WidgetId) (option : TableOption) : String :=
  "  " ++ option.widget.raw ++ "  " ++ option.label ++
    (if selected = some option.widget then "  [SELECTED]" else "")

/-- The line of a field. -/
def fieldLine (field : IndexedField) : String :=
  "  " ++ field.name ++ " (" ++ field.type ++ ")"

/-- The hint that a table has to be picked. -/
def pickHint : String := "  (select one with --widget)"

/-- The lines about the tables of a dialog. -/
def tableLines (dialog : Dialog) : List String :=
  dialog.options.map (optionLine (dialog.selected.map Widget.id)) ++
    (if dialog.showsPicker then [pickHint] else [])

/-- The lines of a listing. -/
def listing (dialog : Dialog) (document : Document) (credentialsInUrl : Bool) : List String :=
  [dialog.title, Dialog.infoText credentialsInUrl, "", "Message tables:"] ++ tableLines dialog ++
    ["", "Fields:"] ++ document.fields.map fieldLine

/-- Lines as a text, each ended by a line break. -/
def linesText (lines : List String) : String :=
  String.join (lines.map fun line => line ++ "\n")

end MessageExport.CommandLine
