import MessageExport.Json.Tree
import MessageExport.Wire.Shape
/-!
# MessageExport.Wire.Encode

**Encoding** values as JSON trees.

Members are written in the order of the catalog. What is absent is written as
`null`, except in filters and payloads, where it is left out.
-/

namespace MessageExport

open Json (Tree)

namespace Wire

/-- A string. -/
def textTree (s : String) : Tree := .text s

/-- A list. -/
def listTree {α : Type} (encode : α → Tree) (values : List α) : Tree :=
  .array (values.map encode)

/-- A dictionary, by increasing key. -/
def dictionaryTree {kind : IdKind} {α : Type} (encode : α → Tree) (m : IdMap kind α) : Tree :=
  .object (m.entries.map fun entry => (entry.1.raw, encode entry.2))

/-- A value that may be absent, as `null` then. -/
def nullableTree {α : Type} (encode : α → Tree) : Option α → Tree
  | none => .null
  | some value => encode value

/-- A member that is left out when it is absent. -/
def ifPresent {α : Type} (name : String) (encode : α → Tree) : Option α → List (String × Tree)
  | none => []
  | some value => [(name, encode value)]

end Wire

open Wire

def Identifier.toJson {kind : IdKind} (id : Identifier kind) : Tree := .text id.raw

def Instant.toJson (t : Instant) : Tree := .text (toString t)

def ViewKind.toJson (kind : ViewKind) : Tree := .text kind.wireName

def Direction.toJson (direction : Direction) : Tree := .text direction.wireName

def SortEntry.toJson (entry : SortEntry) : Tree :=
  .object [("field", .text entry.field), ("direction", entry.direction.toJson)]

def TableSettings.toJson (settings : TableSettings) : Tree :=
  .object
    [("fields", listTree textTree settings.fields),
      ("sort", listTree SortEntry.toJson settings.sort)]

def Widget.toJson (widget : Widget) : Tree :=
  .object
    [("id", widget.id.toJson),
      ("type", .text widget.type),
      ("config", widget.settings.toJson)]

def TimeRange.toJson : TimeRange → Tree
  | .relative range =>
      .object [("type", .text "relative"), ("range", .number (.natural range))]
  | .absolute start stop =>
      .object [("type", .text "absolute"), ("from", start.toJson), ("to", stop.toJson)]
  | .keyword text => .object [("type", .text "keyword"), ("keyword", .text text)]

def QueryText.toJson (q : QueryText) : Tree :=
  .object [("type", .text q.type), ("query_string", .text q.text)]

mutual

/-- A filter. An absent id and an empty list of children are left out. -/
def Filter.toJson : Filter → Tree
  | ⟨type, id, children⟩ =>
      .object (("type", .text type) :: (ifPresent "id" textTree id ++
        match children with
        | [] => []
        | child :: more => [("filters", .array (child.toJson :: Filter.listToJson more))]))

/-- A list of filters, each encoded. -/
def Filter.listToJson : List Filter → List Tree
  | [] => []
  | filter :: more => filter.toJson :: Filter.listToJson more

end

def SearchType.toJson (searchType : SearchType) : Tree :=
  .object [("id", searchType.id.toJson), ("type", .text searchType.type)]

def Query.toJson (query : Query) : Tree :=
  .object
    [("id", query.id.toJson),
      ("timerange", query.timeRange.toJson),
      ("query", query.text.toJson),
      ("filter", nullableTree Filter.toJson query.filter),
      ("search_types", listTree SearchType.toJson query.searchTypes)]

def Search.toJson (search : Search) : Tree :=
  .object [("id", search.id.toJson), ("queries", listTree Query.toJson search.queries)]

def Titles.toJson (titles : Titles) : Tree :=
  .object [("widget", dictionaryTree textTree titles.widget)]

def ViewState.toJson (state : ViewState) : Tree :=
  .object
    [("query_id", nullableTree Identifier.toJson state.query),
      ("widgets", listTree Widget.toJson state.widgets),
      ("titles", state.titles.toJson),
      ("widget_mapping", dictionaryTree Identifier.toJson state.searchTypes)]

def View.toJson (view : View) : Tree :=
  .object
    [("id", view.id.toJson),
      ("type", view.kind.toJson),
      ("search", view.search.toJson),
      ("state", listTree ViewState.toJson view.states)]

def IndexedField.toJson (field : IndexedField) : Tree :=
  .object [("name", .text field.name), ("type", .text field.type)]

def Document.toJson (document : Document) : Tree :=
  .object
    [("view", document.view.toJson), ("fields", listTree IndexedField.toJson document.fields)]

def SelectedField.toJson (field : SelectedField) : Tree :=
  .object [("field", .text field.field)]

/-- A payload. The context of a query is left out where it is absent. -/
def Payload.toJson (payload : Payload) : Tree :=
  .object
    ([("fields_in_order", listTree textTree payload.fields),
      ("sort", listTree SortEntry.toJson payload.sort)] ++
      ifPresent "timerange" TimeRange.toJson payload.timeRange ++
      ifPresent "query_string" QueryText.toJson payload.queryText ++
      ifPresent "streams" (listTree Identifier.toJson) payload.streams)

def Request.toJson : Request → Tree
  | .searchType search target payload =>
      .object
        [("kind", .text "search_type"),
          ("search_id", search.toJson),
          ("search_type_id", target.toJson),
          ("payload", payload.toJson)]
  | .allMessages payload =>
      .object [("kind", .text "all_messages"), ("payload", payload.toJson)]

namespace Wire

/-- Encode a choice. -/
def ChoiceKind.toJson : (kind : ChoiceKind) → kind.Value → Tree
  | .viewKind, value => ViewKind.toJson value
  | .direction, value => Direction.toJson value

/-- Encode a record. -/
def RecordKind.toJson : (kind : RecordKind) → kind.Value → Tree
  | .document, value => Document.toJson value
  | .view, value => View.toJson value
  | .search, value => Search.toJson value
  | .viewState, value => ViewState.toJson value
  | .titles, value => Titles.toJson value
  | .query, value => Query.toJson value
  | .queryText, value => QueryText.toJson value
  | .filter, value => Filter.toJson value
  | .searchType, value => SearchType.toJson value
  | .sortEntry, value => SortEntry.toJson value
  | .tableSettings, value => TableSettings.toJson value
  | .widget, value => Widget.toJson value
  | .indexedField, value => IndexedField.toJson value
  | .selectedField, value => SelectedField.toJson value
  | .payload, value => Payload.toJson value

/-- Encode a tagged record. -/
def TaggedKind.toJson : (kind : TaggedKind) → kind.Value → Tree
  | .timeRange, value => TimeRange.toJson value
  | .request, value => Request.toJson value

/-- Encode a value of a shape. -/
def Shape.toJson : (shape : Shape) → shape.Value → Tree
  | .text, value => .text value
  | .identifier _, value => Identifier.toJson value
  | .natural, value => .number (.natural value)
  | .instant, value => Instant.toJson value
  | .choice kind, value => kind.toJson value
  | .list element, values => listTree element.toJson values
  | .dictionary _ value, entries => dictionaryTree value.toJson entries
  | .record kind, value => kind.toJson value
  | .tagged kind, value => kind.toJson value

end Wire

end MessageExport
