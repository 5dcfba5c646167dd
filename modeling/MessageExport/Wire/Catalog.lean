import MessageExport.Wire.Shape
/-!
# MessageExport.Wire.Catalog

The **catalog** of the wire format: the names of each choice, the members of each
record and the variants of each tagged record, in the order in which they are
written.
-/

namespace MessageExport.Wire

/-! ### Records -/

/-- A document: the view, and the fields that can be exported. -/
def documentRecord : Record Document where
  label := "struct ViewDocument"
  members :=
    [.required "view" (.record .view), .defaulted "fields" (.list (.record .indexedField)) []]
  make := fun (view, fields, ()) => { view, fields }

/-- A view, its kind under `type` and its states under `state`. -/
def viewRecord : Record View where
  label := "struct View"
  members :=
    [.required "id" (.identifier .view),
      .required "type" (.choice .viewKind),
      .required "search" (.record .search),
      .defaulted "state" (.list (.record .viewState)) []]
  make := fun (id, kind, search, states, ()) => { id, kind, search, states }

/-- A search. -/
def searchRecord : Record Search where
  label := "struct Search"
  members :=
    [.required "id" (.identifier .search), .defaulted "queries" (.list (.record .query)) []]
  make := fun (id, queries, ()) => { id, queries }

/-- A view state. Its query is the one member that an array cannot leave out although
an object can. -/
def viewStateRecord : Record ViewState where
  label := "struct ViewState"
  members :=
    [.nullable "query_id" (.identifier .query),
      .defaulted "widgets" (.list (.record .widget)) [],
      .defaulted "titles" (.record .titles) {},
      .defaulted "widget_mapping" (.dictionary .widget (.identifier .searchType)) .empty]
  make := fun (query, widgets, titles, searchTypes, ()) =>
    { query, widgets, titles, searchTypes }

/-- The titles of a view state. -/
def titlesRecord : Record Titles where
  label := "struct Titles"
  members := [.defaulted "widget" (.dictionary .widget .text) .empty]
  make := fun (widget, ()) => { widget }

/-- A query. -/
def queryRecord : Record Query where
  label := "struct Query"
  members :=
    [.required "id" (.identifier .query),
      .required "timerange" (.tagged .timeRange),
      .defaulted "query" (.record .queryText) default,
      .optional "filter" (.record .filter),
      .defaulted "search_types" (.list (.record .searchType)) []]
  make := fun (id, timeRange, text, filter, searchTypes, ()) =>
    { id, timeRange, text, filter, searchTypes }

/-- A query text, under `query_string`, and its language. -/
def queryTextRecord : Record QueryText where
  label := "struct QueryString"
  members := [.required "type" .text, .defaulted "query_string" .text ""]
  make := fun (type, text, ()) => { type, text }

/-- A node of a filter tree. -/
def filterRecord : Record Filter where
  label := "struct Filter"
  members :=
    [.required "type" .text,
      .optional "id" .text,
      .defaulted "filters" (.list (.record .filter)) []]
  make := fun (type, id, children, ()) => { type, id, children }

/-- A search type. -/
def searchTypeRecord : Record SearchType where
  label := "struct SearchType"
  members := [.required "id" (.identifier .searchType), .required "type" .text]
  make := fun (id, type, ()) => { id, type }

/-- A sort entry. -/
def sortEntryRecord : Record SortEntry where
  label := "struct SortConfig"
  members := [.required "field" .text, .required "direction" (.choice .direction)]
  make := fun (field, direction, ()) => { field, direction }

/-- The settings of a message table. -/
def tableSettingsRecord : Record TableSettings where
  label := "struct WidgetConfig"
  members :=
    [.defaulted "fields" (.list .text) [], .defaulted "sort" (.list (.record .sortEntry)) []]
  make := fun (fields, sort, ()) => { fields, sort }

/-- A widget, its settings under `config`. -/
def widgetRecord : Record Widget where
  label := "struct Widget"
  members :=
    [.required "id" (.identifier .widget),
      .required "type" .text,
      .defaulted "config" (.record .tableSettings) {}]
  make := fun (id, type, settings, ()) => { id, type, settings }

/-- A field and its type. -/
def indexedFieldRecord : Record IndexedField where
  label := "struct FieldTypeMapping"
  members := [.required "name" .text, .required "type" .text]
  make := fun (name, type, ()) => { name, type }

/-- A selected field. -/
def selectedFieldRecord : Record SelectedField where
  label := "struct SelectedField"
  members := [.required "field" .text]
  make := fun (field, ()) => { field }

/-- A payload; the context of a query may be absent. -/
def payloadRecord : Record Payload where
  label := "struct ExportPayload"
  members :=
    [.required "fields_in_order" (.list .text),
      .required "sort" (.list (.record .sortEntry)),
      .optional "timerange" (.tagged .timeRange),
      .optional "query_string" (.record .queryText),
      .optional "streams" (.list (.identifier .stream))]
  make := fun (fields, sort, timeRange, queryText, streams, ()) =>
    { fields, sort, timeRange, queryText, streams }

/-! ### Variants -/

/-- The last so many seconds. -/
def relativeVariant : Variant TimeRange where
  name := "relative"
  record :=
    { label := "struct variant TimeRange::Relative"
      members := [.required "range" .natural]
      make := fun (range, ()) => .relative range }

/-- Between two instants. -/
def absoluteVariant : Variant TimeRange where
  name := "absolute"
  record :=
    { label := "struct variant TimeRange::Absolute"
      members := [.required "from" .instant, .required "to" .instant]
      make := fun (start, stop, ()) => .absolute start stop }

/-- A range in words. -/
def keywordVariant : Variant TimeRange where
  name := "keyword"
  record :=
    { label := "struct variant TimeRange::Keyword"
      members := [.required "keyword" .text]
      make := fun (text, ()) => .keyword text }

/-- The messages of one result set. -/
def searchTypeVariant : Variant Request where
  name := "search_type"
  record :=
    { label := "struct variant ExportRequest::SearchType"
      members :=
        [.required "search_id" (.identifier .search),
          .required "search_type_id" (.identifier .searchType),
          .required "payload" (.record .payload)]
      make := fun (search, searchType, payload, ()) => .searchType search searchType payload }

/-- Every message of a search. -/
def allMessagesVariant : Variant Request where
  name := "all_messages"
  record :=
    { label := "struct variant ExportRequest::AllMessages"
      members := [.required "payload" (.record .payload)]
      make := fun (payload, ()) => .allMessages payload }

/-! ### The catalog -/

/-- The names of a choice, with what they stand for. -/
def ChoiceKind.names : (kind : ChoiceKind) → List (String × kind.Value)
  | .viewKind => [ViewKind.search, ViewKind.dashboard].map fun k => (k.wireName, k)
  | .direction => [Direction.ascending, Direction.descending].map fun d => (d.wireName, d)

/-- How a record is written. -/
def RecordKind.record : (kind : RecordKind) → Record kind.Value
  | .document => documentRecord
  | .view => viewRecord
  | .search => searchRecord
  | .viewState => viewStateRecord
  | .titles => titlesRecord
  | .query => queryRecord
  | .queryText => queryTextRecord
  | .filter => filterRecord
  | .searchType => searchTypeRecord
  | .sortEntry => sortEntryRecord
  | .tableSettings => tableSettingsRecord
  | .widget => widgetRecord
  | .indexedField => indexedFieldRecord
  | .selectedField => selectedFieldRecord
  | .payload => payloadRecord

/-- What a tagged record is called where something else was found. -/
def TaggedKind.label : TaggedKind → String
  | .timeRange => "TimeRange"
  | .request => "ExportRequest"

/-- The member that names the variant. -/
def TaggedKind.tag : TaggedKind → String
  | .timeRange => "type"
  | .request => "kind"

/-- The variants of a tagged record. -/
def TaggedKind.variants : (kind : TaggedKind) → List (Variant kind.Value)
  | .timeRange => [relativeVariant, absoluteVariant, keywordVariant]
  | .request => [searchTypeVariant, allMessagesVariant]

/-- What a value of a shape is called where something else was found. -/
def Shape.label : Shape → String
  | .text => "a string"
  | .identifier _ => "a string"
  | .natural => "u64"
  | .instant => "an RFC 3339 formatted date and time string"
  | .choice _ => "string or map"
  | .list _ => "a sequence"
  | .dictionary _ _ => "a map"
  | .record kind => kind.record.label
  | .tagged kind => "internally tagged enum " ++ kind.label

end MessageExport.Wire
