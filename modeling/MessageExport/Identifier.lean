/-!
# MessageExport.Identifier

The **identifiers** that documents and requests refer to. There are six kinds,
one per entity, and an identifier of any kind is a string that is not empty.
The kind is an index of the type, so a widget's identifier cannot stand where a
stream's is meant; the one way in from a raw string is `Identifier.ofString?`,
which refuses exactly the empty string.
-/

namespace MessageExport

/-- The entities that carry an identifier. -/
inductive IdKind where
  | view
  | search
  | query
  | widget
  | searchType
  | stream
  deriving DecidableEq, Repr

/-- The name of an identifier kind in messages. -/
def IdKind.label : IdKind → String
  | .view => "View ID"
  | .search => "Search ID"
  | .query => "Query ID"
  | .widget => "Widget ID"
  | .searchType => "Search type ID"
  | .stream => "Stream ID"

/-- What is said of an identifier that was left empty. -/
def IdKind.emptyMessage (kind : IdKind) : String :=
  kind.label ++ " cannot be empty"

/-- An identifier of the given kind: any string but the empty one. -/
structure Identifier (kind : IdKind) where
  /-- The identifier as it is written. -/
  raw : String
  nonempty : raw ≠ ""
  deriving DecidableEq

abbrev ViewId := Identifier .view
abbrev SearchId := Identifier .search
abbrev QueryId := Identifier .query
abbrev WidgetId := Identifier .widget
abbrev SearchTypeId := Identifier .searchType
abbrev StreamId := Identifier .stream

namespace Identifier

variable {kind : IdKind}

/-- Two identifiers of a kind are equal as soon as they are written alike. -/
@[ext] theorem ext {a b : Identifier kind} (h : a.raw = b.raw) : a = b := by
  cases a
  cases b
  cases h
  rfl

/-- The identifier written `raw`, unless `raw` is empty. -/
def ofString? (kind : IdKind) (raw : String) : Option (Identifier kind) :=
  if h : raw = "" then none else some ⟨raw, h⟩

@[simp] theorem ofString?_raw (id : Identifier kind) : ofString? kind id.raw = some id := by
  rw [ofString?, dif_neg id.nonempty]

theorem ofString?_eq_some {raw : String} {id : Identifier kind} :
    ofString? kind raw = some id ↔ id.raw = raw := by
  constructor
  · intro h
    unfold ofString? at h
    split at h
    · cases h
    · cases h
      rfl
  · rintro rfl
    exact ofString?_raw id

theorem ofString?_eq_none {raw : String} : ofString? kind raw = none ↔ raw = "" := by
  unfold ofString?
  split <;> simp_all

end Identifier

end MessageExport
