import MessageExport.Proofs.Wire.Acceptance
import MessageExport.View.Load
/-!
# MessageExport.Proofs.View.Grammar

The **grammar of documents**: which JSON trees describe a document.

The grammar is written out type by type, and each type of the catalog is shown to accept
its part of it. Names that are not listed may stand in any object with any value.
-/

namespace MessageExport

open Json (Content Source Tree)
open Wire

namespace Grammar

/-! ### The grammar -/

/-- An indexed field. -/
def IsIndexedField : Tree → Prop :=
  IsObject fun members => Has "name" IsText members ∧ Has "type" IsText members

/-- A search type. -/
def IsSearchType : Tree → Prop :=
  IsObject fun members => Has "id" IsNonempty members ∧ Has "type" IsText members

/-- A query text. -/
def IsQueryText : Tree → Prop :=
  IsObject fun members => Has "type" IsText members ∧ MayHave "query_string" IsText members

/-- A time range: relative, absolute or in words. -/
def IsTimeRange : Tree → Prop :=
  IsObject fun members =>
    (Has "type" (IsOneOf ["relative"]) members ∧ Has "range" IsNatural members) ∨
      (Has "type" (IsOneOf ["absolute"]) members ∧
        Has "from" IsTimestamp members ∧ Has "to" IsTimestamp members) ∨
      (Has "type" (IsOneOf ["keyword"]) members ∧ Has "keyword" IsText members)

/-- A filter, with filters below it. -/
inductive IsFilter : Tree → Prop where
  | node {members : List (String × Tree)} (type : Has "type" IsText members)
      (id : MayHave "id" (IsNullOr IsText) members)
      (filters : ∀ tree, ("filters", tree) ∈ members → ∃ elements, tree = .array elements)
      (below : ∀ elements, ("filters", .array elements) ∈ members → ∀ e ∈ elements, IsFilter e) :
      IsFilter (.object members)

/-- A query. -/
def IsQuery : Tree → Prop :=
  IsObject fun members =>
    Has "id" IsNonempty members ∧ Has "timerange" IsTimeRange members ∧
      MayHave "query" IsQueryText members ∧ MayHave "filter" (IsNullOr IsFilter) members ∧
        MayHave "search_types" (IsListOf IsSearchType) members

/-- A search. -/
def IsSearch : Tree → Prop :=
  IsObject fun members => Has "id" IsNonempty members ∧ MayHave "queries" (IsListOf IsQuery) members

/-- A sort entry. -/
def IsSortEntry : Tree → Prop :=
  IsObject fun members =>
    Has "field" IsText members ∧ Has "direction" (IsOneOf ["Ascending", "Descending"]) members

/-- The settings of a message table. -/
def IsTableSettings : Tree → Prop :=
  IsObject fun members =>
    MayHave "fields" (IsListOf IsText) members ∧ MayHave "sort" (IsListOf IsSortEntry) members

/-- A widget. -/
def IsWidget : Tree → Prop :=
  IsObject fun members =>
    Has "id" IsNonempty members ∧ Has "type" IsText members ∧
      MayHave "config" IsTableSettings members

/-- The titles of a view state. -/
def IsTitles : Tree → Prop :=
  IsObject fun members => MayHave "widget" (IsDictionaryOf IsText) members

/-- A view state. -/
def IsViewState : Tree → Prop :=
  IsObject fun members =>
    MayHave "query_id" (IsNullOr IsNonempty) members ∧
      MayHave "widgets" (IsListOf IsWidget) members ∧ MayHave "titles" IsTitles members ∧
        MayHave "widget_mapping" (IsDictionaryOf IsNonempty) members

/-- A view. -/
def IsView : Tree → Prop :=
  IsObject fun members =>
    Has "id" IsNonempty members ∧ Has "type" (IsOneOf ["SEARCH", "DASHBOARD"]) members ∧
      Has "search" IsSearch members ∧ MayHave "state" (IsListOf IsViewState) members

/-- A document. -/
def IsDocument : Tree → Prop :=
  IsObject fun members =>
    Has "view" IsView members ∧ MayHave "fields" (IsListOf IsIndexedField) members

/-! ### What is accepted -/

variable {buffered : Bool} {depth : Nat}

/-- The members of a record are accepted one by one. -/
theorem accepts_of_members {kind : RecordKind} {P : List (String × Tree) → Prop}
    {Ps : List (Tree → Prop)}
    (h : ∀ inner < depth,
      List.Forall₂ (fun m P => Accepts buffered inner m.slot.shape P) kind.record.members Ps)
    (hP : ∀ members, List.Forall₂ (fun m P => m.Holds P members) kind.record.members Ps ↔
      P members) : Accepts buffered depth (.record kind) (IsObject P) := by
  intro tree hdepth hdistinct hplain
  rw [accepts_record kind h tree hdepth hdistinct hplain]
  simp only [IsObject, hP]

theorem accepts_indexedField : Accepts buffered depth (.record .indexedField) IsIndexedField :=
  accepts_of_members (fun _ _ => .cons accepts_text (.cons accepts_text .nil))
    (by simp [RecordKind.record, indexedFieldRecord, Member.Holds, Slot.Holds])

theorem accepts_searchType : Accepts buffered depth (.record .searchType) IsSearchType :=
  accepts_of_members (fun _ _ => .cons (accepts_identifier _) (.cons accepts_text .nil))
    (by simp [RecordKind.record, searchTypeRecord, Member.Holds, Slot.Holds])

theorem accepts_queryText : Accepts buffered depth (.record .queryText) IsQueryText :=
  accepts_of_members (fun _ _ => .cons accepts_text (.cons accepts_text .nil))
    (by simp [RecordKind.record, queryTextRecord, Member.Holds, Slot.Holds])

/-- A time range is accepted by the variant that its tag names. -/
theorem accepts_timeRange : Accepts false depth (.tagged .timeRange) IsTimeRange := by
  -- what is accepted for the members of each variant
  let Ps (variant : Variant TimeRange) : List (Tree → Prop) :=
    if variant.name = "relative" then [IsNatural]
    else if variant.name = "absolute" then [IsTimestamp, IsTimestamp]
    else [IsText]
  have hmembers : ∀ inner < depth, ∀ variant ∈ TaggedKind.variants .timeRange,
      List.Forall₂ (fun m P => Accepts true inner m.slot.shape P) variant.record.members
        (Ps variant) := by
    intro inner _ variant hvariant
    simp only [TaggedKind.variants, List.mem_cons, List.not_mem_nil, or_false] at hvariant
    rcases hvariant with rfl | rfl | rfl
    · exact .cons accepts_natural .nil
    · exact .cons accepts_instant (.cons accepts_instant .nil)
    · exact .cons accepts_text .nil
  intro tree hdepth hdistinct hplain
  rw [accepts_tagged .timeRange hmembers tree hdepth hdistinct hplain]
  simp [IsTimeRange, IsObject, TaggedKind.variants, TaggedKind.tag, Ps, relativeVariant,
    absoluteVariant, keywordVariant, Member.Holds, Slot.Holds]

theorem isFilter_iff {tree : Tree} : IsFilter tree ↔ IsObject (fun members =>
    Has "type" IsText members ∧ MayHave "id" (IsNullOr IsText) members ∧
      MayHave "filters" (IsListOf IsFilter) members) tree := by
  constructor
  · rintro ⟨type, id, filters, below⟩
    refine ⟨_, rfl, type, id, fun tree htree => ?_⟩
    obtain ⟨elements, rfl⟩ := filters tree htree
    exact ⟨elements, rfl, below elements htree⟩
  · rintro ⟨members, rfl, type, id, filters⟩
    refine .node type id (fun tree htree => ?_) fun elements helements => ?_
    · obtain ⟨elements, rfl, -⟩ := filters tree htree
      exact ⟨elements, rfl⟩
    · obtain ⟨_, heq, hall⟩ := filters _ helements
      obtain rfl := Tree.array.inj heq
      exact hall

/-- Filters are accepted below filters. -/
theorem accepts_filter : Accepts buffered depth (.record .filter) IsFilter := by
  induction depth using Nat.strongRecOn with
  | ind depth ih =>
      intro tree hdepth hdistinct hplain
      rw [isFilter_iff]
      have hmembers : ∀ inner < depth,
          List.Forall₂ (fun m P => Accepts buffered inner m.slot.shape P)
            (RecordKind.record .filter).members [IsText, IsText, IsListOf IsFilter] :=
        fun inner hinner => .cons accepts_text (.cons accepts_text (.cons
          (accepts_list fun below hbelow => ih below (Nat.lt_trans hbelow hinner)) .nil))
      refine accepts_of_members hmembers (fun members => ?_) tree hdepth hdistinct hplain
      simp [RecordKind.record, filterRecord, Member.Holds, Slot.Holds]

theorem accepts_query : Accepts false depth (.record .query) IsQuery :=
  accepts_of_members
    (fun _ _ => .cons (accepts_identifier _) (.cons accepts_timeRange (.cons accepts_queryText
      (.cons accepts_filter (.cons (accepts_list fun _ _ => accepts_searchType) .nil)))))
    (by simp [RecordKind.record, queryRecord, Member.Holds, Slot.Holds])

theorem accepts_search : Accepts false depth (.record .search) IsSearch :=
  accepts_of_members
    (fun _ _ => .cons (accepts_identifier _) (.cons (accepts_list fun _ _ => accepts_query) .nil))
    (by simp [RecordKind.record, searchRecord, Member.Holds, Slot.Holds])

theorem accepts_sortEntry : Accepts buffered depth (.record .sortEntry) IsSortEntry :=
  accepts_of_members (fun _ _ => .cons accepts_text (.cons (accepts_choice .direction) .nil))
    (by simp [RecordKind.record, sortEntryRecord, Member.Holds, Slot.Holds, ChoiceKind.names,
      Direction.wireName])

theorem accepts_tableSettings : Accepts buffered depth (.record .tableSettings) IsTableSettings :=
  accepts_of_members
    (fun _ _ => .cons (accepts_list fun _ _ => accepts_text)
      (.cons (accepts_list fun _ _ => accepts_sortEntry) .nil))
    (by simp [RecordKind.record, tableSettingsRecord, Member.Holds, Slot.Holds])

theorem accepts_widget : Accepts buffered depth (.record .widget) IsWidget :=
  accepts_of_members
    (fun _ _ => .cons (accepts_identifier _)
      (.cons accepts_text (.cons accepts_tableSettings .nil)))
    (by simp [RecordKind.record, widgetRecord, Member.Holds, Slot.Holds])

theorem accepts_titles : Accepts buffered depth (.record .titles) IsTitles :=
  accepts_of_members (fun _ _ => .cons (accepts_dictionary _ fun _ _ => accepts_text) .nil)
    (by simp [RecordKind.record, titlesRecord, Member.Holds, Slot.Holds])

theorem accepts_viewState : Accepts buffered depth (.record .viewState) IsViewState :=
  accepts_of_members
    (fun _ _ => .cons (accepts_identifier _) (.cons (accepts_list fun _ _ => accepts_widget)
      (.cons accepts_titles (.cons (accepts_dictionary _ fun _ _ => accepts_identifier _) .nil))))
    (by simp [RecordKind.record, viewStateRecord, Member.Holds, Slot.Holds])

theorem accepts_view : Accepts false depth (.record .view) IsView :=
  accepts_of_members
    (fun _ _ => .cons (accepts_identifier _) (.cons (accepts_choice .viewKind)
      (.cons accepts_search (.cons (accepts_list fun _ _ => accepts_viewState) .nil))))
    (by simp [RecordKind.record, viewRecord, Member.Holds, Slot.Holds, ChoiceKind.names,
      ViewKind.wireName])

theorem accepts_document : Accepts false depth (.record .document) IsDocument :=
  accepts_of_members
    (fun _ _ => .cons accepts_view (.cons (accepts_list fun _ _ => accepts_indexedField) .nil))
    (by simp [RecordKind.record, documentRecord, Member.Holds, Slot.Holds])

end Grammar

open Grammar

/-- A text that says what a tree says. -/
def Spells (text : String) (tree : Tree) : Prop :=
  ∃ s : Source, s.text = text.toList ∧ s.content = tree.content

theorem spells_compact {tree : Tree} (h : tree.Natural) : Spells tree.compact tree :=
  Json.exists_source_compact h

/-- **The grammar of documents**: a tree that is nested at most 127 deep, repeats no names,
holds only natural numbers and writes records as objects and choices as names is read as a
document, from its compact text as from any other, exactly if it is in the grammar. -/
theorem exists_document_iff {tree : Tree} (hdepth : tree.depth ≤ 127)
    (hdistinct : tree.content.Distinct) (hnatural : tree.Natural)
    (hplain : Plain (some (.record .document)) tree.content) :
    Spells tree.compact tree ∧ ∀ text, Spells text tree →
      ((∃ document, Document.ofString text = .ok document) ↔ IsDocument tree) := by
  refine ⟨spells_compact hnatural, ?_⟩
  rintro text ⟨s, htext, hcontent⟩
  rw [← accepts_document tree hdepth hdistinct hplain, ← hcontent]
  refine exists_congr fun document => ?_
  rw [← toOption_eq_some, Document.ofString, toOption_mapError, toOption_eq_some, ← htext,
    decodeText_eq_ok_iff]
  rfl

/-- A dashboard with a query in a time range, a filter with a filter below it, and a table that
is mapped to a search type. -/
def mappedDashboard : Tree :=
  .object [("view", .object [("id", .text "v"), ("type", .text "DASHBOARD"),
    ("search", .object [("id", .text "s"), ("queries", .array [.object [("id", .text "q"),
      ("timerange", .object [("range", .number (.natural 5)), ("type", .text "relative")]),
      ("filter", .object [("type", .text "and"), ("filters", .array [
        .object [("type", .text "stream"), ("id", .text "x"), ("note", .null)]])]),
      ("search_types", .array [.object [("id", .text "t"), ("type", .text "messages")]])]])]),
    ("state", .array [.object [("query_id", .null),
      ("widgets", .array [.object [("id", .text "w"), ("type", .text "messages")]]),
      ("widget_mapping", .object [("w", .text "t")])]])])]

/-- The dashboard is in the grammar, so it is read as a document. -/
theorem exists_document_iff_mappedDashboard :
    mappedDashboard.depth ≤ 127 ∧ mappedDashboard.content.Distinct ∧ mappedDashboard.Natural ∧
      Plain (some (.record .document)) mappedDashboard.content ∧ IsDocument mappedDashboard ∧
        ∃ document, Document.ofString mappedDashboard.compact = .ok document := by
  have hdistinct : mappedDashboard.content.Distinct := by
    simp [mappedDashboard, Tree.content, Tree.contents, Tree.memberContents,
      Content.Distinct.null, Content.Distinct.number, Content.Distinct.text]
  have hnatural : mappedDashboard.Natural := by
    simp [mappedDashboard, Tree.Natural.null, Tree.Natural.number, Tree.Natural.text]
  have hplain : Plain (some (.record .document)) mappedDashboard.content := by
    simp [mappedDashboard, Tree.content, Tree.contents, Tree.memberContents, memberPlace,
      placeNamed, RecordKind.record, documentRecord, viewRecord, searchRecord, queryRecord,
      filterRecord, searchTypeRecord, viewStateRecord, widgetRecord, Slot.shape, Plain.null,
      Plain.number, Plain.text]
  have hdocument : IsDocument mappedDashboard := by
    simp [mappedDashboard, IsDocument, IsView, IsSearch, IsQuery, IsTimeRange, isFilter_iff,
      IsSearchType, IsViewState, IsWidget, Has, MayHave, IsText, IsNonempty, IsOneOf, IsNatural,
      IsNullOr]
  obtain ⟨hspells, hiff⟩ := exists_document_iff (by decide) hdistinct hnatural hplain
  exact ⟨by decide, hdistinct, hnatural, hplain, hdocument, (hiff _ hspells).mpr hdocument⟩

end MessageExport
