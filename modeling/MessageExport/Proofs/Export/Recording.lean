import MessageExport.Proofs.Export.Stream
/-!
# MessageExport.Proofs.Export.Recording

An export **from end to end**, from a view and a selected table to what is recorded of it.

Starting an export (`startExport_dashboard`, `startExport_search`) says which request it comes
to, and handing that over adds it to what was recorded before. What remains is what such a
request holds: a request for one search type nothing of the query, a request for every message
all of it, its streams by the ids that its filter names (`Query.map_raw_streams`).
-/

namespace MessageExport

/-- The streams of a query are the usable ids of the stream filters right below its filter, in
order. -/
theorem Query.map_raw_streams (query : Query) :
    query.streams.map Identifier.raw =
      query.filter.elim [] fun filter =>
        (filter.children.filter fun child => child.type = "stream").filterMap fun child =>
          child.id.filter (· ≠ "") := by
  rw [query.streams_eq]
  cases query.filter with
  | none => rfl
  | some filter => exact map_raw_streamsOf filter.streamChildren

namespace View

section

variable (view : View) (table : Option Widget) (fields : List SelectedField)
  (sort : List SortEntry)

variable {view table} in
/-- What an export looks at: the kind and the search of the view, the id of the table, and
what the states of the view merge to for that id. -/
theorem startExport_congr {view' : View} {table' : Option Widget}
    (hkind : view'.kind = view.kind) (hsearch : view'.search = view.search)
    (hid : table'.map Widget.id = table.map Widget.id)
    (hstates : ∀ widget, table = some widget →
      view'.searchTypeIds.find? widget.id = view.searchTypeIds.find? widget.id) :
    view'.startExport table' fields sort = view.startExport table fields sort := by
  have hresolve : view'.resolve? table' = view.resolve? table := by
    cases table with
    | none =>
        rw [Option.map_eq_none_iff.mp hid]
        rfl
    | some widget =>
        obtain ⟨widget', rfl, hsame⟩ := Option.map_eq_some_iff.mp hid
        refine resolve?_congr (by rw [hsearch]) ?_
        rw [hsame, hstates widget rfl]
  simp only [startExport, hkind, hsearch, hresolve]

/-- **An export from end to end.** Whatever was recorded before: if there is a search type
behind the table, and the view is a dashboard or a search with one query, a request for
that search type is added, with the fields and the sort order as they are given and
nothing else; on a search with one query and no such search type, it is a request for
every message, with the time range and the text of the query, and with the streams that the
direct children of its filter name, in order. A dashboard without a search type and a search
without exactly one query are refused, and nothing is recorded. Of the table only its id
matters, and of the states only what they merge to for that id. -/
theorem exportTo_recorder (recorded : List Request) :
    (∀ searchType, view.resolve? table = some searchType →
      (view.kind = .dashboard ∨ (view.kind = .search ∧ view.search.queries.length = 1)) →
        view.exportTo recorder table fields sort recorded =
          (recorded ++ [.searchType view.search.id searchType.id
            { fields := fields.map SelectedField.field
              sort := sort
              timeRange := none
              queryText := none
              streams := none }], .ok [])) ∧
      (∀ query, view.kind = .search → view.search.queries = [query] →
        view.resolve? table = none →
          ∃ streams : List StreamId,
            (streams.map Identifier.raw = query.filter.elim [] fun filter =>
              (filter.children.filter fun child => child.type = "stream").filterMap fun child =>
                child.id.filter (· ≠ "")) ∧
            view.exportTo recorder table fields sort recorded =
              (recorded ++ [.allMessages
                { fields := fields.map SelectedField.field
                  sort := sort
                  timeRange := some query.timeRange
                  queryText := some query.text
                  streams := some streams }], .ok query.streamWarnings)) ∧
      (view.kind = .dashboard → view.resolve? table = none →
        view.exportTo recorder table fields sort recorded =
          (recorded, .error .dashboardRequiresWidget)) ∧
      (view.kind = .search → view.search.queries.length ≠ 1 →
        view.exportTo recorder table fields sort recorded =
          (recorded, .error (.singleQueryRequired view.search.queries.length))) ∧
      (∀ (view' : View) (table' : Option Widget), view'.kind = view.kind →
        view'.search = view.search → table'.map Widget.id = table.map Widget.id →
        (∀ widget, table = some widget →
          view'.searchTypeIds.find? widget.id = view.searchTypeIds.find? widget.id) →
          view'.exportTo recorder table' fields sort recorded =
            view.exportTo recorder table fields sort recorded) := by
  unfold exportTo
  refine ⟨?_, ?_, ?_, ?_, ?_⟩
  · rintro searchType hresolve (hkind | ⟨hkind, hlength⟩)
    · rw [startExport_dashboard view table fields sort hkind, hresolve]
      rfl
    · obtain ⟨query, hqueries⟩ := List.length_eq_one_iff.mp hlength
      rw [startExport_search view table fields sort hkind hqueries, hresolve]
      rfl
  · intro query hkind hqueries hresolve
    refine ⟨query.streams, query.map_raw_streams, ?_⟩
    rw [startExport_search view table fields sort hkind hqueries, hresolve]
    rfl
  · intro hkind hresolve
    rw [startExport_dashboard view table fields sort hkind, hresolve]
  · intro hkind hlength
    rw [startExport_search_of_length_ne_one view table fields sort hkind hlength]
  · intro view' table' hkind hsearch hid hstates
    rw [startExport_congr fields sort hkind hsearch hid hstates]

end

end View

end MessageExport
