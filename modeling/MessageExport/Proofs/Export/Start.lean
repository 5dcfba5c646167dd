import MessageExport.Export.Start
import MessageExport.Proofs.Export.Resolve
/-!
# MessageExport.Proofs.Export.Start

What comes of **starting an export**, by the kind of the view and the number of its
queries, and how far a request that is handed out reaches: its **scope** is the
search type behind the selected table, or everything if there is none.
-/

namespace MessageExport

/-- The result set that a request is limited to; none if it exports every message. -/
def Request.scope : Request → Option (SearchId × SearchTypeId)
  | .searchType search id _ => some (search, id)
  | .allMessages _ => none

namespace View

section

variable (view : View) (table : Option Widget) (fields : List SelectedField)
  (sort : List SortEntry)

/-- The request for one search type of a view. -/
def limitedRequest (searchType : SearchType) : Request :=
  .searchType view.search.id searchType.id (Payload.ofSettings fields sort)

/-- The request for every message of a query. -/
def fullRequest (query : Query) : Request :=
  .allMessages ((Payload.ofSettings fields sort).withQuery query)

/-! ### By the kind of the view -/

/-- A dashboard exports the search type behind the selected table, and nothing else. -/
theorem startExport_dashboard (hkind : view.kind = .dashboard) :
    view.startExport table fields sort =
      match view.resolve? table with
      | some searchType => .ok ⟨view.limitedRequest fields sort searchType, []⟩
      | none => .error .dashboardRequiresWidget := by
  simp only [startExport, hkind]
  cases view.resolve? table <;> rfl

/-- A search with a sole query exports the search type behind the selected table, or
every message if there is none. -/
theorem startExport_search {query : Query} (hkind : view.kind = .search)
    (hqueries : view.search.queries = [query]) :
    view.startExport table fields sort =
      match view.resolve? table with
      | some searchType => .ok ⟨view.limitedRequest fields sort searchType, []⟩
      | none => .ok ⟨fullRequest fields sort query, query.streamWarnings⟩ := by
  simp only [startExport, hkind, hqueries]
  cases view.resolve? table <;> rfl

/-- Every other search is refused, whatever the selected table is. -/
theorem startExport_search_of_length_ne_one (hkind : view.kind = .search)
    (hlength : view.search.queries.length ≠ 1) :
    view.startExport table fields sort =
      .error (.singleQueryRequired view.search.queries.length) := by
  simp only [startExport, hkind]
  cases hqueries : view.search.queries with
  | nil => cases view.resolve? table <;> rfl
  | cons query rest =>
      cases rest with
      | nil => exact absurd (by rw [hqueries]; rfl) hlength
      | cons second rest => cases view.resolve? table <;> rfl

/-! ### Every outcome -/

/-- The outcomes of starting an export, each with the condition under which it arises. -/
inductive StartOutcome : Except ExportFault Started → Prop where
  | limited {searchType : SearchType} (hresolve : view.resolve? table = some searchType)
      (hqueries : view.kind = .search → view.search.queries.length = 1) :
      StartOutcome (.ok ⟨view.limitedRequest fields sort searchType, []⟩)
  | full {query : Query} (hkind : view.kind = .search)
      (hqueries : view.search.queries = [query]) (hresolve : view.resolve? table = none) :
      StartOutcome (.ok ⟨fullRequest fields sort query, query.streamWarnings⟩)
  | unresolved (hkind : view.kind = .dashboard) (hresolve : view.resolve? table = none) :
      StartOutcome (.error .dashboardRequiresWidget)
  | queries (hkind : view.kind = .search) (hlength : view.search.queries.length ≠ 1) :
      StartOutcome (.error (.singleQueryRequired view.search.queries.length))

theorem startOutcome :
    view.StartOutcome table fields sort (view.startExport table fields sort) := by
  cases hkind : view.kind with
  | dashboard =>
      rw [startExport_dashboard view table fields sort hkind]
      cases hresolve : view.resolve? table with
      | none => exact .unresolved hkind hresolve
      | some searchType => exact .limited hresolve (by simp [hkind])
  | search =>
      by_cases hlength : view.search.queries.length = 1
      · obtain ⟨query, hqueries⟩ := List.length_eq_one_iff.mp hlength
        rw [startExport_search view table fields sort hkind hqueries]
        cases hresolve : view.resolve? table with
        | none => exact .full hkind hqueries hresolve
        | some searchType => exact .limited hresolve fun _ => hlength
      · rw [startExport_search_of_length_ne_one view table fields sort hkind hlength]
        exact .queries hkind hlength

variable {view table fields sort} in
/-- What starting an export has come to is one of its outcomes. -/
theorem startOutcome_of_eq {result : Except ExportFault Started}
    (h : view.startExport table fields sort = result) :
    view.StartOutcome table fields sort result :=
  h ▸ view.startOutcome table fields sort

/-- Starting an export never finds the download disabled: that is up to the dialog. -/
theorem startExport_ne_downloadDisabled :
    view.startExport table fields sort ≠ .error .downloadDisabled := by
  intro h
  cases startOutcome_of_eq h

/-- An export is refused for its queries exactly on a search that does not have one. -/
theorem startExport_eq_singleQueryRequired_iff (count : Nat) :
    view.startExport table fields sort = .error (.singleQueryRequired count) ↔
      view.kind = .search ∧ count = view.search.queries.length ∧ count ≠ 1 := by
  constructor
  · intro h
    cases startOutcome_of_eq h with
    | queries hkind hlength => exact ⟨hkind, rfl, hlength⟩
  · rintro ⟨hkind, rfl, hlength⟩
    exact startExport_search_of_length_ne_one view table fields sort hkind hlength

end

/-! ### Requests that are handed out -/

section

variable {view : View} {table : Option Widget} {fields : List SelectedField}
  {sort : List SortEntry} {started : Started}

/-- The scope of a request is the search type behind the selected table. -/
theorem scope_of_startExport (h : view.startExport table fields sort = .ok started) :
    started.request.scope =
      (view.resolve? table).map fun searchType => (view.search.id, searchType.id) := by
  cases startOutcome_of_eq h with
  | limited hresolve => rw [hresolve]; rfl
  | full _ _ hresolve => rw [hresolve]; rfl

/-- A dashboard never hands out every message. -/
theorem scope_ne_none_of_startExport (hkind : view.kind = .dashboard)
    (h : view.startExport table fields sort = .ok started) : started.request.scope ≠ none := by
  cases startOutcome_of_eq h with
  | limited => exact Option.some_ne_none _
  | full hsearch => rw [hkind] at hsearch; cases hsearch

/-- Whatever its scope, a request carries the fields and the sort order it was started
with. -/
theorem payload_of_startExport (h : view.startExport table fields sort = .ok started) :
    started.request.payload.fields = fields.map SelectedField.field ∧
      started.request.payload.sort = sort := by
  cases startOutcome_of_eq h with
  | limited => exact ⟨rfl, rfl⟩
  | full => exact ⟨rfl, rfl⟩

end

end View

end MessageExport
