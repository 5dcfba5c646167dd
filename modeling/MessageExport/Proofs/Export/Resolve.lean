import MessageExport.Export.Table
import MessageExport.Proofs.IdMap
/-!
# MessageExport.Proofs.Export.Resolve

**Which search type is behind a widget.** The states of a view each map some widgets to
the ids of search types. Only the last state that maps a widget counts, and the id that
it gives is looked up among the search types of all queries, of which the first one with
that id is taken. So an id that no query has hides whatever an earlier state said, while
a state that does not know the widget hides nothing.
-/

namespace MessageExport.View

variable (view : View)

/-- The last state that maps a widget maps it to an id. -/
def MapsLast (widget : WidgetId) (id : SearchTypeId) : Prop :=
  ∃ before state after, view.states = before ++ state :: after ∧
    state.searchTypes.find? widget = some id ∧
    ∀ later ∈ after, later.searchTypes.find? widget = none

/-- A search type is the first with its id: no query before its own has the id, and
nothing before it in its own query. -/
def FirstOfItsId (searchType : SearchType) : Prop :=
  ∃ queries query queries', view.search.queries = queries ++ query :: queries' ∧
    ∃ types types', query.searchTypes = types ++ searchType :: types' ∧
      (∀ earlier ∈ queries, ∀ other ∈ earlier.searchTypes, other.id ≠ searchType.id) ∧
      ∀ other ∈ types, other.id ≠ searchType.id

/-- The search type behind a widget as it is found when the dictionary of every state
yields its entries as they are listed: all of them are written into one dictionary, state
by state. -/
def resolveListed (listings : List (List (WidgetId × SearchTypeId))) (widget : Option Widget) :
    Option SearchType := do
  let widget ← widget
  let id ← (IdMap.ofList listings.flatten).find? widget.id
  view.searchTypes.find? fun searchType => searchType.id = id

/-! ### The two look-ups -/

theorem find?_searchTypeIds_eq_some_iff (widget : WidgetId) (id : SearchTypeId) :
    view.searchTypeIds.find? widget = some id ↔ view.MapsLast widget id :=
  IdMap.find?_merge_eq_some_iff ViewState.searchTypes view.states widget id

theorem find?_searchTypeIds_eq_none_iff (widget : WidgetId) :
    view.searchTypeIds.find? widget = none ↔
      ∀ state ∈ view.states, state.searchTypes.find? widget = none :=
  IdMap.find?_merge_eq_none_iff ViewState.searchTypes view.states widget

theorem find?_searchTypes_eq_some_iff (id : SearchTypeId) (searchType : SearchType) :
    (view.searchTypes.find? fun searchType => searchType.id = id) = some searchType ↔
      searchType.id = id ∧ view.FirstOfItsId searchType := by
  rw [searchTypes, List.find?_flatMap, List.findSome?_eq_some_iff]
  constructor
  · rintro ⟨queries, query, queries', hqueries, hfind, hearlier⟩
    obtain ⟨hid, types, types', htypes, hother⟩ := List.find?_eq_some_iff_append.mp hfind
    obtain rfl : searchType.id = id := by simpa using hid
    refine ⟨rfl, queries, query, queries', hqueries, types, types', htypes, ?_, ?_⟩
    · intro earlier hmem other hmem'
      simpa using List.find?_eq_none.mp (hearlier earlier hmem) other hmem'
    · intro other hmem
      simpa using hother other hmem
  · rintro ⟨rfl, queries, query, queries', hqueries, types, types', htypes, hearlier, hother⟩
    refine ⟨queries, query, queries', hqueries, List.find?_eq_some_iff_append.mpr
      ⟨by simp, types, types', htypes, fun other hmem => by simpa using hother other hmem⟩, ?_⟩
    intro earlier hmem
    exact List.find?_eq_none.mpr fun other hmem' => by simpa using hearlier earlier hmem other hmem'

theorem find?_searchTypes_eq_none_iff (id : SearchTypeId) :
    (view.searchTypes.find? fun searchType => searchType.id = id) = none ↔
      ∀ query ∈ view.search.queries, ∀ searchType ∈ query.searchTypes, searchType.id ≠ id := by
  simp only [searchTypes, List.find?_eq_none, List.mem_flatMap, decide_eq_true_eq]
  constructor
  · intro h query hquery searchType hmem
    exact h searchType ⟨query, hquery, hmem⟩
  · rintro h searchType ⟨query, hquery, hmem⟩
    exact h query hquery searchType hmem

/-! ### One after the other -/

theorem resolve?_some (widget : Widget) :
    view.resolve? (some widget) =
      (view.searchTypeIds.find? widget.id).bind fun id =>
        view.searchTypes.find? fun searchType => searchType.id = id := rfl

theorem resolve?_eq_some_iff (widget : Widget) (searchType : SearchType) :
    view.resolve? (some widget) = some searchType ↔
      view.MapsLast widget.id searchType.id ∧ view.FirstOfItsId searchType := by
  rw [resolve?_some, Option.bind_eq_some_iff]
  constructor
  · rintro ⟨id, hid, hfind⟩
    obtain ⟨rfl, hfirst⟩ := (view.find?_searchTypes_eq_some_iff id searchType).mp hfind
    exact ⟨(view.find?_searchTypeIds_eq_some_iff widget.id searchType.id).mp hid, hfirst⟩
  · rintro ⟨hmaps, hfirst⟩
    exact ⟨searchType.id,
      (view.find?_searchTypeIds_eq_some_iff widget.id searchType.id).mpr hmaps,
      (view.find?_searchTypes_eq_some_iff searchType.id searchType).mpr ⟨rfl, hfirst⟩⟩

theorem resolve?_eq_none_iff (widget : Widget) :
    view.resolve? (some widget) = none ↔
      (∀ state ∈ view.states, state.searchTypes.find? widget.id = none) ∨
        ∃ id, view.MapsLast widget.id id ∧
          ∀ query ∈ view.search.queries, ∀ searchType ∈ query.searchTypes,
            searchType.id ≠ id := by
  rw [resolve?_some]
  cases hfind : view.searchTypeIds.find? widget.id with
  | none =>
      have hnone := (view.find?_searchTypeIds_eq_none_iff widget.id).mp hfind
      exact ⟨fun _ => .inl hnone, fun _ => rfl⟩
  | some id =>
      have hmaps := (view.find?_searchTypeIds_eq_some_iff widget.id id).mp hfind
      rw [Option.bind_some, view.find?_searchTypes_eq_none_iff]
      constructor
      · intro hdangling
        exact .inr ⟨id, hmaps, hdangling⟩
      · rintro (hnone | ⟨other, hother, hdangling⟩)
        · rw [(view.find?_searchTypeIds_eq_none_iff widget.id).mpr hnone] at hfind
          cases hfind
        · rw [(view.find?_searchTypeIds_eq_some_iff widget.id other).mpr hother] at hfind
          exact Option.some.inj hfind ▸ hdangling

/-- The result depends on the states through what they merge to for the widget. -/
theorem resolve?_congr {view view' : View} {widget widget' : Widget}
    (hqueries : view'.search.queries = view.search.queries)
    (hfind : view'.searchTypeIds.find? widget'.id = view.searchTypeIds.find? widget.id) :
    view'.resolve? (some widget') = view.resolve? (some widget) := by
  rw [resolve?_some, resolve?_some, hfind, searchTypes, searchTypes, hqueries]

/-- **The search type behind a widget, over all states.** There is none without a widget,
none if no state maps the widget, and none if the id from the last state that maps it
belongs to no search type of any query; otherwise it is the first search type with that
id. A state that does not map the widget might as well not be there, a last state that
maps it to an unknown id leaves nothing, and the order in which the dictionaries of the
states yield their entries does not matter. -/
theorem resolve_over_states :
    view.resolve? none = none ∧
      (∀ widget searchType, view.resolve? (some widget) = some searchType ↔
        view.MapsLast widget.id searchType.id ∧ view.FirstOfItsId searchType) ∧
      (∀ widget, view.resolve? (some widget) = none ↔
        (∀ state ∈ view.states, state.searchTypes.find? widget.id = none) ∨
          ∃ id, view.MapsLast widget.id id ∧
            ∀ query ∈ view.search.queries, ∀ searchType ∈ query.searchTypes,
              searchType.id ≠ id) ∧
      (∀ before state after widget, view.states = before ++ state :: after →
        state.searchTypes.find? widget.id = none →
          ({ view with states := before ++ after } : View).resolve? (some widget) =
            view.resolve? (some widget)) ∧
      (∀ state widget id, state.searchTypes.find? widget.id = some id →
        (∀ query ∈ view.search.queries, ∀ searchType ∈ query.searchTypes, searchType.id ≠ id) →
          ({ view with states := view.states ++ [state] } : View).resolve? (some widget) = none) ∧
      (∀ listings widget,
        List.Forall₂ (fun listing state => listing.Perm state.searchTypes.entries) listings
            view.states →
          view.resolveListed listings widget = view.resolve? widget) := by
  refine ⟨rfl, view.resolve?_eq_some_iff, view.resolve?_eq_none_iff, ?_, ?_, ?_⟩
  · intro before state after widget hstates hnone
    refine resolve?_congr rfl ?_
    simp only [searchTypeIds, hstates, IdMap.find?_merge ViewState.searchTypes,
      List.reverse_append, List.reverse_cons, List.append_assoc, List.findSome?_append,
      List.findSome?_singleton, hnone, Option.none_or]
  · intro state widget id hmaps hdangling
    refine (resolve?_eq_none_iff _ widget).mpr (.inr ⟨id, ?_, hdangling⟩)
    exact ⟨view.states, state, [], rfl, hmaps, List.forall_mem_nil _⟩
  · intro listings widget hlistings
    unfold resolveListed resolve? searchTypeIds IdMap.ofList
    rw [IdMap.insertAll_flatten ViewState.searchTypes hlistings]

end MessageExport.View
