import MessageExport.Export.Dialog
import MessageExport.Proofs.Export.Start
/-!
# MessageExport.Proofs.Export.Stream

Every stream filter is **accounted for**.

A child of type `stream` has a usable id, and gives that stream, or has none, and gives a
warning in its place (`Filter.stream_cases`). So the streams of a filter and its warnings
are the two parts of one list, and nothing that a query names is left out in silence. What
is left out matters to an export of every message only, and no other export warns of it.
-/

namespace MessageExport

/-! ### One stream filter -/

/-- The id that a filter can name a stream by. -/
def Filter.streamName? (filter : Filter) : Option String :=
  filter.id.filter (· ≠ "")

/-- What is said of a filter that names no stream. -/
def Filter.dropWarning (filter : Filter) : Warning :=
  if filter.id = none then .streamWithoutId else .streamWithEmptyId

/-- A stream filter names a stream, or there is a warning that it does not. -/
theorem Filter.stream_cases (filter : Filter) :
    (∃ id : StreamId, filter.streamName? = some id.raw ∧ filter.stream = .ok id) ∨
      (filter.streamName? = none ∧ filter.stream = .error filter.dropWarning) := by
  unfold Filter.streamName? Filter.stream Filter.dropWarning
  cases filter.id with
  | none => exact .inr ⟨rfl, rfl⟩
  | some raw =>
      cases hid : Identifier.ofString? .stream raw with
      | some id =>
          obtain rfl := Identifier.ofString?_eq_some.mp hid
          exact .inl ⟨id, by simp [id.nonempty], by simp only [hid]⟩
      | none =>
          obtain rfl := Identifier.ofString?_eq_none.mp hid
          exact .inr ⟨rfl, rfl⟩

/-! ### Results -/

@[simp] theorem streamsOf_ok (id : StreamId) (results : List (Except Warning StreamId)) :
    streamsOf (.ok id :: results) = id :: streamsOf results := rfl

@[simp] theorem streamsOf_error (warning : Warning)
    (results : List (Except Warning StreamId)) :
    streamsOf (.error warning :: results) = streamsOf results := rfl

@[simp] theorem warningsOf_ok (id : StreamId) (results : List (Except Warning StreamId)) :
    warningsOf (.ok id :: results) = warningsOf results := rfl

@[simp] theorem warningsOf_error (warning : Warning)
    (results : List (Except Warning StreamId)) :
    warningsOf (.error warning :: results) = warning :: warningsOf results := rfl

/-- Each result is a stream or a warning. -/
theorem length_streamsOf_add_length_warningsOf (results : List (Except Warning StreamId)) :
    (streamsOf results).length + (warningsOf results).length = results.length := by
  induction results with
  | nil => rfl
  | cons result results ih =>
      cases result with
      | ok id =>
          rw [streamsOf_ok, warningsOf_ok, List.length_cons, List.length_cons]
          omega
      | error warning =>
          rw [streamsOf_error, warningsOf_error, List.length_cons, List.length_cons]
          omega

/-! ### The stream filters below a filter -/

/-- The direct children of type `stream`. -/
def Filter.streamChildren (filter : Filter) : List Filter :=
  filter.children.filter fun child => child.type = "stream"

theorem Filter.streamResults_eq (filter : Filter) :
    filter.streamResults = filter.streamChildren.map Filter.stream := rfl

/-- The streams are the usable ids, in order. -/
theorem map_raw_streamsOf (filters : List Filter) :
    (streamsOf (filters.map Filter.stream)).map Identifier.raw =
      filters.filterMap Filter.streamName? := by
  induction filters with
  | nil => rfl
  | cons filter filters ih =>
      rcases filter.stream_cases with ⟨id, hname, hstream⟩ | ⟨hname, hstream⟩
      · rw [List.map_cons, hstream, streamsOf_ok, List.map_cons, ih,
          List.filterMap_cons_some hname]
      · rw [List.map_cons, hstream, streamsOf_error, ih, List.filterMap_cons_none hname]

/-- The warnings are those of the filters that name no stream, in order. -/
theorem warningsOf_map_stream (filters : List Filter) :
    warningsOf (filters.map Filter.stream) =
      (filters.filter fun filter => filter.streamName? = none).map Filter.dropWarning := by
  induction filters with
  | nil => rfl
  | cons filter filters ih =>
      rcases filter.stream_cases with ⟨id, hname, hstream⟩ | ⟨hname, hstream⟩
      · rw [List.map_cons, hstream, warningsOf_ok, ih, List.filter_cons_of_neg (by simp [hname])]
      · rw [List.map_cons, hstream, warningsOf_error, ih,
          List.filter_cons_of_pos (by simp [hname]), List.map_cons]

/-- Of a child only its type and its id are looked at, and of the filter itself nothing. -/
theorem Filter.streamResults_congr {filter other : Filter}
    (h : (other.children.map fun child => (child.type, child.id)) =
      filter.children.map fun child => (child.type, child.id)) :
    other.streamResults = filter.streamResults := by
  have hkeys (filter : Filter) : filter.streamResults =
      (((filter.children.map fun child => (child.type, child.id)).filter fun key =>
        key.1 = "stream").map fun key => Filter.stream { type := key.1, id := key.2 }) := by
    rw [List.filter_map, List.map_map]
    rfl
  rw [hkeys other, hkeys filter, h]

/-! ### Queries and exports -/

theorem Query.streams_eq (query : Query) :
    query.streams = query.filter.elim [] Filter.streams := by
  unfold Query.streams
  cases query.filter <;> rfl

theorem Query.streamWarnings_eq (query : Query) :
    query.streamWarnings = query.filter.elim [] Filter.streamWarnings := by
  unfold Query.streamWarnings
  cases query.filter <;> rfl

/-- A filter restricts to no stream exactly if none of its children can name one. -/
theorem Filter.streams_eq_nil_iff (filter : Filter) :
    filter.streams = [] ↔
      ∀ child ∈ filter.children, child.type = "stream" → child.id = none ∨ child.id = some "" := by
  have hraw := map_raw_streamsOf filter.streamChildren
  rw [← Filter.streamResults_eq, ← Filter.streams] at hraw
  rw [← List.map_eq_nil_iff (f := Identifier.raw), hraw, List.filterMap_eq_nil_iff]
  simp only [streamChildren, List.mem_filter, decide_eq_true_eq, and_imp]
  refine forall₃_congr fun child _ _ => ?_
  rw [streamName?]
  cases child.id with
  | none => simp
  | some raw => simp

namespace View

variable {view : View} {table : Option Widget} {fields : List SelectedField}
  {sort : List SortEntry} {started : Started}

/-- An export that is limited to a result set warns of nothing. -/
theorem warnings_of_scope_ne_none (h : view.startExport table fields sort = .ok started)
    (hscope : started.request.scope ≠ none) : started.warnings = [] := by
  cases startOutcome_of_eq h with
  | limited => rfl
  | full => exact absurd rfl hscope

/-- An export of every message is one of the sole query, and warns of what that leaves
out. -/
theorem sole_query_of_allMessages {payload : Payload}
    (h : view.startExport table fields sort = .ok started)
    (hrequest : started.request = .allMessages payload) :
    ∃ query, view.search.queries = [query] ∧ started.warnings = query.streamWarnings ∧
      payload.streams = some query.streams := by
  cases startOutcome_of_eq h with
  | limited => cases hrequest
  | @full query _ hqueries =>
      cases hrequest
      exact ⟨query, hqueries, rfl, rfl⟩

end View

/-- **Stream filters are accounted for.** The streams of a filter are the usable ids of
its direct children of type `stream`, in order, and each of these children that has none
gives a warning in its place, so that together they are as many as these children; the
filter itself and what is below its children play no part. An export warns of exactly
what its sole query leaves out if it exports every message, and of nothing if it is
limited to a result set or refused; and it is restricted to no stream exactly if none of
the children can name one. -/
theorem streams_and_warnings_of_children :
    (∀ filter : Filter,
      let children := filter.children.filter fun child => child.type = "stream"
      let dropped := children.filter fun child => child.id = none ∨ child.id = some ""
      filter.streams.map Identifier.raw =
          (children.filterMap fun child => child.id.filter (· ≠ "")) ∧
        filter.streamWarnings =
          (dropped.map fun child =>
            if child.id = none then Warning.streamWithoutId else Warning.streamWithEmptyId) ∧
        filter.streamWarnings.map Warning.message =
          (dropped.map fun child =>
            if child.id = none then "Skipping stream filter without id"
            else "Skipping stream filter with invalid id") ∧
        filter.streams.length + filter.streamWarnings.length = children.length ∧
        ∀ other : Filter,
          ((other.children.map fun child => (child.type, child.id)) =
            filter.children.map fun child => (child.type, child.id)) →
          other.streams = filter.streams ∧ other.streamWarnings = filter.streamWarnings) ∧
      (∀ (view : View) (table : Option Widget) (fields : List SelectedField)
        (sort : List SortEntry) (started : Started),
        view.startExport table fields sort = .ok started →
          (∀ search id payload, started.request = .searchType search id payload →
            started.warnings = []) ∧
          ∀ payload, started.request = .allMessages payload →
            ∃ query streams, view.search.queries = [query] ∧
              started.warnings = query.filter.elim [] Filter.streamWarnings ∧
              payload.streams = some streams ∧
              streams = query.filter.elim [] Filter.streams ∧
              (streams = [] ↔ ∀ filter, query.filter = some filter →
                ∀ child ∈ filter.children, child.type = "stream" →
                  child.id = none ∨ child.id = some "")) ∧
      (∀ (dialog : Dialog) (view : View),
        let reply := dialog.step (.download view)
        (∀ fault, reply.result = .error fault → reply.warnings = []) ∧
          ∀ started, dialog.downloadEnabled = true →
            view.startExport dialog.selected dialog.fields dialog.sort = .ok started →
              reply.result = .ok (some started.request) ∧
                reply.warnings = started.warnings) := by
  refine ⟨?_, ?_, ?_⟩
  · intro filter children dropped
    have hdropped : (children.filter fun child => child.streamName? = none) = dropped := by
      refine List.filter_congr fun child _ => ?_
      rw [decide_eq_decide, Filter.streamName?]
      cases child.id <;> simp
    have hwarnings : filter.streamWarnings = dropped.map Filter.dropWarning := by
      rw [Filter.streamWarnings, Filter.streamResults_eq, warningsOf_map_stream, ← hdropped]
      rfl
    refine ⟨map_raw_streamsOf children, hwarnings, ?_, ?_, ?_⟩
    · rw [hwarnings, List.map_map]
      refine List.map_congr_left fun child _ => ?_
      rw [Function.comp_apply, Filter.dropWarning]
      split <;> rfl
    · rw [Filter.streams, Filter.streamWarnings, length_streamsOf_add_length_warningsOf,
        Filter.streamResults_eq, List.length_map]
      rfl
    · intro other hother
      simp only [Filter.streams, Filter.streamWarnings, Filter.streamResults_congr hother,
        and_self]
  · intro view table fields sort started h
    refine ⟨?_, ?_⟩
    · intro search id payload hrequest
      exact View.warnings_of_scope_ne_none h (by simp [hrequest, Request.scope])
    · intro payload hrequest
      obtain ⟨query, hqueries, hwarnings, hstreams⟩ := View.sole_query_of_allMessages h hrequest
      refine ⟨query, query.streams, hqueries, ?_, hstreams, query.streams_eq, ?_⟩
      · rw [hwarnings, query.streamWarnings_eq]
      · rw [query.streams_eq]
        cases query.filter with
        | none => simp
        | some filter => simp [filter.streams_eq_nil_iff]
  · intro dialog view reply
    refine ⟨?_, ?_⟩
    · intro fault hfault
      simp only [reply, Dialog.step] at hfault ⊢
      cases hdownload : dialog.download view with
      | error => rfl
      | ok started =>
          rw [hdownload] at hfault
          cases hfault
    · intro started henabled hstarted
      have hdownload : dialog.download view = .ok started := by
        rw [Dialog.download, if_pos henabled, hstarted]
      simp only [reply, Dialog.step, hdownload, and_self]

end MessageExport
