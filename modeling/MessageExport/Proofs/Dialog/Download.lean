import MessageExport.Proofs.Dialog.Invariant
import MessageExport.Proofs.Export.Start
/-!
# MessageExport.Proofs.Dialog.Download

What a **download** hands out in every state that a dialog reaches, and so what a
whole run can put on record.

The invariant of `OpenedOn` turns the flag that enables a download into a condition
on the view and the selection (`Blocked`). Where a download is not blocked it is the
export of the view with the settings of the dialog, and its request reaches no
further than the selected table.
-/

namespace MessageExport.Dialog

/-- A download of the opened view is blocked: a table is still to be picked, or a
dashboard was opened for a widget that is none of its message tables. -/
def Blocked (dialog : Dialog) (view : View) (fixed : Option WidgetId) : Prop :=
  (fixed = none ∧ dialog.selected = none ∧
      (view.kind = .dashboard ∨ 2 ≤ view.messageTables.length)) ∨
    (view.kind = .dashboard ∧
      ∃ id, fixed = some id ∧ ∀ table ∈ view.messageTables, table.id ≠ id)

/-! ### The flag -/

/-- In a dialog for one widget, nothing is selected exactly if the widget is no message
table. -/
theorem OpenedOn.selected_eq_none_iff {dialog : Dialog} {view : View} {id : WidgetId}
    (h : dialog.OpenedOn view (some id)) :
    dialog.selected = none ↔ ∀ table ∈ view.messageTables, table.id ≠ id := by
  rw [Option.eq_none_iff_forall_ne_some]
  constructor
  · intro hnone table hmem hid
    exact hnone table ((h.selected_fixed id rfl table).mpr ⟨hmem, hid⟩)
  · intro hnone table hselected
    obtain ⟨hmem, hid⟩ := (h.selected_fixed id rfl table).mp hselected
    exact hnone table hmem hid

/-- The download is disabled exactly in the states that block it. -/
theorem OpenedOn.downloadEnabled_eq_false_iff {dialog : Dialog} {view : View}
    {fixed : Option WidgetId} (h : dialog.OpenedOn view fixed) :
    dialog.downloadEnabled = false ↔ dialog.Blocked view fixed := by
  cases fixed with
  | none =>
      rw [downloadEnabled_eq_not_showsPicker h.fixed_eq, Bool.not_eq_false',
        showsPicker_iff, h.fixed_eq, h.kind_eq, h.tables_eq]
      simp [Blocked]
  | some id =>
      -- a search for one widget is never blocked, a dashboard needs that widget
      cases hkind : view.kind with
      | search =>
          have hpicker : dialog.showsPicker = false :=
            (flags_of_no_choice (by simp [h.fixed_eq])).1
          simp [Blocked, downloadEnabled, ViewKind.enablesDownload, h.kind_eq, hkind, hpicker]
      | dashboard =>
          have hselected := h.selected_eq_none_iff
          simp [Blocked, downloadEnabled, ViewKind.enablesDownload, h.kind_eq, hkind,
            hselected]

/-! ### One download -/

theorem download_of_enabled {dialog : Dialog} (henabled : dialog.downloadEnabled = true)
    (view : View) :
    dialog.download view = view.startExport dialog.selected dialog.fields dialog.sort := by
  rw [download, if_pos henabled]

/-- A download is refused as disabled exactly if it is disabled. -/
theorem download_eq_downloadDisabled_iff (dialog : Dialog) (view : View) :
    dialog.download view = .error .downloadDisabled ↔ dialog.downloadEnabled = false := by
  unfold download
  cases dialog.downloadEnabled with
  | false => simp
  | true => simp [view.startExport_ne_downloadDisabled]

/-- A download that succeeds is an export with the settings of the dialog. -/
theorem startExport_of_download {dialog : Dialog} {view : View} {started : Started}
    (h : dialog.download view = .ok started) :
    view.startExport dialog.selected dialog.fields dialog.sort = .ok started := by
  unfold download at h
  split at h
  · exact h
  · cases h

/-- In a state that does not block it, a download of the opened view is an export with
the settings of the dialog. -/
theorem OpenedOn.download_of_not_blocked {dialog : Dialog} {view : View}
    {fixed : Option WidgetId} (h : dialog.OpenedOn view fixed)
    (hblocked : ¬ dialog.Blocked view fixed) :
    dialog.download view = view.startExport dialog.selected dialog.fields dialog.sort := by
  rw [← h.downloadEnabled_eq_false_iff, Bool.not_eq_false] at hblocked
  exact download_of_enabled hblocked view

/-- On a view with a choice of tables, a download that succeeds has a table selected. -/
theorem OpenedOn.selected_of_download {dialog : Dialog} {view : View} {started : Started}
    (h : dialog.OpenedOn view none) (hdownload : dialog.download view = .ok started)
    (hchoice : view.kind = .dashboard ∨ 2 ≤ view.messageTables.length) :
    ∃ table ∈ view.messageTables, dialog.selected = some table := by
  cases hselected : dialog.selected with
  | some table => exact ⟨table, h.selected_mem table hselected, rfl⟩
  | none =>
      have hblocked : dialog.Blocked view none := .inl ⟨rfl, hselected, hchoice⟩
      rw [(download_eq_downloadDisabled_iff dialog view).mpr
        (h.downloadEnabled_eq_false_iff.mpr hblocked)] at hdownload
      cases hdownload

/-! ### Requests on record -/

/-- What a request for the view says if it was handed out in the given state: its scope
is the search type behind the selected table, it exports every message only where that
is what was chosen, and it carries the settings of that moment. -/
structure HandsOut (dialog : Dialog) (view : View) (fixed : Option WidgetId)
    (request : Request) : Prop where
  scope_eq : request.scope =
    (view.resolve? dialog.selected).map fun searchType => (view.search.id, searchType.id)
  /-- A dashboard is never exported as a whole. -/
  dashboard : view.kind = .dashboard → ∀ payload, request ≠ .allMessages payload
  /-- With a choice of tables, a search is exported as a whole only while a table is
  selected that has no search type behind it. -/
  choice : fixed = none → view.kind = .search → 2 ≤ view.messageTables.length →
    ∀ payload, request = .allMessages payload →
      ∃ table ∈ view.messageTables,
        dialog.selected = some table ∧ view.resolve? (some table) = none
  fields_eq : request.payload.fields = dialog.fields.map SelectedField.field
  sort_eq : request.payload.sort = dialog.sort

/-- What a download of the opened view hands out. -/
theorem OpenedOn.handsOut {dialog : Dialog} {view : View} {fixed : Option WidgetId}
    {started : Started} (h : dialog.OpenedOn view fixed)
    (hdownload : dialog.download view = .ok started) :
    dialog.HandsOut view fixed started.request := by
  have hstart := startExport_of_download hdownload
  have hscope := View.scope_of_startExport hstart
  obtain ⟨hfields, hsort⟩ := View.payload_of_startExport hstart
  refine ⟨hscope, ?_, ?_, hfields, hsort⟩
  · intro hkind payload hrequest
    refine View.scope_ne_none_of_startExport hkind hstart ?_
    rw [hrequest]
    rfl
  · rintro rfl _ hseveral payload hrequest
    obtain ⟨table, hmem, hselected⟩ := h.selected_of_download hdownload (.inr hseveral)
    refine ⟨table, hmem, hselected, ?_⟩
    rw [hrequest, hselected] at hscope
    exact Option.map_eq_none_iff.mp hscope.symm

/-- Two states of a dialog for one widget select the same. -/
theorem OpenedOn.selected_eq {dialog other : Dialog} {view : View} {fixed : Option WidgetId}
    (hfixed : fixed ≠ none) (h : dialog.OpenedOn view fixed) (h' : other.OpenedOn view fixed) :
    dialog.selected = other.selected := by
  obtain ⟨id, rfl⟩ := Option.ne_none_iff_exists'.mp hfixed
  ext table
  rw [h.selected_fixed id rfl, h'.selected_fixed id rfl]

/-- A run whose downloads are all of the opened view records nothing but what the
states that it passed hand out. -/
theorem handsOut_of_mem_requestsOf {view : View} {fixed : Option WidgetId}
    {defaultFields : List String} {steps : List Step}
    (hsteps : ∀ other, .download other ∈ steps → other = view) {request : Request}
    (hrequest : request ∈ requestsOf ((ofView view fixed defaultFields).run steps)) :
    ∃ before rest, steps = before ++ .download view :: rest ∧
      ((ofView view fixed defaultFields).after before).HandsOut view fixed request := by
  obtain ⟨before, other, rest, started, rfl, hdownload, rfl⟩ :=
    mem_requestsOf_run.mp hrequest
  obtain rfl := hsteps other (List.mem_append_right _ List.mem_cons_self)
  exact ⟨before, rest, rfl, (openedOn_after other fixed defaultFields before).handsOut hdownload⟩

/-- **The scope of every download.** In every state that a dialog reaches, a download
of the opened view is refused, or limited to the selected table, or lets every message
through, exactly under the conditions given here; and the requests that a run puts on
record are those that its states hand out. In a dialog for one widget they all have
one scope. -/
theorem opened_download_scope (view : View) (fixed : Option WidgetId)
    (defaultFields : List String) (steps : List Step) :
    let opened := ofView view fixed defaultFields
    let dialog := opened.after steps
    let result := (dialog.step (.download view)).result
    let payload := Payload.ofSettings dialog.fields dialog.sort
    (result = .error .downloadDisabled ↔ dialog.Blocked view fixed) ∧
      (¬ dialog.Blocked view fixed → view.kind = .dashboard →
        result = match view.resolve? dialog.selected with
          | some searchType =>
              .ok (some (.searchType view.search.id searchType.id payload))
          | none => .error .dashboardRequiresWidget) ∧
      (¬ dialog.Blocked view fixed → view.kind = .search →
        (∀ count, result = .error (.singleQueryRequired count) ↔
          count = view.search.queries.length ∧ count ≠ 1) ∧
        ∀ query, view.search.queries = [query] →
          result = match view.resolve? dialog.selected with
            | some searchType =>
                .ok (some (.searchType view.search.id searchType.id payload))
            | none => .ok (some (.allMessages (payload.withQuery query)))) ∧
      ((∀ other, .download other ∈ steps → other = view) →
        ∀ request ∈ requestsOf (opened.run steps),
          (∃ before rest, steps = before ++ .download view :: rest ∧
            (opened.after before).HandsOut view fixed request) ∧
          (fixed ≠ none → ∀ other ∈ requestsOf (opened.run steps),
            other.scope = request.scope)) := by
  intro opened dialog result payload
  have h : dialog.OpenedOn view fixed := openedOn_after view fixed defaultFields steps
  have hresult : result = (dialog.download view).map fun started => some started.request :=
    step_download_result dialog view
  refine ⟨?_, ?_, ?_, ?_⟩
  · rw [← h.downloadEnabled_eq_false_iff, ← download_eq_downloadDisabled_iff dialog view,
      hresult]
    cases dialog.download view <;> simp [Except.map]
  · intro hblocked hkind
    rw [hresult, h.download_of_not_blocked hblocked, view.startExport_dashboard _ _ _ hkind]
    cases view.resolve? dialog.selected <;> rfl
  · intro hblocked hkind
    rw [hresult, h.download_of_not_blocked hblocked]
    constructor
    · intro count
      have hcount := view.startExport_eq_singleQueryRequired_iff dialog.selected
        dialog.fields dialog.sort count
      rw [hkind, eq_self_iff_true, true_and] at hcount
      rw [← hcount]
      cases view.startExport dialog.selected dialog.fields dialog.sort <;> simp [Except.map]
    · intro query hqueries
      rw [view.startExport_search _ _ _ hkind hqueries]
      cases view.resolve? dialog.selected <;> rfl
  · intro hsteps request hrequest
    refine ⟨handsOut_of_mem_requestsOf hsteps hrequest, ?_⟩
    intro hfixed other hother
    obtain ⟨before, -, -, hout⟩ := handsOut_of_mem_requestsOf hsteps hrequest
    obtain ⟨before', -, -, hout'⟩ := handsOut_of_mem_requestsOf hsteps hother
    rw [hout.scope_eq, hout'.scope_eq, (openedOn_after view fixed defaultFields before').selected_eq
      hfixed (openedOn_after view fixed defaultFields before)]

end MessageExport.Dialog
