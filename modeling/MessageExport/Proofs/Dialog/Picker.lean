import MessageExport.Proofs.Dialog.Download
/-!
# MessageExport.Proofs.Dialog.Picker

What the **picker** offers is what a **selection** accepts.

The options of a dialog are made from its tables, and a selection looks its table up
among them, so the two can only differ over an id that several tables share. The
tables of a view have distinct ids, and `OpenedOn` says that a dialog keeps these
tables however it is used: in every state an id is accepted exactly if it is offered,
and then the offered table is the one that is selected.
-/

namespace MessageExport.Dialog

/-! ### What is offered -/

/-- A table is offered under its own id. -/
theorem map_widget_options (dialog : Dialog) :
    dialog.options.map TableOption.widget = dialog.tables.map Widget.id := by
  rw [options, List.map_map]
  rfl

/-- In every state the picker offers the message tables of the view, in their order. -/
theorem OpenedOn.map_widget_options {dialog : Dialog} {view : View} {fixed : Option WidgetId}
    (h : dialog.OpenedOn view fixed) :
    dialog.options.map TableOption.widget = view.messageTables.map Widget.id := by
  rw [dialog.map_widget_options, h.tables_eq]

/-! ### What a selection does -/

/-- A table that is found is adopted. -/
theorem step_selectTable_of_find {dialog : Dialog} {id : WidgetId} {table : Widget}
    (hfixed : dialog.fixed = none) (hfind : findTable? dialog.tables id = some table) :
    dialog.step (.selectTable id) = ⟨dialog.adopt table, .ok none, []⟩ := by
  simp only [step, selectTable, selectionWarnings, hfixed, hfind, replyOf, adopt]

/-- An id that is not offered is refused as unknown. -/
theorem step_selectTable_of_not_mem {dialog : Dialog} {id : WidgetId}
    (hfixed : dialog.fixed = none) (hid : id ∉ dialog.options.map TableOption.widget) :
    dialog.step (.selectTable id) = ⟨dialog, .error (.unknownWidget id), []⟩ := by
  have hfind : findTable? dialog.tables id = none := by
    rw [dialog.map_widget_options] at hid
    simpa [findTable?] using hid
  simp only [step, selectTable, selectionWarnings, hfixed, hfind, replyOf]

/-- In a dialog for one widget every selection is refused, that of the widget as well. -/
theorem step_selectTable_of_fixed {dialog : Dialog} {fixed : WidgetId}
    (hfixed : dialog.fixed = some fixed) (id : WidgetId) :
    dialog.step (.selectTable id) =
      ⟨dialog, .error (.selectionLocked fixed), [.selectionRejected id fixed]⟩ := by
  simp only [step, selectTable, selectionWarnings, hfixed, replyOf]

/-- An offered id selects the message table that has it. -/
theorem OpenedOn.step_selectTable_of_mem {dialog : Dialog} {view : View} {id : WidgetId}
    (h : dialog.OpenedOn view none) (hid : id ∈ dialog.options.map TableOption.widget) :
    ∃ table ∈ view.messageTables, table.id = id ∧
      dialog.step (.selectTable id) = ⟨dialog.adopt table, .ok none, []⟩ := by
  rw [h.map_widget_options] at hid
  obtain ⟨table, hmem, rfl⟩ := List.mem_map.mp hid
  refine ⟨table, hmem, rfl, step_selectTable_of_find h.fixed_eq ?_⟩
  rw [h.tables_eq]
  exact View.findTable?_messageTables.mpr ⟨hmem, rfl⟩

/-- Once a table is adopted, the export can be started. -/
theorem downloadEnabled_adopt {dialog : Dialog} (hfixed : dialog.fixed = none)
    (table : Widget) : (dialog.adopt table).downloadEnabled = true := by
  have hfixed' : (dialog.adopt table).fixed = none := hfixed
  rw [downloadEnabled_eq_not_showsPicker hfixed', Bool.not_eq_true', ← Bool.not_eq_true,
    showsPicker_iff]
  rintro ⟨-, hselected, -⟩
  cases hselected

/-! ### Where nothing can be selected -/

/-- A dashboard on which no table can be selected never lets an export start: it has no
message tables, or it was opened for a widget that is none of them. -/
theorem OpenedOn.downloadEnabled_eq_false {dialog : Dialog} {view : View}
    {fixed : Option WidgetId} (h : dialog.OpenedOn view fixed) (hkind : view.kind = .dashboard)
    (hnone : view.messageTables = [] ∨
      ∃ id, fixed = some id ∧ ∀ table ∈ view.messageTables, table.id ≠ id) :
    dialog.downloadEnabled = false := by
  rw [h.downloadEnabled_eq_false_iff]
  rcases hnone with hempty | hunknown
  · cases fixed with
    | none =>
        have hselected : dialog.selected = none := by
          refine Option.eq_none_iff_forall_ne_some.mpr fun table htable => ?_
          have hmem := h.selected_mem table htable
          rw [hempty] at hmem
          cases hmem
        exact .inl ⟨rfl, hselected, .inl hkind⟩
    | some id => exact .inr ⟨hkind, id, rfl, by simp [hempty]⟩
  · exact .inr ⟨hkind, hunknown⟩

/-- **The picker and the selection agree.** Whatever was done in a dialog that leaves the
choice of a table, it offers the message tables of the view under distinct ids, and an id
is accepted exactly if it is offered, whether the picker is shown or not. What is then
selected is the offered table with its own settings, and the export can be started; every
other id is refused as unknown. A dialog for one widget refuses every id. So a dashboard
without message tables, or opened for a widget that is none, can never be exported. -/
theorem opened_options_iff_selectTable (view : View) (defaultFields : List String)
    (steps : List Step) :
    (let dialog := (ofView view none defaultFields).after steps
      let offered := dialog.options.map TableOption.widget
      offered.Nodup ∧
        offered = view.messageTables.map Widget.id ∧
        ∀ id,
          ((dialog.step (.selectTable id)).result = .ok none ↔ id ∈ offered) ∧
          (id ∉ offered → (dialog.step (.selectTable id)).result = .error (.unknownWidget id)) ∧
          (id ∈ offered →
            let next := (dialog.step (.selectTable id)).dialog
            ∃ table ∈ view.messageTables, table.id = id ∧
              next.selected = some table ∧
              next.fields = table.settings.fields.map (fun name => ⟨name⟩) ∧
              next.sort = table.settings.sort ∧
              next.downloadEnabled = true)) ∧
      (∀ fixed id,
        (((ofView view (some fixed) defaultFields).after steps).step (.selectTable id)).result =
          .error (.selectionLocked fixed)) ∧
      (view.kind = .dashboard → view.messageTables = [] →
        ∀ fixed, ((ofView view fixed defaultFields).after steps).downloadEnabled = false) ∧
      (view.kind = .dashboard → ∀ id, (∀ table ∈ view.messageTables, table.id ≠ id) →
        ((ofView view (some id) defaultFields).after steps).downloadEnabled = false) := by
  refine ⟨?_, ?_, ?_, ?_⟩
  · intro dialog offered
    have h : dialog.OpenedOn view none := openedOn_after view none defaultFields steps
    have hoffered : offered = view.messageTables.map Widget.id := h.map_widget_options
    refine ⟨hoffered ▸ view.nodup_messageTables, hoffered, fun id => ⟨?_, ?_, ?_⟩⟩
    · constructor
      · intro hresult
        by_contra hid
        rw [step_selectTable_of_not_mem h.fixed_eq hid] at hresult
        cases hresult
      · intro hid
        obtain ⟨table, -, -, hstep⟩ := h.step_selectTable_of_mem hid
        rw [hstep]
    · intro hid
      rw [step_selectTable_of_not_mem h.fixed_eq hid]
    · intro hid next
      obtain ⟨table, hmem, heq, hstep⟩ := h.step_selectTable_of_mem hid
      have hnext : next = dialog.adopt table := congrArg Reply.dialog hstep
      rw [hnext]
      exact ⟨table, hmem, heq, rfl, rfl, rfl, downloadEnabled_adopt h.fixed_eq table⟩
  · intro fixed id
    rw [step_selectTable_of_fixed (openedOn_after view (some fixed) defaultFields steps).fixed_eq]
  · intro hkind hempty fixed
    exact (openedOn_after view fixed defaultFields steps).downloadEnabled_eq_false hkind
      (.inl hempty)
  · intro hkind id hunknown
    exact (openedOn_after view (some id) defaultFields steps).downloadEnabled_eq_false hkind
      (.inr ⟨id, rfl, hunknown⟩)

end MessageExport.Dialog
