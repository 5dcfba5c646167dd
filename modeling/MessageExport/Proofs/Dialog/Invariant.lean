import MessageExport.Proofs.Dialog.Run
import MessageExport.Proofs.Export.Table
/-!
# MessageExport.Proofs.Dialog.Invariant

What stays true of a dialog **however it is used**.

A dialog that was opened on a view keeps what it took from the view, and what is
selected in it is always one of the view's message tables. Where the user has no
choice the selection is fixed as well: a dialog for one widget stays with that
widget, and a search with a sole table stays with that table. `OpenedOn` collects
these facts; `openedOn_after` says that every run keeps them, and the flags that a
dialog shows are read off them.
-/

namespace MessageExport.Dialog

/-! ### The flags -/

theorem showsPicker_iff (dialog : Dialog) :
    dialog.showsPicker = true ↔ dialog.fixed = none ∧ dialog.selected = none ∧
      (dialog.kind = .dashboard ∨ 2 ≤ dialog.tables.length) := by
  unfold showsPicker ViewKind.showsPicker
  cases hkind : dialog.kind <;> simp [isSingle, and_assoc, Nat.succ_le_iff]

/-- The picker and the way back to it exclude each other, and one of them is there
whenever the dialog leaves a choice. -/
theorem allowsReselection_iff (dialog : Dialog) :
    dialog.allowsReselection = true ↔ dialog.fixed = none ∧ dialog.showsPicker = false ∧
      (dialog.kind = .dashboard ∨ 2 ≤ dialog.tables.length) := by
  unfold allowsReselection ViewKind.allowsReselection
  cases hkind : dialog.kind <;> simp [isSingle, and_assoc, Nat.succ_le_iff]

/-- A dialog with a choice of tables lets an export start just when no table is still
to be picked. -/
theorem downloadEnabled_eq_not_showsPicker {dialog : Dialog} (hfixed : dialog.fixed = none) :
    dialog.downloadEnabled = !dialog.showsPicker := by
  unfold downloadEnabled ViewKind.enablesDownload
  cases hkind : dialog.kind with
  | search => rfl
  | dashboard =>
      unfold showsPicker ViewKind.showsPicker
      rw [hkind]
      cases dialog.selected <;> simp [isSingle, hfixed]

/-- Where the selection can be taken back there is one, and the export can be started. -/
theorem selected_of_allowsReselection {dialog : Dialog} (h : dialog.allowsReselection = true) :
    dialog.selected ≠ none ∧ dialog.downloadEnabled = true := by
  obtain ⟨hfixed, hpicker, hchoice⟩ := dialog.allowsReselection_iff.mp h
  refine ⟨?_, ?_⟩
  · intro hselected
    rw [dialog.showsPicker_iff.mpr ⟨hfixed, hselected, hchoice⟩] at hpicker
    cases hpicker
  · rw [downloadEnabled_eq_not_showsPicker hfixed, hpicker]
    rfl

/-- With a choice of tables, the picker is shown exactly when there is no way back to it. -/
theorem allowsReselection_eq_not_showsPicker {dialog : Dialog} (hfixed : dialog.fixed = none)
    (hchoice : dialog.kind = .dashboard ∨ 2 ≤ dialog.tables.length) :
    dialog.allowsReselection = !dialog.showsPicker := by
  rw [Bool.eq_iff_iff, allowsReselection_iff, Bool.not_eq_true']
  exact ⟨fun h => h.2.1, fun h => ⟨hfixed, h, hchoice⟩⟩

/-- Without one, there is neither the picker nor a way back to it. -/
theorem flags_of_no_choice {dialog : Dialog}
    (h : ¬ (dialog.fixed = none ∧ (dialog.kind = .dashboard ∨ 2 ≤ dialog.tables.length))) :
    dialog.showsPicker = false ∧ dialog.allowsReselection = false := by
  constructor
  · rw [← Bool.not_eq_true, showsPicker_iff]
    exact fun hshows => h ⟨hshows.1, hshows.2.2⟩
  · rw [← Bool.not_eq_true, allowsReselection_iff]
    exact fun hallows => h ⟨hallows.1, hallows.2.2⟩

/-! ### The invariant -/

/-- The dialog was opened on a view, for one widget if `fixed` names one, and what is
selected is what such a dialog can have selected. -/
structure OpenedOn (dialog : Dialog) (view : View) (fixed : Option WidgetId) : Prop where
  kind_eq : dialog.kind = view.kind
  fixed_eq : dialog.fixed = fixed
  tables_eq : dialog.tables = view.messageTables
  titles_eq : dialog.titles = view.titles
  /-- Nothing but a message table of the view is selected. -/
  selected_mem : ∀ table, dialog.selected = some table → table ∈ view.messageTables
  /-- A dialog for one widget has the table with its id selected, and nothing if there
  is no such table. -/
  selected_fixed : ∀ id, fixed = some id → ∀ table,
    dialog.selected = some table ↔ table ∈ view.messageTables ∧ table.id = id
  /-- A search with a sole table has it selected. -/
  selected_sole : fixed = none → view.kind = .search → ∀ table,
    view.messageTables = [table] → dialog.selected = some table

/-! ### Opening a dialog -/

/-- The table that is selected at first is a message table. -/
theorem mem_of_initialTable {kind : ViewKind} {tables : List Widget}
    {fixed : Option WidgetId} {table : Widget}
    (h : kind.initialTable tables fixed = some table) : table ∈ tables := by
  unfold ViewKind.initialTable at h
  split at h
  · exact (mem_of_findTable? h).1
  · obtain rfl := Option.some.inj h
    exact List.mem_singleton_self _
  · cases h

theorem openedOn_ofView (view : View) (fixed : Option WidgetId)
    (defaultFields : List String) : (ofView view fixed defaultFields).OpenedOn view fixed where
  kind_eq := rfl
  fixed_eq := rfl
  tables_eq := rfl
  titles_eq := rfl
  selected_mem _ h := mem_of_initialTable h
  selected_fixed := by
    rintro id rfl table
    exact View.findTable?_messageTables
  selected_sole := by
    rintro rfl hsearch table htables
    show view.kind.initialTable view.messageTables none = some table
    rw [hsearch, htables]
    rfl

/-! ### Using a dialog -/

/-- An accepted step keeps the invariant: a selection names a table of the view, and it
is taken back only where there is a choice. -/
theorem OpenedOn.accepts {dialog next : Dialog} {view : View} {fixed : Option WidgetId}
    {step : Step} (h : dialog.OpenedOn view fixed) (haccepts : dialog.Accepts step next) :
    next.OpenedOn view fixed := by
  cases haccepts with
  | selectTable hfixed hfind =>
      -- only a dialog without a fixed widget selects, and only from its own tables
      rw [h.tables_eq] at hfind
      obtain ⟨hmem, -⟩ := mem_of_findTable? hfind
      obtain rfl : fixed = none := h.fixed_eq.symm.trans hfixed
      refine ⟨h.kind_eq, h.fixed_eq, h.tables_eq, h.titles_eq, ?_, ?_, ?_⟩
      · intro table htable
        exact Option.some.inj htable ▸ hmem
      · intro id hid
        cases hid
      · intro _ _ table htables
        rw [htables, List.mem_singleton] at hmem
        exact congrArg some hmem
  | resetSelection hallowed =>
      obtain ⟨hnone, -, hchoice⟩ := dialog.allowsReselection_iff.mp hallowed
      rw [h.kind_eq, h.tables_eq] at hchoice
      obtain rfl : fixed = none := h.fixed_eq.symm.trans hnone
      refine ⟨h.kind_eq, h.fixed_eq, h.tables_eq, h.titles_eq, ?_, ?_, ?_⟩
      · intro table htable
        cases htable
      · intro id hid
        cases hid
      · intro _ hsearch table htables
        -- the sole table of a search cannot be taken back
        rw [hsearch, htables] at hchoice
        rcases hchoice with hkind | hlength
        · cases hkind
        · exact absurd hlength (by simp)
  | selectFields | setSort | setSortDirection | download =>
      exact ⟨h.kind_eq, h.fixed_eq, h.tables_eq, h.titles_eq, h.selected_mem, h.selected_fixed,
        h.selected_sole⟩

/-- Every state that a run reaches satisfies the invariant. -/
theorem openedOn_after (view : View) (fixed : Option WidgetId) (defaultFields : List String)
    (steps : List Step) :
    ((ofView view fixed defaultFields).after steps).OpenedOn view fixed :=
  after_induction (motive := fun dialog => dialog.OpenedOn view fixed)
    (openedOn_ofView view fixed defaultFields)
    (fun _ _ _ h haccepts => h.accepts haccepts) steps

/-- **A dialog under every use of it.** Whatever is done in a dialog, it keeps what it
was opened on, and its selection and its flags stay as `OpenedOn` and the kind of the
view have them. -/
theorem opened_selection_and_flags (view : View) (fixed : Option WidgetId)
    (defaultFields : List String) (steps : List Step) :
    let dialog := (ofView view fixed defaultFields).after steps
    dialog.OpenedOn view fixed ∧
      (fixed = none → view.kind = .search → view.messageTables = [] →
        dialog.selected = none) ∧
      (fixed = none → dialog.downloadEnabled = !dialog.showsPicker) ∧
      (fixed = none → (view.kind = .dashboard ∨ 2 ≤ view.messageTables.length) →
        dialog.allowsReselection = !dialog.showsPicker) ∧
      (view.kind = .search → view.messageTables.length ≤ 1 →
        dialog.showsPicker = false ∧ dialog.allowsReselection = false) ∧
      (fixed ≠ none → dialog.showsPicker = false ∧ dialog.allowsReselection = false) ∧
      (dialog.allowsReselection = true →
        dialog.selected ≠ none ∧ dialog.downloadEnabled = true) := by
  intro dialog
  have h : dialog.OpenedOn view fixed := openedOn_after view fixed defaultFields steps
  refine ⟨h, ?_, ?_, ?_, ?_, ?_, selected_of_allowsReselection⟩
  · intro _ _ hempty
    refine Option.eq_none_iff_forall_ne_some.mpr fun table htable => ?_
    have hmem := h.selected_mem table htable
    rw [hempty] at hmem
    cases hmem
  · intro hfixed
    exact downloadEnabled_eq_not_showsPicker (h.fixed_eq.trans hfixed)
  · intro hfixed hchoice
    rw [← h.kind_eq, ← h.tables_eq] at hchoice
    exact allowsReselection_eq_not_showsPicker (h.fixed_eq.trans hfixed) hchoice
  · intro hsearch hlength
    apply flags_of_no_choice
    rw [h.kind_eq, h.tables_eq, hsearch]
    rintro ⟨-, hkind | hseveral⟩
    · cases hkind
    · omega
  · intro hfixed
    exact flags_of_no_choice fun hnone => hfixed (h.fixed_eq.symm.trans hnone.1)

end MessageExport.Dialog
