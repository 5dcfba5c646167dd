import Mathlib.Data.List.DropRight
import MessageExport.Proofs.Dialog.Download
/-!
# MessageExport.Proofs.Dialog.History

The settings of a dialog as a function of its **history**.

A dialog is changed in place, step by step. What it holds at the end is nevertheless
decided by a few of its steps: the last selection, and after it the last word on the
fields, on the sort entries and on their direction. `settled` reads these off the
list of accepted steps, and `after_eq_settled` says that this is what every run
arrives at. The proof goes along the run from its end, one accepted step at a time.
-/

namespace MessageExport.Dialog

/-! ### What a step gives -/

/-- The table that a step selects. -/
def Step.tableId? : Step → Option WidgetId
  | .selectTable id => some id
  | _ => none

/-- The fields that a step chooses. -/
def Step.names? : Step → Option (List String)
  | .selectFields names => some names
  | _ => none

/-- The sort entries that a step sets. -/
def Step.entries? : Step → Option (List SortEntry)
  | .setSort entries => some entries
  | _ => none

/-- The direction that a step sorts every entry in. -/
def Step.direction? : Step → Option Direction
  | .setSortDirection direction => some direction
  | _ => none

/-- The step takes the selection back. -/
def Step.isReset : Step → Bool
  | .resetSelection => true
  | _ => false

variable {α : Type}

/-- The last that steps give of something. -/
def lastGiven (give : Step → Option α) (steps : List Step) : Option α :=
  (steps.filterMap give).getLast?

/-- The steps after the last one that gives something; all of them if none does. -/
def sinceLast (give : Step → Option α) (steps : List Step) : List Step :=
  steps.rtakeWhile fun step => (give step).isNone

@[simp] theorem lastGiven_nil (give : Step → Option α) : lastGiven give [] = none := rfl

@[simp] theorem sinceLast_nil (give : Step → Option α) : sinceLast give [] = [] := rfl

theorem lastGiven_concat (give : Step → Option α) (steps : List Step) (step : Step) :
    lastGiven give (steps ++ [step]) = (give step).or (lastGiven give steps) := by
  unfold lastGiven
  rw [List.filterMap_append]
  cases hgive : give step <;> simp [hgive]

theorem sinceLast_concat (give : Step → Option α) (steps : List Step) (step : Step) :
    sinceLast give (steps ++ [step]) =
      if (give step).isNone then sinceLast give steps ++ [step] else [] :=
  List.rtakeWhile_concat _ _ _

/-! ### The accepted steps of a run -/

/-- The steps of a run that are not refused, in order. -/
def accepted (dialog : Dialog) (steps : List Step) : List Step :=
  ((steps.zip (dialog.run steps)).filter fun entry => !entry.2.isRefused).map Prod.fst

theorem accepted_concat (dialog : Dialog) (steps : List Step) (step : Step) :
    dialog.accepted (steps ++ [step]) =
      dialog.accepted steps ++
        if ((dialog.after steps).step step).isRefused then [] else [step] := by
  unfold accepted
  rw [run_concat, List.zip_append (dialog.length_run steps).symm, List.filter_append,
    List.map_append]
  cases hrefused : ((dialog.after steps).step step).isRefused <;> simp [hrefused]

/-- An accepted step was accepted in a state that the run passed. -/
theorem accepts_of_mem_accepted {dialog : Dialog} {steps : List Step} {step : Step}
    (h : step ∈ dialog.accepted steps) :
    ∃ before rest next, steps = before ++ step :: rest ∧
      (dialog.after before).Accepts step next := by
  induction steps generalizing dialog with
  | nil => cases h
  | cons first steps ih =>
      have hcons : dialog.accepted (first :: steps) =
          (if (dialog.step first).isRefused then [] else [first]) ++
            (dialog.step first).dialog.accepted steps := by
        unfold accepted
        rw [run_cons, List.zip_cons_cons, List.filter_cons]
        cases (dialog.step first).isRefused <;> rfl
      rw [hcons, List.mem_append] at h
      rcases h with hfirst | hrest
      · split at hfirst
        · cases hfirst
        · rename_i haccepted
          obtain rfl := List.mem_singleton.mp hfirst
          exact ⟨[], steps, _, rfl, accepts_of_not_isRefused (Bool.not_eq_true _ ▸ haccepted)⟩
      · obtain ⟨before, rest, next, rfl, haccepts⟩ := ih hrest
        exact ⟨first :: before, rest, next, rfl, haccepts⟩

/-! ### Where a history leads -/

/-- The table whose settings were adopted last: by the last selection, or else when the
dialog was opened. -/
def lastTable (view : View) (fixed : Option WidgetId) (taken : List Step) : Option Widget :=
  match lastGiven Step.tableId? taken with
  | some id => findTable? view.messageTables id
  | none => view.kind.initialTable view.messageTables fixed

/-- The sort entries after steps that began with those of a table: the last that were
set, or else the table's, each in the last direction that was given since then. -/
def settledSort (table : Option Widget) (since : List Step) : List SortEntry :=
  let entries := (lastGiven Step.entries? since).getD
    (table.elim [] fun table => table.settings.sort)
  let direction := lastGiven Step.direction? (sinceLast Step.entries? since)
  entries.map fun entry => { entry with direction := direction.getD entry.direction }

/-- The dialog that a history of accepted steps leads to. Only what came after the last
selection matters. -/
def settled (view : View) (fixed : Option WidgetId) (defaultFields : List String)
    (taken : List Step) : Dialog :=
  let table := lastTable view fixed taken
  let since := sinceLast Step.tableId? taken
  { kind := view.kind
    fixed
    tables := view.messageTables
    titles := view.titles
    selected := if since.any Step.isReset then none else table
    fields := selectNames ((lastGiven Step.names? since).getD
      (table.elim defaultFields fun table => table.settings.fields))
    sort := settledSort table since }

/-! ### One step more -/

theorem settledSort_setSort (table : Option Widget) (since : List Step)
    (entries : List SortEntry) :
    settledSort table (since ++ [.setSort entries]) = entries := by
  simp [settledSort, lastGiven_concat, sinceLast_concat, Step.entries?]

theorem settledSort_setSortDirection (table : Option Widget) (since : List Step)
    (direction : Direction) :
    settledSort table (since ++ [.setSortDirection direction]) =
      (settledSort table since).map fun entry => entry.withDirection direction := by
  simp [settledSort, lastGiven_concat, sinceLast_concat, Step.entries?, Step.direction?,
    SortEntry.withDirection]

example :
    settledSort none
        [.setSortDirection .ascending,
          .setSort [⟨"source", .ascending⟩, ⟨"timestamp", .descending⟩],
          .selectFields [], .setSortDirection .descending] =
      [⟨"source", .descending⟩, ⟨"timestamp", .descending⟩] := rfl

/-- A step that says nothing of the sort order leaves it as it is. -/
theorem settledSort_concat (table : Option Widget) (since : List Step) {step : Step}
    (hentries : step.entries? = none) (hdirection : step.direction? = none) :
    settledSort table (since ++ [step]) = settledSort table since := by
  simp [settledSort, lastGiven_concat, sinceLast_concat, hentries, hdirection]

/-- A step that selects no table adds to what came after the last selection. -/
theorem settled_concat (view : View) (fixed : Option WidgetId) (defaultFields : List String)
    (taken : List Step) {step : Step} (hstep : step.tableId? = none) :
    settled view fixed defaultFields (taken ++ [step]) =
      { settled view fixed defaultFields taken with
        selected :=
          if step.isReset then none else (settled view fixed defaultFields taken).selected
        fields := (step.names?.map selectNames).getD
          (settled view fixed defaultFields taken).fields
        sort := settledSort (lastTable view fixed taken)
          (sinceLast Step.tableId? taken ++ [step]) } := by
  have htable : lastTable view fixed (taken ++ [step]) = lastTable view fixed taken := by
    simp only [lastTable, lastGiven_concat, hstep, Option.none_or]
  have hsince : sinceLast Step.tableId? (taken ++ [step]) =
      sinceLast Step.tableId? taken ++ [step] := by
    simp only [sinceLast_concat, hstep, Option.isNone_none, if_true]
  simp only [settled, htable, hsince, lastGiven_concat]
  cases hreset : step.isReset <;> cases step.names? <;> simp [hreset]

/-- A selection makes what came before it irrelevant: the table that it finds decides. -/
theorem settled_selectTable (view : View) (fixed : Option WidgetId)
    (defaultFields : List String) (taken : List Step) {id : WidgetId} {table : Widget}
    (hfind : findTable? view.messageTables id = some table) :
    settled view fixed defaultFields (taken ++ [.selectTable id]) =
      (settled view fixed defaultFields taken).adopt table := by
  simp [settled, settledSort, lastTable, adopt, lastGiven_concat, sinceLast_concat,
    Step.tableId?, hfind]

/-- Without steps, the history of a dialog is its opening. -/
theorem settled_nil (view : View) (fixed : Option WidgetId) (defaultFields : List String) :
    settled view fixed defaultFields [] = ofView view fixed defaultFields := by
  simp only [settled, settledSort, lastTable, ofView, lastGiven_nil, sinceLast_nil]
  cases view.kind.initialTable view.messageTables fixed <;> simp

/-- An accepted step leads where the longer history does. -/
theorem Accepts.eq_settled {view : View} {fixed : Option WidgetId}
    {defaultFields : List String} {taken : List Step} {step : Step} {next : Dialog}
    (h : (settled view fixed defaultFields taken).Accepts step next) :
    next = settled view fixed defaultFields (taken ++ [step]) := by
  cases h with
  | selectTable _ hfind => rw [settled_selectTable view fixed defaultFields taken hfind]
  | resetSelection =>
      rw [settled_concat view fixed defaultFields taken rfl, settledSort_concat _ _ rfl rfl]
      rfl
  | selectFields names =>
      rw [settled_concat view fixed defaultFields taken rfl, settledSort_concat _ _ rfl rfl]
      rfl
  | setSort entries =>
      rw [settled_concat view fixed defaultFields taken rfl, settledSort_setSort]
      rfl
  | setSortDirection direction =>
      rw [settled_concat view fixed defaultFields taken rfl, settledSort_setSortDirection]
      rfl
  | download =>
      rw [settled_concat view fixed defaultFields taken rfl, settledSort_concat _ _ rfl rfl]
      rfl

/-- Every run arrives where its accepted steps lead. -/
theorem after_eq_settled (view : View) (fixed : Option WidgetId)
    (defaultFields : List String) (steps : List Step) :
    (ofView view fixed defaultFields).after steps =
      settled view fixed defaultFields ((ofView view fixed defaultFields).accepted steps) := by
  induction steps using List.reverseRecOn with
  | nil => exact (settled_nil view fixed defaultFields).symm
  | append_singleton steps step ih =>
      rw [after_concat, accepted_concat]
      -- a refused step adds to neither side
      rcases step_cases ((ofView view fixed defaultFields).after steps) step with
        ⟨hrefused, hsame⟩ | ⟨haccepted, haccepts⟩
      · rw [if_pos hrefused, List.append_nil, hsame, ih]
      · rw [if_neg (by simp [haccepted])]
        rw [ih] at haccepts
        exact ih ▸ haccepts.eq_settled

/-! ### What follows -/

/-- The table of the last selection is the message table with its id. -/
theorem lastTable_of_lastGiven (view : View) (fixed : Option WidgetId)
    (defaultFields : List String) (steps : List Step) {id : WidgetId}
    (h : lastGiven Step.tableId? ((ofView view fixed defaultFields).accepted steps) = some id) :
    ∃ table ∈ view.messageTables, table.id = id ∧
      lastTable view fixed ((ofView view fixed defaultFields).accepted steps) =
        some table := by
  -- the last selection was accepted in some state of the run, which knew its table
  obtain ⟨step, hmem, hid⟩ := List.mem_filterMap.mp (List.mem_of_getLast? h)
  obtain ⟨before, rest, next, -, haccepts⟩ := accepts_of_mem_accepted hmem
  cases haccepts with
  | selectTable _ hfind =>
      obtain rfl := Option.some.inj hid
      rw [(openedOn_after view fixed defaultFields before).tables_eq] at hfind
      obtain ⟨htable, heq⟩ := mem_of_findTable? hfind
      refine ⟨_, htable, heq, ?_⟩
      rw [lastTable, h]
      exact hfind
  | resetSelection | selectFields | setSort | setSortDirection | download => cases hid

/-- An accepted selection adopts the table that it names, whatever the dialog held. -/
theorem step_selectTable_adopts {dialog : Dialog} {id : WidgetId}
    (h : (dialog.step (.selectTable id)).isRefused = false) :
    ∃ table, findTable? dialog.tables id = some table ∧
      (dialog.step (.selectTable id)).dialog = dialog.adopt table := by
  have haccepts := accepts_of_not_isRefused h
  generalize (dialog.step (.selectTable id)).dialog = next at haccepts
  cases haccepts with
  | selectTable _ hfind => exact ⟨_, hfind, rfl⟩

/-- Two dialogs opened on one view for one widget differ in nothing but their settings,
so a selection of the same table leaves no difference. -/
theorem OpenedOn.step_selectTable_eq {dialog other : Dialog} {view : View}
    {fixed : Option WidgetId} (h : dialog.OpenedOn view fixed) (h' : other.OpenedOn view fixed)
    {id : WidgetId} (hstep : (dialog.step (.selectTable id)).isRefused = false)
    (hstep' : (other.step (.selectTable id)).isRefused = false) :
    (dialog.step (.selectTable id)).dialog = (other.step (.selectTable id)).dialog := by
  obtain ⟨table, hfind, heq⟩ := step_selectTable_adopts hstep
  obtain ⟨table', hfind', heq'⟩ := step_selectTable_adopts hstep'
  rw [h.tables_eq] at hfind
  rw [h'.tables_eq] at hfind'
  obtain rfl := Option.some.inj (hfind.symm.trans hfind')
  rw [heq, heq', adopt, adopt, h.kind_eq, h.fixed_eq, h.tables_eq, h.titles_eq, h'.kind_eq,
    h'.fixed_eq, h'.tables_eq, h'.titles_eq]

/-- **The settings of a dialog after any run.** They are those of the last table that
was adopted, changed by what was said of them since; every download hands them out as
they are at that moment, and a selection wipes out all that came before it. -/
theorem opened_settings_of_history (view : View) (fixed : Option WidgetId)
    (defaultFields : List String) (steps : List Step) :
    let opened := ofView view fixed defaultFields
    let dialog := opened.after steps
    let taken := opened.accepted steps
    let table := lastTable view fixed taken
    let since := sinceLast Step.tableId? taken
    let entries := (lastGiven Step.entries? since).getD
      (table.elim [] fun table => table.settings.sort)
    let direction := lastGiven Step.direction? (sinceLast Step.entries? since)
    (∀ id, lastGiven Step.tableId? taken = some id →
        ∃ selected ∈ view.messageTables, selected.id = id ∧ table = some selected) ∧
      (lastGiven Step.tableId? taken = none →
        table = view.kind.initialTable view.messageTables fixed) ∧
      dialog.selected = (if since.any Step.isReset then none else table) ∧
      dialog.fields.map SelectedField.field = (lastGiven Step.names? since).getD
        (table.elim defaultFields fun table => table.settings.fields) ∧
      dialog.sort = entries.map (fun entry =>
        { entry with direction := direction.getD entry.direction }) ∧
      dialog.sort.map SortEntry.field = entries.map SortEntry.field ∧
      dialog.sortDirection = dialog.sort.head?.map SortEntry.direction ∧
      (∀ other, (dialog.step (.download other)).isRefused = false →
        ∃ request,
          requestsOf (opened.run (steps ++ [.download other])) =
            requestsOf (opened.run steps) ++ [request] ∧
          request.payload.fields = dialog.fields.map SelectedField.field ∧
          request.payload.sort = dialog.sort) ∧
      (∀ steps' id, (dialog.step (.selectTable id)).isRefused = false →
        ((opened.after steps').step (.selectTable id)).isRefused = false →
        opened.after (steps ++ [.selectTable id]) =
          opened.after (steps' ++ [.selectTable id])) := by
  intro opened dialog taken table since entries direction
  have hsettled : dialog = settled view fixed defaultFields taken :=
    after_eq_settled view fixed defaultFields steps
  have hfields : dialog.fields.map SelectedField.field = (lastGiven Step.names? since).getD
      (table.elim defaultFields fun table => table.settings.fields) := by
    rw [hsettled]
    exact map_field_selectNames _
  have hsort : dialog.sort = entries.map (fun entry =>
      { entry with direction := direction.getD entry.direction }) :=
    congrArg Dialog.sort hsettled
  refine ⟨?_, ?_, congrArg Dialog.selected hsettled, hfields, hsort, ?_, rfl, ?_, ?_⟩
  · intro id hid
    exact lastTable_of_lastGiven view fixed defaultFields steps hid
  · intro hnone
    simp only [table, lastTable, hnone]
  · rw [hsort, List.map_map]
    rfl
  · intro other haccepted
    obtain ⟨started, hdownload, hrequest⟩ := request?_of_download haccepted
    refine ⟨started.request, ?_, View.payload_of_startExport (startExport_of_download hdownload)⟩
    rw [requestsOf_run_concat, hrequest]
    rfl
  · intro steps' id hstep hstep'
    rw [after_concat, after_concat]
    exact (openedOn_after view fixed defaultFields steps).step_selectTable_eq
      (openedOn_after view fixed defaultFields steps') hstep hstep'

end MessageExport.Dialog
