import MessageExport.CommandLine.Run
import MessageExport.Proofs.Dialog.Download
/-!
# MessageExport.Proofs.CommandLine.Run

A **run in closed form**.

A run opens a dialog and changes it step by step: a table is selected, then the fields,
the sort order and its direction are replaced, each only if the arguments say so. What
comes of it can be said without the dialog: which table is adopted (`adopted`), whether
it suffices (`Unsettled`), and which fields and sort order go with it. `prepare_ofView`
walks through the steps once; nothing else here looks into a dialog.
-/

namespace MessageExport.CommandLine

/-! ### What the arguments come to -/

/-- The table that a run exports without being told to: the only one of a search. -/
def soleTable (view : View) : Option Widget :=
  match view.kind, view.messageTables with
  | .search, [only] => some only
  | _, _ => none

/-- The message table that a run adopts. A run for a fixed widget takes that one, if it
is a message table, and lets no other be named. -/
def adopted (arguments : Arguments) (view : View) : Except ExportFault (Option Widget) :=
  match arguments.fixedWidget, arguments.widget with
  | some fixed, some _ => .error (.selectionLocked fixed)
  | some fixed, none => .ok (view.messageTables.find? fun table => table.id = fixed)
  | none, some id =>
      match view.messageTables.find? fun table => table.id = id with
      | some table => .ok (some table)
      | none => .error (.unknownWidget id)
  | none, none => .ok (soleTable view)

/-- The table is still to be chosen: there is none, and the view cannot be exported
without. -/
def Unsettled (arguments : Arguments) (view : View) (table : Option Widget) : Prop :=
  table = none ∧ (view.kind = .dashboard ∨
    (view.kind = .search ∧ arguments.fixedWidget = none ∧ 2 ≤ view.messageTables.length))

instance (arguments : Arguments) (view : View) (table : Option Widget) :
    Decidable (Unsettled arguments view table) :=
  inferInstanceAs (Decidable (_ ∧ _))

/-- The fields that a run exports: those of the arguments, else those of the table, else
the configured ones. -/
def fieldsOf (arguments : Arguments) (settings : Settings) (table : Option Widget) :
    List String :=
  arguments.fields.getD (table.elim settings.defaultFields fun table => table.settings.fields)

/-- The sort order of the adopted table. -/
def tableSort (table : Option Widget) : List SortEntry :=
  table.elim [] fun table => table.settings.sort

/-- The direction of the fields that the arguments sort by: theirs, else that of the
table's first entry, else from the largest down. -/
def directionOf (arguments : Arguments) (table : Option Widget) : Direction :=
  arguments.direction.getD
    (((tableSort table).head?.map SortEntry.direction).getD .descending)

/-- The sort order of a run: the fields of the arguments in one direction, else the
order of the table, in the direction of the arguments if they give one. -/
def sortOrderOf (arguments : Arguments) (table : Option Widget) : List SortEntry :=
  if arguments.sort = [] then
    (tableSort table).map fun entry =>
      { entry with direction := arguments.direction.getD entry.direction }
  else arguments.sort.map fun field => ⟨field, directionOf arguments table⟩

/-- What a run that does not list exports from a view. -/
def exported (arguments : Arguments) (settings : Settings) (view : View) :
    Except ExportFault Started :=
  match adopted arguments view with
  | .error fault => .error fault
  | .ok table =>
      if Unsettled arguments view table then .error .downloadDisabled
      else view.startExport table ((fieldsOf arguments settings table).map SelectedField.mk)
        (sortOrderOf arguments table)

/-! ### The dialog of a run -/

/-- The dialog on a view in which a table has been adopted, or none. -/
def dialogOn (view : View) (fixed : Option WidgetId) (defaultFields : List String)
    (table : Option Widget) : Dialog where
  kind := view.kind
  fixed
  tables := view.messageTables
  titles := view.titles
  selected := table
  fields := selectNames (table.elim defaultFields fun table => table.settings.fields)
  sort := tableSort table

theorem ofView_eq_dialogOn (view : View) (fixed : Option WidgetId)
    (defaultFields : List String) :
    Dialog.ofView view fixed defaultFields =
      dialogOn view fixed defaultFields
        (view.kind.initialTable view.messageTables fixed) := by
  simp only [Dialog.ofView, dialogOn, tableSort]
  cases view.kind.initialTable view.messageTables fixed <;> rfl

theorem initialTable_none (view : View) :
    view.kind.initialTable view.messageTables none = soleTable view := by
  unfold ViewKind.initialTable soleTable
  cases view.kind with
  | dashboard => rfl
  | search =>
      match view.messageTables with
      | [] => rfl
      | [_] => rfl
      | _ :: _ :: _ => rfl

/-- The dialog that a run has prepared, once a table or none is adopted. -/
def preparedDialog (arguments : Arguments) (settings : Settings) (view : View)
    (table : Option Widget) : Dialog :=
  { dialogOn view arguments.fixedWidget settings.defaultFields table with
    fields := selectNames (fieldsOf arguments settings table)
    sort := sortOrderOf arguments table }

/-- Without a name for a table, a run replaces the fields, the sort order and its
direction one after the other. -/
theorem prepare_dialogOn (arguments : Arguments) (settings : Settings) (view : View)
    (table : Option Widget) :
    prepare { arguments with widget := none }
        (dialogOn view arguments.fixedWidget settings.defaultFields table) =
      .ok (preparedDialog arguments settings view table) := by
  unfold prepare preparedDialog
  cases hfields : arguments.fields <;> by_cases hsort : arguments.sort = [] <;>
    cases hdirection : arguments.direction <;>
    simp [dialogOn, fieldsOf, sortOrderOf, directionOf, hfields, hsort, hdirection,
      sortOf, Dialog.sortDirection, Dialog.selectFields, Dialog.setSort,
      Dialog.setSortDirection, SortEntry.withDirection, bind, Except.bind]

/-- Naming a table is selecting it first, and then going on without a name. -/
theorem prepare_eq_bind (arguments : Arguments) (dialog : Dialog) :
    prepare arguments dialog =
      (match arguments.widget with
        | some id => dialog.selectTable id
        | none => .ok dialog) >>= prepare { arguments with widget := none } := by
  unfold prepare
  cases arguments.widget <;> rfl

/-- The selection of a run leads to the dialog with the adopted table, or to the fault
that there is none. -/
theorem selection_ofView (arguments : Arguments) (view : View) (defaultFields : List String) :
    (match arguments.widget with
      | some id => (Dialog.ofView view arguments.fixedWidget defaultFields).selectTable id
      | none => .ok (Dialog.ofView view arguments.fixedWidget defaultFields)) =
      (adopted arguments view).map (dialogOn view arguments.fixedWidget defaultFields) := by
  rw [ofView_eq_dialogOn]
  unfold adopted
  cases hfixed : arguments.fixedWidget with
  | some fixed =>
      cases hwidget : arguments.widget with
      | some id => rfl
      | none => rfl
  | none =>
      cases hwidget : arguments.widget with
      | none =>
          rw [initialTable_none]
          rfl
      | some id =>
          simp only [Dialog.selectTable, dialogOn, findTable?]
          cases view.messageTables.find? fun table => decide (table.id = id) <;> rfl

/-- The dialog that a run has prepared before it exports. -/
theorem prepare_ofView (arguments : Arguments) (settings : Settings) (view : View) :
    prepare arguments (Dialog.ofView view arguments.fixedWidget settings.defaultFields) =
      (adopted arguments view).map (preparedDialog arguments settings view) := by
  rw [prepare_eq_bind, selection_ofView]
  cases adopted arguments view with
  | error fault => rfl
  | ok table => exact prepare_dialogOn arguments settings view table

/-- The prepared dialog lets the export start unless a table is still to be chosen. -/
theorem downloadEnabled_preparedDialog (arguments : Arguments) (settings : Settings)
    (view : View) (table : Option Widget) :
    (preparedDialog arguments settings view table).downloadEnabled =
      !decide (Unsettled arguments view table) := by
  cases hkind : view.kind with
  | dashboard =>
      cases table <;>
        simp [Dialog.downloadEnabled, preparedDialog, dialogOn, ViewKind.enablesDownload,
          Unsettled, hkind]
  | search =>
      cases table <;> cases hfixed : arguments.fixedWidget <;>
        simp [Dialog.downloadEnabled, Dialog.showsPicker, Dialog.isSingle, preparedDialog,
          dialogOn, ViewKind.enablesDownload, ViewKind.showsPicker, Unsettled, hkind, hfixed,
          Nat.succ_le_iff]

/-- A download in the prepared dialog. -/
theorem download_preparedDialog (arguments : Arguments) (settings : Settings) (view : View)
    (table : Option Widget) :
    (preparedDialog arguments settings view table).download view =
      if Unsettled arguments view table then .error .downloadDisabled
      else view.startExport table ((fieldsOf arguments settings table).map SelectedField.mk)
        (sortOrderOf arguments table) := by
  unfold Dialog.download
  rw [downloadEnabled_preparedDialog]
  by_cases hunsettled : Unsettled arguments view table
  · simp [hunsettled]
  · simp [hunsettled, preparedDialog, dialogOn, selectNames]

/-! ### The run -/

/-- What a run that does not list prints for a document. -/
theorem report_of_not_list (arguments : Arguments) (settings : Settings)
    (document : Document) (hlist : arguments.list = false) :
    report arguments settings document =
      (exported arguments settings document.view).map fun started =>
        requestsText settings.pretty [started.request] := by
  simp only [report, hlist, Bool.false_eq_true, if_false, prepare_ofView, exported]
  cases adopted arguments document.view with
  | error fault => rfl
  | ok table =>
      simp only [Except.map, bind, Except.bind, download_preparedDialog, recorder_take,
        List.nil_append]

/-- The faults of a selection say that a table may not be named, or that there is none of
the name. -/
theorem adopted_ne_downloadDisabled (arguments : Arguments) (view : View) :
    adopted arguments view ≠ .error .downloadDisabled := by
  unfold adopted
  split
  · simp
  · simp
  · split <;> simp
  · simp

/-- A run comes to the download being disabled exactly if a table was still to be chosen. -/
theorem exported_eq_downloadDisabled_iff (arguments : Arguments) (settings : Settings)
    (view : View) :
    exported arguments settings view = .error .downloadDisabled ↔
      ∃ table, adopted arguments view = .ok table ∧ Unsettled arguments view table := by
  have hadopted := adopted_ne_downloadDisabled arguments view
  unfold exported
  cases h : adopted arguments view with
  | error fault =>
      rw [h] at hadopted
      simpa using hadopted
  | ok table =>
      by_cases hunsettled : Unsettled arguments view table
      · simp [hunsettled]
      · simp [hunsettled, view.startExport_ne_downloadDisabled]

/-- Whatever a run exports, the request carries the fields and the sort order that the arguments
and the adopted table come to. -/
theorem payload_of_exported {arguments : Arguments} {settings : Settings} {view : View}
    {started : Started} (h : exported arguments settings view = .ok started) :
    ∃ table, adopted arguments view = .ok table ∧
      started.request.payload.fields = fieldsOf arguments settings table ∧
      started.request.payload.sort = sortOrderOf arguments table := by
  unfold exported at h
  cases hadopted : adopted arguments view with
  | error fault =>
      rw [hadopted] at h
      cases h
  | ok table =>
      rw [hadopted] at h
      dsimp only at h
      split at h
      · cases h
      · obtain ⟨hfields, hsort⟩ := View.payload_of_startExport h
        refine ⟨table, rfl, ?_, hsort⟩
        rw [hfields, List.map_map]
        exact List.map_id _

/-- **The command line in closed form.** A call that does not list, and whose settings,
log file and document are there, prints the one request of `exported`, or ends with its
fault; in both cases it leaves behind the files that it found with its log in them. The
adopted table is the message table with the fixed or the named id; a table may not be named
beside a fixed one; and the download is disabled exactly if no table is adopted where one is
needed. Otherwise an export of the adopted table is started, and if it hands out a request,
that carries the fields of the arguments, of the table or of the settings, and the sort order
of the arguments or of the table, just as they are. -/
theorem call_of_not_list (args : List String) (around : Surroundings) (arguments : Arguments)
    (settings : Settings) (files : FileSystem) (document : Document)
    (hargs : Arguments.ofList args = .ok arguments) (hlist : arguments.list = false)
    (hsettings : Settings.resolve around.environment around.files arguments.config
      (if arguments.pretty then some true else none) = .ok settings)
    (hlog : startRun arguments settings around = (files, .started))
    (hdocument : loadDocument arguments files around.input = .ok document) :
    let view := document.view
    let finished := finishRun arguments settings around files
    call args around =
        (match exported arguments settings view with
        | .error fault => failedRun finished (.exporting fault)
        | .ok started =>
            { exitCode := 0
              output := requestsText settings.pretty [started.request]
              files := finished }) ∧
      (∀ fixed, arguments.fixedWidget = some fixed → arguments.widget ≠ none →
        exported arguments settings view = .error (.selectionLocked fixed)) ∧
      (∀ fixed table, arguments.fixedWidget = some fixed → arguments.widget = none →
        (adopted arguments view = .ok (some table) ↔
          table ∈ view.messageTables ∧ table.id = fixed)) ∧
      (∀ id table, arguments.fixedWidget = none → arguments.widget = some id →
        (adopted arguments view = .ok (some table) ↔
          table ∈ view.messageTables ∧ table.id = id)) ∧
      (∀ id, arguments.fixedWidget = none → arguments.widget = some id →
        (∀ table ∈ view.messageTables, table.id ≠ id) →
          exported arguments settings view = .error (.unknownWidget id)) ∧
      (arguments.fixedWidget = none → arguments.widget = none →
        adopted arguments view = .ok (soleTable view)) ∧
      (exported arguments settings view = .error .downloadDisabled ↔
        ∃ table, adopted arguments view = .ok table ∧ Unsettled arguments view table) ∧
      (∀ table, adopted arguments view = .ok table → ¬ Unsettled arguments view table →
        exported arguments settings view =
          view.startExport table ((fieldsOf arguments settings table).map SelectedField.mk)
            (sortOrderOf arguments table)) ∧
      (∀ started, exported arguments settings view = .ok started →
        ∃ table, adopted arguments view = .ok table ∧
          started.request.payload.fields = fieldsOf arguments settings table ∧
          started.request.payload.sort = sortOrderOf arguments table) := by
  intro view finished
  refine ⟨?_, ?_, ?_, ?_, ?_, ?_, exported_eq_downloadDisabled_iff arguments settings view, ?_,
    fun started => payload_of_exported⟩
  · simp only [call, hargs, run, hsettings, hlog, respond, hdocument, Except.mapError, bind,
      Except.bind, report_of_not_list arguments settings document hlist]
    cases exported arguments settings document.view <;> rfl
  · intro fixed hfixed hwidget
    obtain ⟨id, hid⟩ := Option.ne_none_iff_exists'.mp hwidget
    simp only [exported, adopted, hfixed, hid]
  · intro fixed table hfixed hwidget
    have hfind := @View.findTable?_messageTables view fixed table
    simp only [findTable?] at hfind
    simp only [adopted, hfixed, hwidget, Except.ok.injEq, hfind]
  · intro id table hfixed hwidget
    have hfind := @View.findTable?_messageTables view id table
    simp only [findTable?] at hfind
    simp only [adopted, hfixed, hwidget, ← hfind]
    cases view.messageTables.find? fun table => decide (table.id = id) <;> simp
  · intro id hfixed hwidget hnone
    have hfind : view.messageTables.find? (fun table => decide (table.id = id)) = none := by
      simpa using hnone
    simp only [exported, adopted, hfixed, hwidget, hfind]
  · intro hfixed hwidget
    simp only [adopted, hfixed, hwidget]
  · intro table hadopted hsettled
    simp only [exported, hadopted, if_neg hsettled]

theorem exists_eq_ok_of_isOk {ε α : Type} {result : Except ε α} (h : result.isOk = true) :
    ∃ value, result = .ok value := by
  cases result with
  | error fault => cases h
  | ok value => exact ⟨value, rfl⟩

/-- A search with one query, and a table of two fields, sorted by `time` from the smallest up,
with every record written as an array. -/
def sortedSearchText : String :=
  "[[\"v\",\"SEARCH\",[\"s\",[[\"q\",[\"relative\",5]]]]," ++
    "[[null,[[\"w\",\"messages\",[[\"message\",\"source\"],[[\"time\",\"Ascending\"]]]]]]]]]"

/-- The search in a file, and a home directory for the log, which tells what is said of each
event. -/
def sortedSearchInput : Surroundings where
  environment := { bindings := [("HOME", "/home")] }
  files :=
    { root := .directory [(Text.encode "v.json", .file (Text.encode sortedSearchText))]
      workingDirectory := [] }
  journal := { line := fun _ event => Text.encode event.message }

/-- The table of the search is adopted with its fields; of its sort order the direction
stays. -/
theorem call_of_not_list_sortedSearch :
    let args := ["v.json", "-s", "source"]
    let arguments : Arguments := { view := .ofString "v.json", sort := ["source"] }
    ∃ settings files document,
      Arguments.ofList args = .ok arguments ∧ arguments.list = false ∧
      Settings.resolve sortedSearchInput.environment sortedSearchInput.files none none =
        .ok settings ∧
      startRun arguments settings sortedSearchInput = (files, .started) ∧
      loadDocument arguments files sortedSearchInput.input = .ok document ∧
      call args sortedSearchInput =
        (match exported arguments settings document.view with
        | .error fault =>
            failedRun (finishRun arguments settings sortedSearchInput files) (.exporting fault)
        | .ok started =>
            { exitCode := 0
              output := requestsText settings.pretty [started.request]
              files := finishRun arguments settings sortedSearchInput files }) ∧
      (call args sortedSearchInput).output =
        "[\x7b\"kind\":\"all_messages\",\"payload\":\x7b" ++
          "\"fields_in_order\":[\"message\",\"source\"]," ++
          "\"sort\":[\x7b\"field\":\"source\",\"direction\":\"Ascending\"\x7d]," ++
          "\"timerange\":\x7b\"type\":\"relative\",\"range\":5\x7d," ++
          "\"query_string\":\x7b\"type\":\"elasticsearch\",\"query_string\":\"\"\x7d," ++
          "\"streams\":[]\x7d\x7d]\n" := by
  intro args arguments
  have hargs : Arguments.ofList args = .ok arguments := rfl
  obtain ⟨settings, hsettings, hstarted, hloads⟩ : ∃ settings,
      Settings.resolve sortedSearchInput.environment sortedSearchInput.files none none =
        .ok settings ∧
      (startRun arguments settings sortedSearchInput).2 = .started ∧
      (loadDocument arguments (startRun arguments settings sortedSearchInput).1 []).isOk = true :=
    ⟨_, rfl, by decide +kernel, by decide +kernel⟩
  obtain ⟨files, hlog⟩ : ∃ files,
      startRun arguments settings sortedSearchInput = (files, .started) :=
    ⟨_, Prod.ext rfl hstarted⟩
  rw [hlog] at hloads
  obtain ⟨document, hdocument⟩ := exists_eq_ok_of_isOk hloads
  exact ⟨settings, files, document, hargs, rfl, hsettings, hlog, hdocument,
    (call_of_not_list args sortedSearchInput arguments settings files document hargs rfl
      hsettings hlog hdocument).1, by decide +kernel⟩

end MessageExport.CommandLine
