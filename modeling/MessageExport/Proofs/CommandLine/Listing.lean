import Mathlib.Data.List.Count
import MessageExport.Proofs.CommandLine.Log
import MessageExport.Proofs.CommandLine.Run
import MessageExport.Proofs.Settings.Layers
/-!
# MessageExport.Proofs.CommandLine.Listing

The **listing in closed form**.

A run that lists opens a dialog and takes no step in it. What it prints can be said
without the dialog: an entry for each message table, of which the selected one is marked
(`Marked`), a hint if one is still to be chosen (`NeedsChoice`), and the fields. The tables
of a view have distinct ids, so no two of them are marked. Of the arguments only the
document, the fixed widget and the settings file have a say, and of the document not its
queries. What is logged does depend on the other arguments, so all of this is said of a
document that is not the log file.
-/

namespace MessageExport.CommandLine

variable (view : View) (fixed : Option WidgetId)

/-! ### Marks and the hint

`Marked` and `NeedsChoice` speak of the view and the fixed widget alone, without a dialog. That
at most one table can be marked is due to the ids being distinct. -/

/-- The table is marked: it is the one that the run is fixed to, or the only table of a
search. -/
def Marked (table : Widget) : Prop :=
  fixed = some table.id ∨
    (fixed = none ∧ view.kind = .search ∧ view.messageTables = [table])

instance (table : Widget) : Decidable (Marked view fixed table) :=
  inferInstanceAs (Decidable (_ ∨ _))

/-- Some table is marked: there is one with the fixed id, or a search has a single one. -/
def HasMarked : Prop :=
  (∃ table ∈ view.messageTables, fixed = some table.id) ∨
    (fixed = none ∧ view.kind = .search ∧ view.messageTables.length = 1)

/-- A table is still to be chosen. -/
def NeedsChoice : Prop :=
  fixed = none ∧ (view.kind = .dashboard ∨ 2 ≤ view.messageTables.length)

instance : Decidable (NeedsChoice view fixed) :=
  inferInstanceAs (Decidable (_ ∧ _))

/-- The entry of a table in a listing. -/
def tableEntry (table : Widget) : String :=
  "  " ++ table.id.raw ++ "  " ++ (table.option view.titles).label ++
    (if Marked view fixed table then "  [SELECTED]" else "")

/-- What a run that lists prints for a document. -/
def listingText (document : Document) (credentialsInUrl : Bool) : String :=
  linesText (
    [document.view.kind.title, Dialog.infoText credentialsInUrl, "", "Message tables:"] ++
      document.view.messageTables.map (tableEntry document.view fixed) ++
      (if NeedsChoice document.view fixed then ["  (select one with --widget)"] else []) ++
      ["", "Fields:"] ++
      document.fields.map fun field => "  " ++ field.name ++ " (" ++ field.type ++ ")")

variable {view fixed}

/-- Tables are marked by their ids, which are distinct. -/
theorem Marked.eq {table other : Widget} (htable : table ∈ view.messageTables)
    (hother : other ∈ view.messageTables) (h : Marked view fixed table)
    (h' : Marked view fixed other) : table = other := by
  rcases h with h | ⟨hnone, -, hsole⟩
  · rcases h' with h' | ⟨hnone, -, -⟩
    · have hid : table.id = other.id := Option.some.inj (h.symm.trans h')
      exact List.inj_on_of_nodup_map view.nodup_messageTables htable hother hid
    · rw [hnone] at h
      cases h
  · rw [hsole, List.mem_singleton] at hother
    exact hother.symm

/-- Some table is marked exactly if the view has one to be marked. -/
theorem exists_marked_iff :
    (∃ table ∈ view.messageTables, Marked view fixed table) ↔ HasMarked view fixed := by
  unfold Marked HasMarked
  constructor
  · rintro ⟨table, htable, h | ⟨hnone, hsearch, hsole⟩⟩
    · exact .inl ⟨table, htable, h⟩
    · exact .inr ⟨hnone, hsearch, by rw [hsole]; rfl⟩
  · rintro (⟨table, htable, h⟩ | ⟨hnone, hsearch, hlength⟩)
    · exact ⟨table, htable, .inl h⟩
    · obtain ⟨table, hsole⟩ := List.length_eq_one_iff.mp hlength
      exact ⟨table, by simp [hsole], .inr ⟨hnone, hsearch, hsole⟩⟩

/-- Where one table is marked it is the only one. -/
theorem countP_marked_eq_one_iff :
    view.messageTables.countP (fun table => Marked view fixed table) = 1 ↔
      HasMarked view fixed := by
  rw [← exists_marked_iff]
  constructor
  · intro hcount
    have hpos : 0 < view.messageTables.countP fun table => Marked view fixed table := by omega
    simpa using List.countP_pos_iff.mp hpos
  · rintro ⟨table, htable, hmarked⟩
    have hiff : ∀ other ∈ view.messageTables,
        decide (Marked view fixed other) = true ↔ (other == table) = true := by
      intro other hother
      rw [decide_eq_true_eq, beq_iff_eq]
      exact ⟨fun h => h.eq hother htable hmarked, fun h => h ▸ hmarked⟩
    rw [List.countP_congr hiff]
    exact List.count_eq_one_of_mem (List.Nodup.of_map _ view.nodup_messageTables) htable

/-- Where a table is still to be chosen, none is marked. -/
theorem NeedsChoice.not_marked (h : NeedsChoice view fixed) (table : Widget) :
    ¬ Marked view fixed table := by
  obtain ⟨hnone, hchoice⟩ := h
  rintro (hfixed | ⟨-, hsearch, hsole⟩)
  · rw [hnone] at hfixed
    cases hfixed
  · rw [hsearch, hsole] at hchoice
    rcases hchoice with hkind | hlength
    · cases hkind
    · exact absurd hlength (by simp)

/-! ### The dialog of a listing

The listing is printed from a dialog, which was opened and not touched. What it has selected and
whether it asks for a table is known from the lemmas about opened dialogs, and the lines follow.
-/

/-- The table that an opened dialog has selected is the marked one. -/
theorem selected_id_eq_iff {defaultFields : List String} {table : Widget}
    (htable : table ∈ view.messageTables) :
    (Dialog.ofView view fixed defaultFields).selected.map Widget.id = some table.id ↔
      Marked view fixed table := by
  have hopened := Dialog.openedOn_ofView view fixed defaultFields
  rw [Option.map_eq_some_iff]
  constructor
  · rintro ⟨selected, hselected, hid⟩
    have hmem := hopened.selected_mem selected hselected
    obtain rfl := List.inj_on_of_nodup_map view.nodup_messageTables hmem htable hid
    cases hfixed : fixed with
    | some id =>
        obtain ⟨-, hselectedId⟩ := (hopened.selected_fixed id hfixed selected).mp hselected
        exact .inl (congrArg some hselectedId.symm)
    | none =>
        -- without a fixed widget only the sole table of a search is selected
        subst hfixed
        have hsole : soleTable view = some selected := (initialTable_none view).symm.trans hselected
        unfold soleTable at hsole
        split at hsole
        · rename_i only hkind htables
          exact .inr ⟨rfl, hkind, by rw [htables, Option.some.inj hsole]⟩
        · cases hsole
  · rintro (hfixed | ⟨hnone, hsearch, hsole⟩)
    · exact ⟨table, (hopened.selected_fixed table.id hfixed table).mpr ⟨htable, rfl⟩, rfl⟩
    · exact ⟨table, hopened.selected_sole hnone hsearch table hsole, rfl⟩

/-- A dialog asks for a table exactly if one is still to be chosen. -/
theorem showsPicker_ofView_iff {defaultFields : List String} :
    (Dialog.ofView view fixed defaultFields).showsPicker = true ↔ NeedsChoice view fixed := by
  rw [Dialog.showsPicker_iff]
  constructor
  · rintro ⟨hfixed, -, hchoice⟩
    exact ⟨hfixed, hchoice⟩
  · intro h
    refine ⟨h.1, Option.eq_none_iff_forall_ne_some.mpr fun table hselected => ?_, h.2⟩
    have hmem := (Dialog.openedOn_ofView view fixed defaultFields).selected_mem table hselected
    exact h.not_marked table
      ((selected_id_eq_iff hmem).mp (congrArg (Option.map Widget.id) hselected))

/-- The line of an option is the entry of its table. -/
theorem optionLine_ofView {defaultFields : List String} {table : Widget}
    (htable : table ∈ view.messageTables) :
    optionLine ((Dialog.ofView view fixed defaultFields).selected.map Widget.id)
        (table.option view.titles) = tableEntry view fixed table := by
  have hiff : (Dialog.ofView view fixed defaultFields).selected.map Widget.id =
      some (table.option view.titles).widget ↔ Marked view fixed table := selected_id_eq_iff htable
  unfold optionLine tableEntry
  by_cases hmarked : Marked view fixed table
  · rw [if_pos hmarked, if_pos (hiff.mpr hmarked)]
    rfl
  · rw [if_neg hmarked, if_neg (mt hiff.mp hmarked)]
    rfl

/-- The lines of a listing are its text. -/
theorem linesText_listing (document : Document) (defaultFields : List String)
    (credentialsInUrl : Bool) :
    linesText (listing (Dialog.ofView document.view fixed defaultFields) document
      credentialsInUrl) = listingText fixed document credentialsInUrl := by
  have hentries : (Dialog.ofView document.view fixed defaultFields).options.map
      (optionLine ((Dialog.ofView document.view fixed defaultFields).selected.map Widget.id)) =
        document.view.messageTables.map (tableEntry document.view fixed) := by
    show (document.view.messageTables.map _).map _ = _
    rw [List.map_map]
    exact List.map_congr_left fun table htable => optionLine_ofView htable
  have hpicker : (Dialog.ofView document.view fixed defaultFields).showsPicker = true ↔
      NeedsChoice document.view fixed := showsPicker_ofView_iff
  unfold listingText listing tableLines
  rw [hentries, ← List.append_assoc]
  by_cases hchoice : NeedsChoice document.view fixed
  · rw [if_pos hchoice, if_pos (hpicker.mpr hchoice)]
    rfl
  · rw [if_neg hchoice, if_neg (mt hpicker.mp hchoice)]
    rfl

/-! ### The run -/

/-- The queries of a view have no part in its listing. -/
theorem listingText_withQueries (document : Document) (queries : List Query)
    (credentialsInUrl : Bool) :
    listingText fixed { document with
        view := { document.view with search := { document.view.search with queries } } }
      credentialsInUrl = listingText fixed document credentialsInUrl := rfl

/-- What the command line says of the layout of requests has a say in nothing else. -/
theorem resolve_pretty {env : Environment} {files : FileSystem} {config : Option Path}
    {pretty : Option Bool} {settings : Settings}
    (h : Settings.resolve env files config pretty = .ok settings) (pretty' : Option Bool) :
    ∃ settings', Settings.resolve env files config pretty' = .ok settings' ∧
      settings'.logFile = settings.logFile ∧
      settings'.credentialsInUrl = settings.credentialsInUrl := by
  rw [Settings.resolve_eq] at h ⊢
  cases hfile : Settings.file env files config with
  | error fault =>
      rw [hfile] at h
      cases h
  | ok file =>
      rw [hfile] at h
      cases h
      exact ⟨_, rfl, rfl, rfl⟩

/-- A run that lists prints the listing, once it has settings, logs and has a document that is
not its log file. -/
theorem call_of_list_of_loaded {args : List String} {around : Surroundings}
    {arguments : Arguments} {settings : Settings} {files : FileSystem} {document : Document}
    (hargs : Arguments.ofList args = .ok arguments) (hlist : arguments.list = true)
    (hsettings : Settings.resolve around.environment around.files arguments.config
      (if arguments.pretty then some true else none) = .ok settings)
    (hlog : startRun arguments settings around = (files, .started))
    (hapart : ApartFromLog arguments settings files)
    (hdocument : loadDocument arguments around.files around.input = .ok document) :
    call args around =
      { exitCode := 0
        output := listingText arguments.fixedWidget document settings.credentialsInUrl
        files := finishRun arguments settings around files } := by
  have hread := loadDocument_of_apart hlog hapart hdocument
  simp only [call, hargs, run, hsettings, hlog, respond, hread, report, hlist, if_true,
    linesText_listing, Except.mapError, bind, Except.bind]

/-- **The listing agrees with the dialog.** A call that lists, and whose settings, log file
and document are there, ends well and prints an entry for each message table, in order and
with its id and label, and then the fields of the document, if the document is not the log
file. One entry is marked exactly if the fixed id is that of a message table, or the view is a
search with a single one and no id is fixed, and then it is the entry of that table; otherwise
none is. The hint that a table has to be chosen is printed if no id is fixed and the view is a
dashboard or has several tables, and never together with a mark. Output and exit code do not
depend on the other arguments, nor on the queries of the view. -/
theorem listing_marks_selected_table (args : List String) (around : Surroundings)
    (arguments : Arguments) (settings : Settings) (files : FileSystem) (document : Document)
    (hargs : Arguments.ofList args = .ok arguments) (hlist : arguments.list = true)
    (hsettings : Settings.resolve around.environment around.files arguments.config
      (if arguments.pretty then some true else none) = .ok settings)
    (hlog : startRun arguments settings around = (files, .started))
    (hapart : ApartFromLog arguments settings files)
    (hdocument : loadDocument arguments around.files around.input = .ok document) :
    let view := document.view
    let fixed := arguments.fixedWidget
    (call args around).exitCode = 0 ∧
      (call args around).output = listingText fixed document settings.credentialsInUrl ∧
      (view.messageTables.countP (fun table => Marked view fixed table) = 1 ↔
        HasMarked view fixed) ∧
      (¬ HasMarked view fixed → ∀ table ∈ view.messageTables, ¬ Marked view fixed table) ∧
      (NeedsChoice view fixed → ∀ table, ¬ Marked view fixed table) ∧
      (∀ (args' : List String) (arguments' : Arguments),
        Arguments.ofList args' = .ok arguments' → arguments'.list = true →
        arguments'.view = arguments.view → arguments'.fixedWidget = fixed →
        arguments'.config = arguments.config →
          (call args' around).exitCode = 0 ∧
            (call args' around).output = (call args around).output) ∧
      ∀ (args' : List String) (around' : Surroundings) (arguments' : Arguments)
        (settings' : Settings) (files' : FileSystem) (queries : List Query),
        Arguments.ofList args' = .ok arguments' → arguments'.list = true →
        Settings.resolve around'.environment around'.files arguments'.config
          (if arguments'.pretty then some true else none) = .ok settings' →
        startRun arguments' settings' around' = (files', .started) →
        ApartFromLog arguments' settings' files' →
        loadDocument arguments' around'.files around'.input =
          .ok { document with view := { view with search := { view.search with queries } } } →
        arguments'.fixedWidget = fixed →
        settings'.credentialsInUrl = settings.credentialsInUrl →
          (call args' around').exitCode = 0 ∧
            (call args' around').output = (call args around).output := by
  intro view fixed
  have hcall := call_of_list_of_loaded hargs hlist hsettings hlog hapart hdocument
  refine ⟨congrArg Outcome.exitCode hcall, congrArg Outcome.output hcall,
    countP_marked_eq_one_iff, ?_, fun h table => h.not_marked table, ?_, ?_⟩
  · intro hnone table htable hmarked
    exact hnone (exists_marked_iff.mp ⟨table, htable, hmarked⟩)
  · intro args' arguments' hargs' hlist' hview hfixed hconfig
    obtain ⟨settings', hsettings', hlogFile, hcredentials⟩ :=
      resolve_pretty hsettings (if arguments'.pretty then some true else none)
    obtain ⟨files', hlog', hapart'⟩ := hapart.congr hlog hview hlogFile
    have hdocument' : loadDocument arguments' around.files around.input = .ok document := by
      unfold loadDocument at hdocument ⊢
      rwa [hview]
    rw [call_of_list_of_loaded hargs' hlist' (hconfig ▸ hsettings') hlog' hapart' hdocument',
      hcall, hfixed, hcredentials]
    exact ⟨rfl, rfl⟩
  · intro args' around' arguments' settings' files' queries hargs' hlist' hsettings' hlog'
      hapart' hdocument' hfixed hcredentials
    rw [call_of_list_of_loaded hargs' hlist' hsettings' hlog' hapart' hdocument', hcall, hfixed,
      hcredentials]
    exact ⟨rfl, listingText_withQueries document queries settings.credentialsInUrl⟩

/-- The sole table of a search is marked, although another one is named that there is
not. -/
theorem listing_marks_selected_table_sortedSearch :
    let args := ["v.json", "--list", "-w", "x", "--pretty"]
    let arguments : Arguments :=
      { view := .ofString "v.json"
        widget := Identifier.ofString? .widget "x"
        list := true
        pretty := true }
    ∃ settings files document,
      Arguments.ofList args = .ok arguments ∧ arguments.list = true ∧
      Settings.resolve sortedSearchInput.environment sortedSearchInput.files none (some true) =
        .ok settings ∧
      startRun arguments settings sortedSearchInput = (files, .started) ∧
      ApartFromLog arguments settings files ∧
      loadDocument arguments sortedSearchInput.files sortedSearchInput.input = .ok document ∧
      (call args sortedSearchInput).output =
        listingText none document settings.credentialsInUrl ∧
      (call args sortedSearchInput).output =
        "Export all search results\nPlease click the download link below. Your browser may " ++
          "ask for your username and password to download the CSV file.\n\nMessage tables:\n" ++
          "  w  Message table without title  [SELECTED]\n\nFields:\n" := by
  intro args arguments
  have hargs : Arguments.ofList args = .ok arguments := rfl
  obtain ⟨settings, hsettings, hstarted, htarget, hplaces⟩ : ∃ settings,
      Settings.resolve sortedSearchInput.environment sortedSearchInput.files none (some true) =
        .ok settings ∧
      (startRun arguments settings sortedSearchInput).2 = .started ∧
      LogTarget.ofPath settings.logFile =
        .ok ⟨.ofString "/home/.local/state/searchexport", "searchexport.log"⟩ ∧
      (startRun arguments settings sortedSearchInput).1.locate
          (LogTarget.path ⟨.ofString "/home/.local/state/searchexport", "searchexport.log"⟩) ≠
        (startRun arguments settings sortedSearchInput).1.locate (.ofString "v.json") :=
    ⟨_, rfl, by decide +kernel, by decide +kernel, by decide +kernel⟩
  obtain ⟨files, hlog⟩ : ∃ files,
      startRun arguments settings sortedSearchInput = (files, .started) :=
    ⟨_, Prod.ext rfl hstarted⟩
  have hapart : ApartFromLog arguments settings files := by
    rw [hlog] at hplaces
    refine .inr fun target way hother hlocate hview => ?_
    rw [htarget] at hother
    cases hother
    exact hplaces (hlocate.trans hview.symm)
  have hloads : (loadDocument arguments sortedSearchInput.files []).isOk = true := by
    decide +kernel
  obtain ⟨document, hdocument⟩ := exists_eq_ok_of_isOk hloads
  exact ⟨settings, files, document, hargs, rfl, hsettings, hlog, hapart, hdocument,
    (listing_marks_selected_table args sortedSearchInput arguments settings files document hargs
      rfl hsettings hlog hapart hdocument).2.1, by decide +kernel⟩

/-- The search beside a settings file by which nothing can be logged. -/
def unloggedSearchInput : Surroundings :=
  { sortedSearchInput with
    files :=
      { root := .directory
          [(Text.encode "v.json", .file (Text.encode sortedSearchText)),
            (Text.encode "c.toml", .file (Text.encode "log_file_path = \"/\"\n"))]
        workingDirectory := [] } }

/-- The search, to which the log is written. -/
def selfLoggedSearchInput : Surroundings :=
  { sortedSearchInput with environment := { bindings := [(Settings.logVariable, "v.json")] } }

/-- Settings and a document do not suffice for a listing. The run has to log as well, and
settings can name a log file that is none; and a document that is the log file itself is none
any more once the run has begun to log. -/
theorem not_listing_of_settings_and_document :
    (¬ ∀ (args : List String) (around : Surroundings) (arguments : Arguments)
      (settings : Settings) (document : Document),
      Arguments.ofList args = .ok arguments → arguments.list = true →
      Settings.resolve around.environment around.files arguments.config
        (if arguments.pretty then some true else none) = .ok settings →
      loadDocument arguments around.files around.input = .ok document →
        (call args around).exitCode = 0) ∧
    ¬ ∀ (args : List String) (around : Surroundings) (arguments : Arguments)
      (settings : Settings) (files : FileSystem) (document : Document),
      Arguments.ofList args = .ok arguments → arguments.list = true →
      Settings.resolve around.environment around.files arguments.config
        (if arguments.pretty then some true else none) = .ok settings →
      startRun arguments settings around = (files, .started) →
      loadDocument arguments around.files around.input = .ok document →
        (call args around).exitCode = 0 := by
  constructor
  · intro h
    let args := ["v.json", "--list", "--config", "/c.toml"]
    let arguments : Arguments :=
      { view := .ofString "v.json", list := true, config := some (.ofString "/c.toml") }
    obtain ⟨settings, hsettings⟩ : ∃ settings,
        Settings.resolve unloggedSearchInput.environment unloggedSearchInput.files
          (some (.ofString "/c.toml")) none = .ok settings := ⟨_, rfl⟩
    have hloads : (loadDocument arguments unloggedSearchInput.files []).isOk = true := by
      decide +kernel
    obtain ⟨document, hdocument⟩ := exists_eq_ok_of_isOk hloads
    have hexit := h args unloggedSearchInput arguments settings document rfl rfl hsettings
      hdocument
    have hfails : (call args unloggedSearchInput).exitCode = 1 := by decide +kernel
    rw [hfails] at hexit
    cases hexit
  · intro h
    let args := ["v.json", "--list"]
    let arguments : Arguments := { view := .ofString "v.json", list := true }
    obtain ⟨settings, hsettings, hstarted⟩ : ∃ settings,
        Settings.resolve selfLoggedSearchInput.environment selfLoggedSearchInput.files none
          none = .ok settings ∧
        (startRun arguments settings selfLoggedSearchInput).2 = .started :=
      ⟨_, rfl, by decide +kernel⟩
    have hloads : (loadDocument arguments selfLoggedSearchInput.files []).isOk = true := by
      decide +kernel
    obtain ⟨document, hdocument⟩ := exists_eq_ok_of_isOk hloads
    have hexit := h args selfLoggedSearchInput arguments settings _ document rfl rfl hsettings
      (Prod.ext rfl hstarted) hdocument
    have hfails : (call args selfLoggedSearchInput).exitCode = 1 := by decide +kernel
    rw [hfails] at hexit
    cases hexit

end MessageExport.CommandLine
