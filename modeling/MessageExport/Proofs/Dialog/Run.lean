import MessageExport.Export.Dialog
/-!
# MessageExport.Proofs.Dialog.Run

What one **step** can do to a dialog, and how the steps of a **run** add up.

Everything proved about dialogs rests on `step_cases`: a step is either refused,
and then the dialog is the one before, or it is accepted in one of the six ways of
`Accepts`. Later proofs take a step apart by these cases and never unfold `step`.

A run is a list of steps, and its lemmas split it in two, at the front or at the end.
`after_induction` is the invariant rule: a property of dialogs that every accepted step keeps is
kept by every run.
-/

namespace MessageExport.Dialog

/-! ### Replies

The record of a run is what its replies hand out, in their order. -/

/-- The step was refused. -/
def Reply.isRefused (reply : Reply) : Bool :=
  match reply.result with
  | .ok _ => false
  | .error _ => true

/-- The request that the step handed out. -/
def Reply.request? (reply : Reply) : Option Request :=
  reply.result.toOption.join

theorem requestsOf_eq_filterMap (replies : List Reply) :
    requestsOf replies = replies.filterMap Reply.request? := rfl

@[simp] theorem requestsOf_nil : requestsOf [] = [] := rfl

/-- The record of a run is that of its first reply and that of the others. -/
theorem requestsOf_cons (reply : Reply) (replies : List Reply) :
    requestsOf (reply :: replies) = reply.request?.toList ++ requestsOf replies := by
  rw [requestsOf_eq_filterMap, requestsOf_eq_filterMap, List.filterMap_cons]
  cases reply.request? <;> rfl

/-- The record of one run and another is both, one after the other. -/
theorem requestsOf_append (replies more : List Reply) :
    requestsOf (replies ++ more) = requestsOf replies ++ requestsOf more := by
  simp only [requestsOf_eq_filterMap, List.filterMap_append]

/-- The dialog with a table selected and its settings adopted. -/
def adopt (dialog : Dialog) (table : Widget) : Dialog :=
  { dialog with
    selected := some table
    fields := selectNames table.settings.fields
    sort := table.settings.sort }

/-- The ways in which a dialog accepts a step, each with the dialog that it leads to. -/
inductive Accepts (dialog : Dialog) : Step → Dialog → Prop where
  | selectTable {id : WidgetId} {table : Widget} (hfixed : dialog.fixed = none)
      (hfind : findTable? dialog.tables id = some table) :
      Accepts dialog (.selectTable id) (dialog.adopt table)
  | resetSelection (hallowed : dialog.allowsReselection = true) :
      Accepts dialog .resetSelection { dialog with selected := none }
  | selectFields (names : List String) :
      Accepts dialog (.selectFields names) (dialog.selectFields names)
  | setSort (entries : List SortEntry) :
      Accepts dialog (.setSort entries) (dialog.setSort entries)
  | setSortDirection (direction : Direction) :
      Accepts dialog (.setSortDirection direction) (dialog.setSortDirection direction)
  | download {view : View} {started : Started}
      (hstarted : dialog.download view = .ok started) :
      Accepts dialog (.download view) dialog

/-- A step is refused and changes nothing, or it is accepted. -/
theorem step_cases (dialog : Dialog) (step : Step) :
    ((dialog.step step).isRefused = true ∧ (dialog.step step).dialog = dialog) ∨
      ((dialog.step step).isRefused = false ∧
        dialog.Accepts step (dialog.step step).dialog) := by
  cases step with
  | selectTable id =>
      -- refused in a dialog for one widget, and for an id that is no table's
      cases hfixed : dialog.fixed with
      | some fixed =>
          left
          simp [Dialog.step, Dialog.selectTable, hfixed, replyOf, Reply.isRefused]
      | none =>
          cases hfind : findTable? dialog.tables id with
          | none =>
              left
              simp [Dialog.step, Dialog.selectTable, hfixed, hfind, replyOf, Reply.isRefused]
          | some table =>
              right
              have hstep : dialog.selectTable id = .ok (dialog.adopt table) := by
                simp only [Dialog.selectTable, hfixed, hfind, adopt]
              rw [Dialog.step, hstep]
              exact ⟨rfl, .selectTable hfixed hfind⟩
  | resetSelection =>
      by_cases hallowed : dialog.allowsReselection = true
      · right
        have hstep : dialog.resetSelection = .ok { dialog with selected := none } := by
          rw [Dialog.resetSelection, if_pos hallowed]
        rw [Dialog.step, hstep]
        exact ⟨rfl, .resetSelection hallowed⟩
      · left
        rw [Dialog.step, Dialog.resetSelection, if_neg hallowed]
        exact ⟨rfl, rfl⟩
  | selectFields names => exact .inr ⟨rfl, .selectFields names⟩
  | setSort entries => exact .inr ⟨rfl, .setSort entries⟩
  | setSortDirection direction => exact .inr ⟨rfl, .setSortDirection direction⟩
  | download view =>
      cases hstarted : dialog.download view with
      | error fault =>
          left
          simp only [Dialog.step, hstarted, Reply.isRefused, and_self]
      | ok started =>
          right
          simp only [Dialog.step, hstarted, Reply.isRefused]
          exact ⟨trivial, .download hstarted⟩

/-- What an accepted step did. -/
theorem accepts_of_not_isRefused {dialog : Dialog} {step : Step}
    (h : (dialog.step step).isRefused = false) :
    dialog.Accepts step (dialog.step step).dialog := by
  rcases dialog.step_cases step with ⟨hrefused, -⟩ | ⟨-, haccepts⟩
  · rw [hrefused] at h
    cases h
  · exact haccepts

/-- A download leaves the dialog as it is, whether it is refused or not. -/
@[simp] theorem step_download_dialog (dialog : Dialog) (view : View) :
    (dialog.step (.download view)).dialog = dialog := by
  simp only [Dialog.step]
  cases dialog.download view <;> rfl

/-- The outcome of a download, as its step reports it. -/
theorem step_download_result (dialog : Dialog) (view : View) :
    (dialog.step (.download view)).result =
      (dialog.download view).map fun started => some started.request := by
  simp only [Dialog.step]
  cases dialog.download view <;> rfl

/-- Only a download hands out a request. -/
theorem request?_step_eq_some {dialog : Dialog} {step : Step} {request : Request} :
    (dialog.step step).request? = some request ↔
      ∃ view started, step = .download view ∧ dialog.download view = .ok started ∧
        started.request = request := by
  constructor
  · intro h
    cases step with
    | download view =>
        rw [Reply.request?, step_download_result] at h
        cases hstarted : dialog.download view with
        | error fault => rw [hstarted] at h; cases h
        | ok started =>
            rw [hstarted] at h
            exact ⟨view, started, rfl, hstarted, Option.some.inj h⟩
    | selectTable id =>
        simp only [Dialog.step, Reply.request?] at h
        cases hresult : dialog.selectTable id <;> rw [hresult] at h <;> cases h
    | resetSelection =>
        simp only [Dialog.step, Reply.request?] at h
        cases hresult : dialog.resetSelection <;> rw [hresult] at h <;> cases h
    | selectFields names => cases h
    | setSort entries => cases h
    | setSortDirection direction => cases h
  · rintro ⟨view, started, rfl, hstarted, rfl⟩
    rw [Reply.request?, step_download_result, hstarted]
    rfl

/-- A download that is not refused hands out one request. -/
theorem request?_of_download {dialog : Dialog} {view : View}
    (h : (dialog.step (.download view)).isRefused = false) :
    ∃ started, dialog.download view = .ok started ∧
      (dialog.step (.download view)).request? = some started.request := by
  have haccepts := accepts_of_not_isRefused h
  rw [step_download_dialog] at haccepts
  cases haccepts with
  | download hstarted =>
      exact ⟨_, hstarted, request?_step_eq_some.mpr ⟨view, _, rfl, hstarted, rfl⟩⟩

/-! ### Runs

How a run goes on does not depend on how it got there, only on the dialog that it got to. -/

@[simp] theorem after_nil (dialog : Dialog) : dialog.after [] = dialog := rfl

@[simp] theorem after_cons (dialog : Dialog) (step : Step) (steps : List Step) :
    dialog.after (step :: steps) = (dialog.step step).dialog.after steps := rfl

/-- One run after another goes on from the dialog in which the first one ended. -/
theorem after_append (dialog : Dialog) (steps more : List Step) :
    dialog.after (steps ++ more) = (dialog.after steps).after more :=
  List.foldl_append

theorem after_concat (dialog : Dialog) (steps : List Step) (step : Step) :
    dialog.after (steps ++ [step]) = ((dialog.after steps).step step).dialog := by
  rw [after_append, after_cons, after_nil]

@[simp] theorem run_nil (dialog : Dialog) : dialog.run [] = [] := rfl

@[simp] theorem run_cons (dialog : Dialog) (step : Step) (steps : List Step) :
    dialog.run (step :: steps) =
      dialog.step step :: (dialog.step step).dialog.run steps := rfl

@[simp] theorem length_run (dialog : Dialog) (steps : List Step) :
    (dialog.run steps).length = steps.length := by
  induction steps generalizing dialog with
  | nil => rfl
  | cons step steps ih => rw [run_cons, List.length_cons, List.length_cons, ih]

/-- The replies of one run and another are both, one after the other. -/
theorem run_append (dialog : Dialog) (steps more : List Step) :
    dialog.run (steps ++ more) = dialog.run steps ++ (dialog.after steps).run more := by
  induction steps generalizing dialog with
  | nil => rfl
  | cons step steps ih => rw [List.cons_append, run_cons, run_cons, ih, after_cons,
      List.cons_append]

theorem run_concat (dialog : Dialog) (steps : List Step) (step : Step) :
    dialog.run (steps ++ [step]) = dialog.run steps ++ [(dialog.after steps).step step] := by
  rw [run_append, run_cons, run_nil]

/-- One step more adds what it hands out to the record. -/
theorem requestsOf_run_concat (dialog : Dialog) (steps : List Step) (step : Step) :
    requestsOf (dialog.run (steps ++ [step])) =
      requestsOf (dialog.run steps) ++ ((dialog.after steps).step step).request?.toList := by
  rw [run_concat, requestsOf_append, requestsOf_cons, requestsOf_nil, List.append_nil]

/-- What every accepted step keeps, every run keeps. -/
theorem after_induction {motive : Dialog → Prop} {dialog : Dialog} (hstart : motive dialog)
    (hstep : ∀ before step next, motive before → before.Accepts step next → motive next)
    (steps : List Step) : motive (dialog.after steps) := by
  induction steps generalizing dialog with
  | nil => exact hstart
  | cons step steps ih =>
      rw [after_cons]
      refine ih ?_
      rcases dialog.step_cases step with ⟨-, hsame⟩ | ⟨-, haccepts⟩
      · rw [hsame]
        exact hstart
      · exact hstep dialog step _ hstart haccepts

/-- A request on record was handed out by a download in a state that the run passed. -/
theorem mem_requestsOf_run {dialog : Dialog} {steps : List Step} {request : Request} :
    request ∈ requestsOf (dialog.run steps) ↔
      ∃ before view rest started, steps = before ++ .download view :: rest ∧
        (dialog.after before).download view = .ok started ∧ started.request = request := by
  induction steps generalizing dialog with
  | nil => simp
  | cons step steps ih =>
      rw [run_cons, requestsOf_cons, List.mem_append, Option.mem_toList,
        request?_step_eq_some, ih]
      -- the request is the first step's own, or one of the rest of the run
      constructor
      · rintro (⟨view, started, rfl, hstarted, hrequest⟩ |
          ⟨before, view, rest, started, rfl, hstarted, hrequest⟩)
        · exact ⟨[], view, steps, started, rfl, hstarted, hrequest⟩
        · exact ⟨step :: before, view, rest, started, rfl, hstarted, hrequest⟩
      · rintro ⟨before, view, rest, started, hsteps, hstarted, hrequest⟩
        cases before with
        | nil =>
            obtain ⟨rfl, -⟩ := List.cons.inj hsteps
            exact .inl ⟨view, started, rfl, hstarted, hrequest⟩
        | cons first before =>
            obtain ⟨rfl, rfl⟩ := List.cons.inj hsteps
            exact .inr ⟨before, view, rest, started, rfl, hstarted, hrequest⟩

end MessageExport.Dialog
