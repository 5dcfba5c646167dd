import MessageExport.Proofs.Dialog.Invariant
import MessageExport.Proofs.IdMap
/-!
# MessageExport.Proofs.Dialog.Labels

Under which **label** a message table is offered.

The titles of all states are merged first, and only then it is asked whether a table has a
title. So the last state that mentions a table decides alone: an empty title there hides
every earlier one, and the table goes by the label of untitled tables, while a state that
does not mention the table has no say. A title is a label only for a table; it makes no
option.
-/

namespace MessageExport

namespace View

variable (view : View)

/-- The last state that mentions an id among its titles gives it a title. -/
def TitledLast (id : WidgetId) (title : String) : Prop :=
  ∃ before state after, view.states = before ++ state :: after ∧
    state.titles.widget.find? id = some title ∧
    ∀ later ∈ after, later.titles.widget.find? id = none

theorem find?_titles_eq_some_iff (id : WidgetId) (title : String) :
    view.titles.find? id = some title ↔ view.TitledLast id title :=
  IdMap.find?_merge_eq_some_iff (fun state : ViewState => state.titles.widget) view.states id title

theorem find?_titles_eq_none_iff (id : WidgetId) :
    view.titles.find? id = none ↔ ∀ state ∈ view.states, state.titles.widget.find? id = none :=
  IdMap.find?_merge_eq_none_iff (fun state : ViewState => state.titles.widget) view.states id

/-- Either some state is the last to mention an id, or none mentions it. -/
theorem titledLast_or_untitled (id : WidgetId) :
    (∃ title, view.TitledLast id title) ∨
      ∀ state ∈ view.states, state.titles.widget.find? id = none := by
  cases hfind : view.titles.find? id with
  | none => exact .inr ((view.find?_titles_eq_none_iff id).mp hfind)
  | some title => exact .inl ⟨title, (view.find?_titles_eq_some_iff id title).mp hfind⟩

/-- What the states say of an id, the last one first. -/
theorem find?_titles (id : WidgetId) :
    view.titles.find? id =
      view.states.reverse.findSome? fun state => state.titles.widget.find? id := by
  unfold titles
  rw [IdMap.find?_merge (fun state : ViewState => state.titles.widget), IdMap.find?_empty,
    Option.or_none]

end View

/-! ### The label of one table -/

/-- The label for what is found under the id of a table. -/
def labelOf : Option String → String
  | none => untitledLabel
  | some title => if title = "" then untitledLabel else title

theorem Widget.label_option (titles : IdMap .widget String) (table : Widget) :
    (table.option titles).label = labelOf (titles.find? table.id) := by
  unfold option labelOf
  cases titles.find? table.id <;> rfl

theorem labelOf_ne_empty (title : Option String) : labelOf title ≠ "" := by
  unfold labelOf
  split
  · decide
  · split
    · decide
    · assumption

/-- The option of a table depends on the titles through what they have for its id. -/
theorem Widget.option_congr {titles titles' : IdMap .widget String} {table : Widget}
    (h : titles'.find? table.id = titles.find? table.id) :
    table.option titles' = table.option titles := by
  unfold option
  rw [h]

namespace Dialog

/-- In every state the options are those of the message tables, under the titles of the
view. -/
theorem OpenedOn.options_eq {dialog : Dialog} {view : View} {fixed : Option WidgetId}
    (h : dialog.OpenedOn view fixed) :
    dialog.options = view.messageTables.map (Widget.option view.titles) := by
  rw [options, h.tables_eq, h.titles_eq]

/-- **The labels of the picker.** Whatever was done in a dialog, it offers each message
table of the view under the title from the last state that mentions the table, unless that
title is empty or no state mentions the table: then it is offered as untitled. So a later
empty title hides an earlier one, and a state that does not mention a table might as well
not be there. A title of anything else leaves the options as they are, no label is empty,
and the order in which the dictionaries of the states yield their entries does not
matter. -/
theorem opened_option_labels (view : View) (fixed : Option WidgetId)
    (defaultFields : List String) (steps : List Step) :
    let optionsOn (view : View) := ((ofView view fixed defaultFields).after steps).options
    let labelOn (view : View) (table : Widget) := (table.option view.titles).label
    optionsOn view = view.messageTables.map (fun table => ⟨table.id, labelOn view table⟩) ∧
      (∀ table ∈ view.messageTables,
        ((∃ title, view.TitledLast table.id title) ∨
          ∀ state ∈ view.states, state.titles.widget.find? table.id = none) ∧
        (∀ title, view.TitledLast table.id title →
          labelOn view table = if title = "" then untitledLabel else title) ∧
        ((∀ state ∈ view.states, state.titles.widget.find? table.id = none) →
          labelOn view table = untitledLabel) ∧
        (∀ state : ViewState, state.titles.widget.find? table.id = some "" →
          labelOn { view with states := view.states ++ [state] } table = untitledLabel) ∧
        (∀ before state after, view.states = before ++ state :: after →
          state.titles.widget.find? table.id = none →
            labelOn { view with states := before ++ after } table = labelOn view table)) ∧
      (∀ (before after : List ViewState) (state : ViewState) (id : WidgetId) (title : String),
        view.states = before ++ state :: after → (∀ table ∈ view.messageTables, table.id ≠ id) →
          optionsOn { view with states :=
            before ++ { state with titles := ⟨state.titles.widget.insert id title⟩ } :: after } =
            optionsOn view) ∧
      (∀ option ∈ optionsOn view, option.label ≠ "") ∧
      ∀ listings : List (List (WidgetId × String)),
        List.Forall₂ (fun listing state => listing.Perm state.titles.widget.entries) listings
            view.states →
          IdMap.ofList listings.flatten = view.titles := by
  intro optionsOn labelOn
  have hoptions (view : View) :
      optionsOn view = view.messageTables.map (Widget.option view.titles) :=
    (openedOn_after view fixed defaultFields steps).options_eq
  refine ⟨hoptions view, ?_, ?_, ?_, ?_⟩
  · intro table _
    have hlabel (view : View) : labelOn view table = labelOf (view.titles.find? table.id) :=
      Widget.label_option view.titles table
    refine ⟨view.titledLast_or_untitled table.id, ?_, ?_, ?_, ?_⟩
    · intro title htitle
      rw [hlabel, (view.find?_titles_eq_some_iff table.id title).mpr htitle]
      rfl
    · intro hnone
      rw [hlabel, (view.find?_titles_eq_none_iff table.id).mpr hnone]
      rfl
    · intro state hstate
      rw [hlabel, (View.find?_titles_eq_some_iff _ table.id "").mpr
        ⟨view.states, state, [], rfl, hstate, List.forall_mem_nil _⟩]
      rfl
    · intro before state after hstates hnone
      rw [hlabel, hlabel, View.find?_titles, View.find?_titles, hstates]
      simp only [List.reverse_append, List.reverse_cons, List.append_assoc,
        List.findSome?_append, List.findSome?_singleton, hnone, Option.none_or]
  · intro before after state id title hstates hid
    -- the tables are the same, and under their ids so are the titles
    have htables : ({ view with states :=
        before ++ { state with titles := ⟨state.titles.widget.insert id title⟩ } :: after }
        : View).messageTables = view.messageTables := by
      simp [View.messageTables, View.tableWidgets, hstates]
    rw [hoptions, hoptions, htables]
    refine List.map_congr_left fun table htable => Widget.option_congr ?_
    rw [View.find?_titles, View.find?_titles, hstates]
    simp only [List.reverse_append, List.reverse_cons, List.append_assoc,
      List.findSome?_append, List.findSome?_singleton, IdMap.find?_insert,
      if_neg (Ne.symm (hid table htable))]
  · intro option hoption
    rw [hoptions] at hoption
    obtain ⟨table, -, rfl⟩ := List.mem_map.mp hoption
    rw [Widget.label_option]
    exact labelOf_ne_empty _
  · intro listings hlistings
    exact IdMap.insertAll_flatten (fun state : ViewState => state.titles.widget) hlistings
      IdMap.empty

end Dialog

end MessageExport
