import MessageExport.View.Basic
/-!
# MessageExport.Export.Table

The **message tables** of a view, their titles and their search types.

A view spreads these over its states. Each is merged over all of them, and where
states disagree the last one wins: a table keeps the place of its first
appearance and takes the contents of its last.
-/

namespace MessageExport

/-- The table with a given id. -/
def findTable? (tables : List Widget) (id : WidgetId) : Option Widget :=
  tables.find? fun table => table.id = id

/-! ### Gathering tables -/

/-- Every id stands among the tables where its position says, and nowhere else. -/
def Locates (positions : IdMap .widget Nat) (tables : Array Widget) : Prop :=
  ∀ id position, positions.find? id = some position ↔
    tables[position]?.map Widget.id = some id

/-- Tables in order, with the position of each id among them. -/
structure TableIndex where
  tables : Array Widget
  positions : IdMap .widget Nat
  locates : Locates positions tables

namespace Locates

variable {positions : IdMap .widget Nat} {tables : Array Widget} {table : Widget}
  {position : Nat}

theorem lt_size (h : Locates positions tables) {id : WidgetId}
    (hfind : positions.find? id = some position) : position < tables.size := by
  have hid := (h id position).mp hfind
  cases hat : tables[position]? with
  | none => rw [hat] at hid; cases hid
  | some found => exact (Array.getElem?_eq_some_iff.mp hat).1

/-- A table may be written over the one at the position of its id. -/
theorem set (h : Locates positions tables) (hfind : positions.find? table.id = some position) :
    Locates positions (tables.set position table (h.lt_size hfind)) := by
  intro id other
  rw [h id other, Array.getElem?_set]
  by_cases hother : position = other
  · subst hother
    rw [if_pos rfl, (h table.id position).mp hfind]
    rfl
  · rw [if_neg hother]

/-- A table with a new id may be written at the end, if that position is noted. -/
theorem push (h : Locates positions tables) (hnew : positions.find? table.id = none) :
    Locates (positions.insert table.id tables.size) (tables.push table) := by
  intro id position
  rw [IdMap.find?_insert, Array.getElem?_push]
  by_cases hid : table.id = id
  · subst hid
    -- no table before has the id, so it stands at the end only
    have hnone : ∀ other : Nat, tables[other]?.map Widget.id ≠ some table.id := by
      intro other hother
      rw [← h table.id other, hnew] at hother
      cases hother
    by_cases hend : position = tables.size
    · simp [hend]
    · simpa [hend, Ne.symm hend] using hnone position
  · rw [if_neg hid, h id position]
    by_cases hend : position = tables.size
    · simp [hend, hid]
    · rw [if_neg hend]

end Locates

namespace TableIndex

/-- No tables. -/
def empty : TableIndex where
  tables := #[]
  positions := IdMap.empty
  locates := by intro id position; simp

/-- Take up a table: over the one with the same id, or else at the end. -/
def add (index : TableIndex) (table : Widget) : TableIndex :=
  match h : index.positions.find? table.id with
  | some position =>
      { tables := index.tables.set position table (index.locates.lt_size h)
        positions := index.positions
        locates := index.locates.set h }
  | none =>
      { tables := index.tables.push table
        positions := index.positions.insert table.id index.tables.size
        locates := index.locates.push h }

/-- Take up tables one after another. -/
def ofList (tables : List Widget) : TableIndex :=
  tables.foldl add empty

end TableIndex

namespace View

/-- The widgets of a view that are message tables, state by state. -/
def tableWidgets (view : View) : List Widget :=
  (view.states.flatMap ViewState.widgets).filter Widget.isMessageTable

/-- The message tables of a view, each id once. -/
def messageTables (view : View) : List Widget :=
  (TableIndex.ofList view.tableWidgets).tables.toList

/-- The titles of a view. -/
def titles (view : View) : IdMap .widget String :=
  view.states.foldl (fun m state => m.insertAll state.titles.widget.entries) IdMap.empty

/-- The search types behind the widgets of a view. -/
def searchTypeIds (view : View) : IdMap .widget SearchTypeId :=
  view.states.foldl (fun m state => m.insertAll state.searchTypes.entries) IdMap.empty

/-- The search types of all queries, in order. -/
def searchTypes (view : View) : List SearchType :=
  view.search.queries.flatMap Query.searchTypes

/-- The search type behind a widget: the first with the id that the view maps the
widget to. -/
def resolve? (view : View) (widget : Option Widget) : Option SearchType := do
  let widget ← widget
  let id ← view.searchTypeIds.find? widget.id
  view.searchTypes.find? fun searchType => searchType.id = id

end View

/-! ### Options -/

/-- The label of a table that has no title. -/
def untitledLabel : String := "Message table without title"

/-- A message table as it is offered for selection. -/
structure TableOption where
  widget : WidgetId
  label : String
  deriving DecidableEq

/-- A table's option: its title, unless it has none or an empty one. -/
def Widget.option (titles : IdMap .widget String) (table : Widget) : TableOption where
  widget := table.id
  label :=
    match titles.find? table.id with
    | none => untitledLabel
    | some title => if title = "" then untitledLabel else title

end MessageExport
