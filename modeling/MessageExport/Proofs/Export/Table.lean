import Mathlib.Data.List.Induction
import Mathlib.Data.List.Nodup
import MessageExport.Export.Table
import MessageExport.Proofs.Distinct
/-!
# MessageExport.Proofs.Export.Table

The message tables of a view carry **distinct ids**, so an id names at most one of
them, and looking a table up is the same as picking the one with that id.

They are an **ordered merge** of the message tables of all states. What adding one
table does to the tables before it is said once (`add_cases`); the order of the ids
(`map_id_ofList`) and the contents under each of them (`mem_tables_ofList`) then
follow by induction on the tables that were added, the last one first.
-/

namespace MessageExport

namespace TableIndex

variable (index : TableIndex) (table : Widget)

/-- What adding a table does: the table is written over the one that stands at the
position of its id, or at the end if its id has no position. -/
theorem add_cases :
    (∃ position, ∃ h : position < index.tables.size,
      index.positions.find? table.id = some position ∧
        (index.add table).tables = index.tables.set position table h) ∨
      (index.positions.find? table.id = none ∧
        (index.add table).tables = index.tables.push table) := by
  unfold add
  split
  · rename_i position h
    exact .inl ⟨position, index.locates.lt_size h, h, rfl⟩
  · rename_i h
    exact .inr ⟨h, rfl⟩

/-- An id has a position exactly if it is the id of a table. -/
theorem find?_positions_eq_none_iff (id : WidgetId) :
    index.positions.find? id = none ↔ id ∉ index.tables.toList.map Widget.id := by
  constructor
  · intro hnone hmem
    obtain ⟨found, hfound, rfl⟩ := List.mem_map.mp hmem
    obtain ⟨position, hposition⟩ := List.mem_iff_getElem?.mp hfound
    rw [Array.getElem?_toList] at hposition
    have hfind := (index.locates found.id position).mpr (by rw [hposition]; rfl)
    rw [hnone] at hfind
    cases hfind
  · intro hnot
    cases hfind : index.positions.find? id with
    | none => rfl
    | some position =>
        obtain ⟨found, hfound, hid⟩ :=
          Option.map_eq_some_iff.mp ((index.locates id position).mp hfind)
        rw [← Array.getElem?_toList] at hfound
        exact absurd (List.mem_map.mpr ⟨found, List.mem_of_getElem? hfound, hid⟩) hnot

theorem nodup_ids : (index.tables.toList.map Widget.id).Nodup := by
  rw [List.nodup_iff_getElem?_ne_getElem?]
  intro i j hij hj heq
  rw [List.getElem?_map, List.getElem?_map, Array.getElem?_toList, Array.getElem?_toList] at heq
  have hsize : j < index.tables.size := by simpa using hj
  have hat : index.tables[j]?.map Widget.id = some index.tables[j].id := by
    rw [Array.getElem?_eq_getElem hsize]
    rfl
  -- both positions are the one of the id
  have hi := (index.locates _ i).mpr (heq.trans hat)
  rw [(index.locates _ j).mpr hat] at hi
  exact absurd (Option.some.inj hi) (Nat.ne_of_gt hij)

/-- A table takes the place of its id, or a new place at the end. -/
theorem map_id_add :
    (index.add table).tables.toList.map Widget.id =
      if table.id ∈ index.tables.toList.map Widget.id then index.tables.toList.map Widget.id
      else index.tables.toList.map Widget.id ++ [table.id] := by
  rcases index.add_cases table with ⟨position, h, hfind, htables⟩ | ⟨hfind, htables⟩
  · have hmem : table.id ∈ index.tables.toList.map Widget.id := by
      by_contra hnot
      rw [(index.find?_positions_eq_none_iff table.id).mpr hnot] at hfind
      cases hfind
    have hat := (index.locates table.id position).mp hfind
    rw [if_pos hmem, htables, Array.toList_set, List.map_set]
    refine List.ext_getElem? fun i => ?_
    rw [List.getElem?_set]
    by_cases hi : position = i
    · subst hi
      simpa [h] using hat.symm
    · rw [if_neg hi]
  · have hnot := (index.find?_positions_eq_none_iff table.id).mp hfind
    rw [if_neg hnot, htables, Array.toList_push, List.map_append]
    rfl

/-- After a table is added it is there, and so is every other table but the one that had
its id. -/
theorem mem_tables_add (other : Widget) :
    other ∈ (index.add table).tables ↔
      other = table ∨ (other ∈ index.tables ∧ other.id ≠ table.id) := by
  rcases index.add_cases table with ⟨position, h, hfind, htables⟩ | ⟨hfind, htables⟩
  · have hplace := fun i => index.locates table.id i
    simp only [hfind, Option.some.injEq] at hplace
    rw [htables]
    constructor
    · intro hmem
      obtain ⟨i, hi⟩ := Array.mem_iff_getElem?.mp hmem
      rw [Array.getElem?_set] at hi
      by_cases hpos : position = i
      · rw [if_pos hpos] at hi
        exact .inl (Option.some.inj hi).symm
      · rw [if_neg hpos] at hi
        refine .inr ⟨Array.mem_of_getElem? hi, fun hid => hpos ((hplace i).mpr ?_)⟩
        rw [hi, ← hid]
        rfl
    · rintro (rfl | ⟨hmem, hid⟩)
      · exact Array.mem_iff_getElem?.mpr ⟨position, by rw [Array.getElem?_set, if_pos rfl]⟩
      · obtain ⟨i, hi⟩ := Array.mem_iff_getElem?.mp hmem
        refine Array.mem_iff_getElem?.mpr ⟨i, ?_⟩
        rw [Array.getElem?_set, if_neg, hi]
        intro hpos
        have hat := (hplace i).mp hpos
        rw [hi] at hat
        exact hid (Option.some.inj hat)
  · have hnot := (index.find?_positions_eq_none_iff table.id).mp hfind
    rw [htables, Array.mem_push, or_comm]
    refine or_congr_right ⟨fun hmem => ⟨hmem, fun hid => hnot ?_⟩, And.left⟩
    exact List.mem_map.mpr ⟨other, Array.mem_toList_iff.mpr hmem, hid⟩

/-! ### Many tables -/

theorem ofList_concat (tables : List Widget) :
    ofList (tables ++ [table]) = (ofList tables).add table := by
  simp [ofList]

/-- The ids of the tables stand in the order in which they first came. -/
theorem map_id_ofList (tables : List Widget) :
    (ofList tables).tables.toList.map Widget.id = (tables.map Widget.id).eraseDups := by
  induction tables using List.reverseRecOn with
  | nil => rfl
  | append_singleton tables table ih =>
      rw [ofList_concat, map_id_add, ih, List.map_append, List.map_singleton]
      by_cases hmem : table.id ∈ tables.map Widget.id
      · rw [if_pos (List.mem_eraseDups.mpr hmem), eraseDups_concat_of_mem hmem]
      · rw [if_neg (mt List.mem_eraseDups.mp hmem), eraseDups_concat_of_not_mem hmem]

/-- The table under an id is the last one that came with it. -/
theorem mem_tables_ofList (tables : List Widget) (table : Widget) :
    table ∈ (ofList tables).tables ↔
      ∃ earlier later, tables = earlier ++ table :: later ∧
        ∀ other ∈ later, other.id ≠ table.id := by
  induction tables using List.reverseRecOn with
  | nil => simp [ofList, empty]
  | append_singleton tables last ih =>
      rw [ofList_concat, mem_tables_add, ih]
      constructor
      · rintro (rfl | ⟨⟨earlier, later, rfl, hlater⟩, hid⟩)
        · exact ⟨tables, [], rfl, List.forall_mem_nil _⟩
        · refine ⟨earlier, later ++ [last], by simp, ?_⟩
          intro other hother
          rcases List.mem_append.mp hother with hother | hother
          · exact hlater other hother
          · rw [List.mem_singleton.mp hother]
            exact hid.symm
      · rintro ⟨earlier, later, heq, hlater⟩
        rcases List.eq_nil_or_concat' later with rfl | ⟨later, final, rfl⟩
        · exact .inl (by simpa using (List.append_inj' heq rfl).2.symm)
        · rw [← List.cons_append, ← List.append_assoc] at heq
          obtain ⟨rfl, hlast⟩ := List.append_inj' heq rfl
          obtain rfl : last = final := by simpa using hlast
          refine .inr ⟨⟨earlier, later, rfl, fun other hother => ?_⟩, ?_⟩
          · exact hlater other (List.mem_append_left _ hother)
          · exact (hlater last (List.mem_append_right _ List.mem_cons_self)).symm

end TableIndex

/-- The message tables of a view have distinct ids. -/
theorem View.nodup_messageTables (view : View) :
    (view.messageTables.map Widget.id).Nodup :=
  (TableIndex.ofList view.tableWidgets).nodup_ids

/-! ### Looking tables up -/

theorem mem_of_findTable? {tables : List Widget} {id : WidgetId} {table : Widget}
    (h : findTable? tables id = some table) : table ∈ tables ∧ table.id = id :=
  ⟨List.mem_of_find?_eq_some h, by simpa using List.find?_some h⟩

/-- Among tables with distinct ids, an id names the one table that has it. -/
theorem findTable?_eq_some_iff {tables : List Widget} (hnodup : (tables.map Widget.id).Nodup)
    {id : WidgetId} {table : Widget} :
    findTable? tables id = some table ↔ table ∈ tables ∧ table.id = id := by
  refine ⟨mem_of_findTable?, ?_⟩
  rintro ⟨hmem, rfl⟩
  cases hfind : findTable? tables table.id with
  | none => exact absurd (List.find?_eq_none.mp hfind table hmem) (by simp)
  | some found =>
      -- the table that is found has the same id, so it is the same table
      obtain ⟨hfound, hid⟩ := mem_of_findTable? hfind
      rw [List.inj_on_of_nodup_map hnodup hfound hmem hid]

/-- The table of a view that has a given id. -/
theorem View.findTable?_messageTables {view : View} {id : WidgetId} {table : Widget} :
    findTable? view.messageTables id = some table ↔
      table ∈ view.messageTables ∧ table.id = id :=
  findTable?_eq_some_iff view.nodup_messageTables

/-! ### The merge of all states -/

/-- **The message tables of a view are an ordered merge**, in which the last table of an
id wins. With `given` the message tables of all states, state by state: no id is
repeated; the ids stand in the order in which they first come in `given`; the table
under each is the last of `given` with that id; a widget that is no message table may be
left out anywhere; and whenever a table is written over another one on the way, the
position noted for its id is a position of the tables gathered so far, and has that
id. -/
theorem View.messageTables_ordered_merge (view : View) :
    let given := view.states.flatMap fun state => state.widgets.filter Widget.isMessageTable
    (view.messageTables.map Widget.id).Nodup ∧
      view.messageTables.map Widget.id = (given.map Widget.id).eraseDups ∧
      (∀ table, table ∈ view.messageTables ↔
        ∃ earlier later, given = earlier ++ table :: later ∧
          ∀ other ∈ later, other.id ≠ table.id) ∧
      (∀ (before after : List ViewState) (state : ViewState) (front back : List Widget)
        (widget : Widget), widget.isMessageTable = false →
        view.states = before ++ { state with widgets := front ++ widget :: back } :: after →
          ({ view with
            states := before ++ { state with widgets := front ++ back } :: after }
            : View).messageTables = view.messageTables) ∧
      (∀ earlier table later, given = earlier ++ table :: later →
        ∀ position, (TableIndex.ofList earlier).positions.find? table.id = some position →
          ∃ h : position < (TableIndex.ofList earlier).tables.size,
            (TableIndex.ofList earlier).tables[position].id = table.id ∧
              (TableIndex.ofList (earlier ++ [table])).tables =
                (TableIndex.ofList earlier).tables.set position table h) := by
  intro given
  have hgiven : view.tableWidgets = given := List.filter_flatMap
  refine ⟨view.nodup_messageTables, ?_, ?_, ?_, ?_⟩
  · rw [messageTables, TableIndex.map_id_ofList, hgiven]
  · intro table
    rw [messageTables, Array.mem_toList_iff, TableIndex.mem_tables_ofList, hgiven]
  · intro before after state front back widget hother hstates
    have hwidgets : ({ view with
        states := before ++ { state with widgets := front ++ back } :: after }
        : View).tableWidgets = view.tableWidgets := by
      simp [tableWidgets, hstates, hother]
    rw [messageTables, messageTables, hwidgets]
  · intro earlier table later _ position hfind
    rcases (TableIndex.ofList earlier).add_cases table with
      ⟨place, h, hplace, htables⟩ | ⟨hnone, -⟩
    · obtain rfl : place = position := Option.some.inj (hplace.symm.trans hfind)
      refine ⟨h, ?_, ?_⟩
      · have hat := ((TableIndex.ofList earlier).locates table.id place).mp hfind
        rw [Array.getElem?_eq_getElem h] at hat
        exact Option.some.inj hat
      · rw [TableIndex.ofList_concat]
        exact htables
    · rw [hnone] at hfind
      cases hfind

end MessageExport
