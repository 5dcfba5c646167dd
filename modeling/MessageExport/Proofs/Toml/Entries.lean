import Mathlib.Data.List.Nodup
import MessageExport.Proofs.Toml.Values
/-!
# MessageExport.Proofs.Toml.Entries

**Adding** to the entries at the top of a document, entry by entry.

Each way to add either appends an entry under a new key, or changes the item under a key,
in its place or behind all others. What is changed is never a value, and what it becomes is
a table that lines may add to again (`MayBecome`).

## Shape of the proofs

Entries are a list, and looking up, changing and erasing are recursions along it. `put` is a
definition for the proofs: what `alter` comes to when the change succeeds (`alter_eq_some`),
without an option around it. The keys and the members of the result are then read off `put`, and
nothing after it looks into `alter`.

The second half goes through the functions that a header or a dotted key uses on its way. They
have many branches, most of which fail: each proof splits along the function itself
(`fun_cases`) and keeps the branches that make something.
-/

namespace MessageExport.Toml

/-! ### Entries

Lookup needs distinct keys where it is compared with membership, since it finds the first entry
of a key. -/

namespace Entries

/-- The keys of entries, in their order. -/
def keys (entries : Entries) : List String :=
  entries.map Prod.fst

/-- The entries with an item under a key: in the place of the old one, or at the end. -/
def put (key : String) (item : Item) : Entries → Entries
  | [] => [(key, item)]
  | (k, old) :: rest =>
      if k = key then (k, item) :: rest else (k, old) :: put key item rest

variable {key : String} {item : Item} {entries : Entries}

/-- Nothing is found exactly under a key that is not there. -/
theorem find?_eq_none_iff : find? key entries = none ↔ key ∉ keys entries := by
  induction entries with
  | nil => simp [find?, keys]
  | cons entry rest ih =>
      obtain ⟨k, old⟩ := entry
      rw [find?, keys, List.map_cons, List.mem_cons, not_or]
      by_cases hk : k = key
      · rw [if_pos hk]
        exact iff_of_false (Option.some_ne_none _) fun h => h.1 hk.symm
      · rw [if_neg hk, ih]
        exact (and_iff_right fun h => hk h.symm).symm

/-- Where keys are distinct, what is found under a key is its entry. -/
theorem find?_eq_some_iff (hnodup : (keys entries).Nodup) :
    find? key entries = some item ↔ (key, item) ∈ entries := by
  induction entries with
  | nil => simp [find?]
  | cons entry rest ih =>
      obtain ⟨k, old⟩ := entry
      obtain ⟨hnew, hrest⟩ := List.nodup_cons.mp hnodup
      rw [find?, List.mem_cons, Prod.mk.injEq]
      by_cases hk : k = key
      · subst hk
        have hout : (k, item) ∉ rest := fun h => hnew (List.mem_map.mpr ⟨_, h, rfl⟩)
        rw [if_pos rfl, or_iff_left hout, and_iff_right rfl, Option.some.injEq, eq_comm]
      · rw [if_neg hk, ih hrest]
        exact (or_iff_right fun h => hk h.1.symm).symm

/-- A change that succeeds puts what it makes under the key. -/
theorem alter_eq_some {change : Option Item → Option Item} {after : Entries}
    (h : alter key change entries = some after) :
    ∃ item, change (find? key entries) = some item ∧ after = put key item entries := by
  induction entries generalizing after with
  | nil =>
      obtain ⟨item, hitem, rfl⟩ := Option.map_eq_some_iff.mp h
      exact ⟨item, hitem, rfl⟩
  | cons entry rest ih =>
      obtain ⟨k, old⟩ := entry
      rw [alter] at h
      by_cases hk : k = key
      · rw [if_pos hk] at h
        obtain ⟨item, hitem, rfl⟩ := Option.map_eq_some_iff.mp h
        exact ⟨item, by rw [find?, if_pos hk]; exact hitem, by rw [put, if_pos hk]⟩
      · rw [if_neg hk] at h
        obtain ⟨more, hmore, rfl⟩ := Option.map_eq_some_iff.mp h
        obtain ⟨item, hitem, rfl⟩ := ih hmore
        exact ⟨item, by rw [find?, if_neg hk]; exact hitem, by rw [put, if_neg hk]⟩

/-- A new key comes behind all others, and an old one stays in its place. -/
theorem keys_put :
    keys (put key item entries) =
      if key ∈ keys entries then keys entries else keys entries ++ [key] := by
  induction entries with
  | nil => rfl
  | cons entry rest ih =>
      obtain ⟨k, old⟩ := entry
      rw [put]
      by_cases hk : k = key
      · subst hk
        have hin : k ∈ keys ((k, old) :: rest) := List.mem_cons_self ..
        rw [if_pos rfl, if_pos hin]
        rfl
      · have hmem : key ∈ keys ((k, old) :: rest) ↔ key ∈ keys rest :=
          List.mem_cons.trans (or_iff_right fun h => hk h.symm)
        rw [if_neg hk]
        show k :: keys (put key item rest) = _
        rw [ih]
        by_cases hin : key ∈ keys rest
        · rw [if_pos hin, if_pos (hmem.mpr hin)]
          rfl
        · rw [if_neg hin, if_neg (mt hmem.mp hin)]
          rfl

/-- Under other keys nothing changes. -/
theorem mem_put_of_ne {k : String} {old : Item} (h : k ≠ key) :
    (k, old) ∈ put key item entries ↔ (k, old) ∈ entries := by
  induction entries with
  | nil => simp [put, h]
  | cons entry rest ih =>
      obtain ⟨first, there⟩ := entry
      rw [put]
      by_cases hfirst : first = key
      · subst hfirst
        simp [h]
      · rw [if_neg hfirst, List.mem_cons, ih, List.mem_cons]

/-- What is put is there. -/
theorem mem_put_self : (key, item) ∈ put key item entries := by
  induction entries with
  | nil => exact List.mem_singleton_self _
  | cons entry rest ih =>
      obtain ⟨k, old⟩ := entry
      rw [put]
      by_cases hk : k = key
      · subst hk
        rw [if_pos rfl]
        exact List.mem_cons_self ..
      · rw [if_neg hk]
        exact List.mem_cons_of_mem _ ih

/-- What is found after an item was put is that item or what was there before. -/
theorem mem_of_mem_put {entry : String × Item} (h : entry ∈ put key item entries) :
    entry = (key, item) ∨ entry ∈ entries := by
  induction entries with
  | nil => exact .inl (List.mem_singleton.mp h)
  | cons first rest ih =>
      obtain ⟨k, old⟩ := first
      rw [put] at h
      by_cases hk : k = key
      · subst hk
        rw [if_pos rfl] at h
        exact (List.mem_cons.mp h).imp_right (List.mem_cons_of_mem _)
      · rw [if_neg hk] at h
        rcases List.mem_cons.mp h with rfl | hrest
        · exact .inr (List.mem_cons_self ..)
        · exact (ih hrest).imp_right (List.mem_cons_of_mem _)

/-- Erasing takes one key out. -/
theorem keys_erase : keys (erase key entries) = (keys entries).filter (· ≠ key) := by
  rw [erase, keys, keys, List.filter_map]
  rfl

theorem keys_concat : keys (entries ++ [(key, item)]) = keys entries ++ [key] :=
  List.map_append

/-- An entry at the end is no entry of another key. -/
theorem mem_concat_of_ne {k : String} {other : Item} (h : k ≠ key) :
    (k, other) ∈ entries ++ [(key, item)] ↔ (k, other) ∈ entries := by
  rw [List.mem_append, List.mem_singleton]
  exact or_iff_left fun heq => h (Prod.mk.inj heq).1

/-- An entry under a new key is the only one of that key. -/
theorem mem_concat_self {other : Item} (hnew : key ∉ keys entries) :
    (key, other) ∈ entries ++ [(key, item)] ↔ other = item := by
  have hout : (key, other) ∉ entries := fun h => hnew (List.mem_map.mpr ⟨_, h, rfl⟩)
  rw [List.mem_append, List.mem_singleton, or_iff_right hout, Prod.mk.injEq, and_iff_right rfl]

/-- Keys stay distinct when a new one is added. -/
theorem nodup_concat (h : (keys entries).Nodup) (hnew : key ∉ keys entries) :
    (keys (entries ++ [(key, item)])).Nodup := by
  rw [keys_concat]
  exact h.append (List.nodup_singleton key) (List.disjoint_singleton.mpr hnew)

/-- Keys stay distinct when an item is put. -/
theorem nodup_put (h : (keys entries).Nodup) : (keys (put key item entries)).Nodup := by
  rw [keys_put]
  split
  · exact h
  · rename_i hnew
    exact h.append (List.nodup_singleton key) (List.disjoint_singleton.mpr hnew)

theorem erase_of_not_mem (h : key ∉ keys entries) : erase key entries = entries := by
  refine List.filter_eq_self.mpr fun entry hentry => decide_eq_true fun hkey => h ?_
  exact List.mem_map.mpr ⟨entry, hentry, hkey⟩

theorem mem_erase {entry : String × Item} :
    entry ∈ erase key entries ↔ entry ∈ entries ∧ entry.1 ≠ key := by
  rw [erase, List.mem_filter, decide_eq_true_iff]

/-- An entry is only added under a new key. -/
theorem add_eq_some {after : Entries} (h : add key item entries = some after) :
    key ∉ keys entries ∧ after = entries ++ [(key, item)] := by
  unfold add at h
  split at h
  · cases h
  · rename_i hfind
    cases h
    exact ⟨find?_eq_none_iff.mp (Option.not_isSome_iff_eq_none.mp hfind), rfl⟩

/-- Under a new key an entry can be added. -/
theorem add_of_not_mem (h : key ∉ keys entries) :
    add key item entries = some (entries ++ [(key, item)]) := by
  rw [add, find?_eq_none_iff.mpr h]
  rfl

end Entries

/-! ### Making and changing tables

A line may add to a table that other lines made, or make it. It may never add to a value, which
is where the branches that fail come from. -/

/-- Where the last of some elements was changed, there are elements. -/
theorem alterLast_ne_nil {change : Entries → Option Entries} {elements after : List Entries}
    (h : alterLast change elements = some after) : after ≠ [] := by
  cases elements with
  | nil => cases h
  | cons first rest =>
      cases rest with
      | nil =>
          obtain ⟨last, -, rfl⟩ := Option.map_eq_some_iff.mp h
          exact List.cons_ne_nil _ _
      | cons second rest =>
          obtain ⟨more, -, rfl⟩ := Option.map_eq_some_iff.mp h
          exact List.cons_ne_nil _ _

/-- What stands under a key may be changed to the item: nothing, or a table that lines may
add to, to such a table. -/
def MayBecome (old : Option Item) (item : Item) : Prop :=
  (∀ there, old = some there → ¬there.IsValue) ∧ item.IsOpenTable

/-- Where nothing is, a table may be made. -/
theorem MayBecome.of_none {item : Item} (h : item.IsOpenTable) : MayBecome none item :=
  ⟨nofun, h⟩

/-- A table that is no value may be changed. -/
theorem MayBecome.of_some {there item : Item} (hthere : ¬there.IsValue)
    (h : item.IsOpenTable) : MayBecome (some there) item :=
  ⟨fun _ heq => Option.some.inj heq ▸ hthere, h⟩

/-- A header goes through a table that lines may add to, or makes one. -/
theorem throughHeader_eq_some {change : Entries → Option Entries} {old : Option Item}
    {item : Item} (h : throughHeader change old = some item) : MayBecome old item := by
  revert h
  fun_cases throughHeader change old <;> intro h
  case case1 =>
    obtain ⟨made, -, rfl⟩ := Option.map_eq_some_iff.mp h
    exact .of_none (by simp [Item.IsOpenTable])
  case case3 origin entries horigin =>
    obtain ⟨made, -, rfl⟩ := Option.map_eq_some_iff.mp h
    exact .of_some horigin horigin
  -- an array of tables: the line goes on in its last table
  case case4 elements =>
    obtain ⟨made, hmade, rfl⟩ := Option.map_eq_some_iff.mp h
    exact .of_some id (alterLast_ne_nil hmade)
  all_goals cases h

/-- A dotted key goes through a table that lines may add to, or makes one. -/
theorem throughKey_eq_some {ends : Bool} {change : Entries → Option Entries}
    {old : Option Item} {item : Item} (h : throughKey ends change old = some item) :
    MayBecome old item := by
  revert h
  fun_cases throughKey ends change old <;> intro h
  case case1 =>
    obtain ⟨made, -, rfl⟩ := Option.map_eq_some_iff.mp h
    exact .of_none (by simp [Item.IsOpenTable])
  case case2 entries =>
    obtain ⟨made, -, rfl⟩ := Option.map_eq_some_iff.mp h
    exact .of_some (by simp [Item.IsValue]) (by simp [Item.IsOpenTable])
  case case4 entries _ =>
    obtain ⟨made, -, rfl⟩ := Option.map_eq_some_iff.mp h
    exact .of_some (by simp [Item.IsValue]) (by simp [Item.IsOpenTable])
  case case6 elements _ =>
    obtain ⟨made, hmade, rfl⟩ := Option.map_eq_some_iff.mp h
    exact .of_some id (alterLast_ne_nil hmade)
  all_goals cases h

/-- A header opens a table behind all other entries, with what was there of it before. -/
theorem openTable_eq_some {key : String} {entries after : Entries}
    (h : openTable key entries = some after) :
    ∃ inner, MayBecome (entries.find? key) (.table .header inner) ∧
      after = entries.erase key ++ [(key, .table .header inner)] := by
  have hopen : ∀ inner, (Item.table .header inner).IsOpenTable := fun _ => nofun
  unfold openTable at h
  split at h
  · rename_i hnone
    cases h
    refine ⟨[], ?_, ?_⟩
    · rw [hnone]
      exact .of_none (hopen [])
    · rw [Entries.erase_of_not_mem (Entries.find?_eq_none_iff.mp hnone)]
  · rename_i inner hsome
    cases h
    refine ⟨inner, ?_, rfl⟩
    rw [hsome]
    exact .of_some nofun (hopen inner)
  · cases h

/-- A header of an array of tables adds a table to it, in its place. -/
theorem openElement_eq_some {key : String} {entries after : Entries}
    (h : openElement key entries = some after) :
    ∃ item, MayBecome (entries.find? key) item ∧ after = entries.put key item := by
  obtain ⟨item, hitem, rfl⟩ := Entries.alter_eq_some h
  refine ⟨item, ?_, rfl⟩
  split at hitem
  · rename_i hnone
    cases hitem
    rw [hnone]
    exact .of_none (List.cons_ne_nil _ _)
  · rename_i elements hsome
    cases hitem
    rw [hsome]
    exact .of_some id (by simp [Item.IsOpenTable])
  · cases hitem

end MessageExport.Toml
