import Mathlib.Data.List.Nodup
import MessageExport.IdMap
/-!
# MessageExport.Proofs.IdMap

Dictionaries are told apart by **what they answer**, so entries with different keys may be
written in any order.
-/

namespace MessageExport.IdMap

variable {kind : IdKind} {α : Type}

theorem lookup_eq_none_of_not_mem {key : Identifier kind} {entries : List (Identifier kind × α)}
    (h : key ∉ entries.map Prod.fst) : lookup key entries = none := by
  induction entries with
  | nil => rfl
  | cons e rest ih =>
      rw [List.map_cons, List.mem_cons, not_or] at h
      rw [lookup, if_neg (Ne.symm h.1), ih h.2]

/-- Keys that are all greater are not found. -/
theorem lookup_eq_none_of_lt {key : Identifier kind} {entries : List (Identifier kind × α)}
    (h : ∀ e ∈ entries, key.raw < e.1.raw) : lookup key entries = none := by
  refine lookup_eq_none_of_not_mem fun hmem => ?_
  obtain ⟨e, he, rfl⟩ := List.mem_map.mp hmem
  exact String.lt_irrefl _ (h e he)

theorem lookup_head (key : Identifier kind) (value : α) (rest : List (Identifier kind × α)) :
    lookup key ((key, value) :: rest) = some value := by
  rw [lookup, if_pos rfl]

/-- Among ordered entries that hold the same, no first key is before the other one, for it
would be found on one side only. -/
theorem not_lt_of_lookup {k k' : Identifier kind} {v v' : α}
    {rest rest' : List (Identifier kind × α)} (hrest' : ∀ e ∈ rest', k'.raw < e.1.raw)
    (h : ∀ key, lookup key ((k, v) :: rest) = lookup key ((k', v') :: rest')) :
    ¬ k.raw < k'.raw := by
  intro hlt
  have hnone : lookup k ((k', v') :: rest') = none := lookup_eq_none_of_lt
    (List.forall_mem_cons.mpr ⟨hlt, fun e he => String.lt_trans hlt (hrest' e he)⟩)
  rw [← h k, lookup_head] at hnone
  cases hnone

/-- Ordered entries are determined by what they hold for each key. -/
theorem entries_eq_of_lookup {entries entries' : List (Identifier kind × α)}
    (hsorted : entries.Pairwise fun a b => a.1.raw < b.1.raw)
    (hsorted' : entries'.Pairwise fun a b => a.1.raw < b.1.raw)
    (h : ∀ key, lookup key entries = lookup key entries') : entries = entries' := by
  induction entries generalizing entries' with
  | nil =>
      cases entries' with
      | nil => rfl
      | cons e' rest' =>
          have hhead := h e'.1
          rw [lookup_head] at hhead
          cases hhead
  | cons e rest ih =>
      obtain ⟨hhead, hrest⟩ := List.pairwise_cons.mp hsorted
      cases entries' with
      | nil =>
          have hhead := h e.1
          rw [lookup_head] at hhead
          cases hhead
      | cons e' rest' =>
          obtain ⟨hhead', hrest'⟩ := List.pairwise_cons.mp hsorted'
          obtain ⟨k, v⟩ := e
          obtain ⟨k', v'⟩ := e'
          have hkey : k.raw = k'.raw := by
            rcases Std.Trichotomous.rel_or_eq_or_rel_swap (r := fun a b : String => a < b)
              (a := k.raw) (b := k'.raw) with hlt | heq | hlt
            · exact absurd hlt (not_lt_of_lookup hhead' h)
            · exact heq
            · exact absurd hlt (not_lt_of_lookup hhead fun key => (h key).symm)
          obtain rfl := Identifier.ext hkey
          have hvalue := h k
          rw [lookup_head, lookup_head] at hvalue
          obtain rfl := Option.some.inj hvalue
          rw [ih hrest hrest' fun key => ?_]
          by_cases hkey : k = key
          · subst hkey
            rw [lookup_eq_none_of_lt hhead, lookup_eq_none_of_lt hhead']
          · have hrest := h key
            rwa [lookup, lookup, if_neg hkey, if_neg hkey] at hrest

/-- Dictionaries that answer alike are equal. -/
theorem ext_find? {m m' : IdMap kind α} (h : ∀ key, m.find? key = m'.find? key) : m = m' := by
  obtain ⟨entries, hsorted⟩ := m
  obtain ⟨entries', hsorted'⟩ := m'
  obtain rfl := entries_eq_of_lookup hsorted hsorted' h
  rfl

/-- Entries with different keys may be written in either order. -/
theorem insert_comm (m : IdMap kind α) {a b : Identifier kind × α} (h : a.1 ≠ b.1) :
    (m.insert a.1 a.2).insert b.1 b.2 = (m.insert b.1 b.2).insert a.1 a.2 := by
  refine ext_find? fun key => ?_
  simp only [find?_insert]
  by_cases ha : a.1 = key
  · have hb : b.1 ≠ key := fun hb => h (ha.trans hb.symm)
    rw [if_neg hb, if_pos ha, if_pos ha]
  · rw [if_neg ha, if_neg ha]

/-- Entries with different keys may be written in any order. -/
theorem insertAll_perm {entries entries' : List (Identifier kind × α)}
    (hperm : entries.Perm entries') (hnodup : (entries.map Prod.fst).Nodup)
    (m : IdMap kind α) : m.insertAll entries = m.insertAll entries' := by
  refine hperm.foldl_eq' (fun a ha b hb m => ?_) m
  by_cases hkey : a.1 = b.1
  · rw [List.inj_on_of_nodup_map hnodup ha hb hkey]
  · exact insert_comm m hkey

theorem ofList_perm {entries entries' : List (Identifier kind × α)}
    (hperm : entries.Perm entries') (hnodup : (entries.map Prod.fst).Nodup) :
    (ofList entries : IdMap kind α) = ofList entries' :=
  insertAll_perm hperm hnodup empty

/-- Entries with different keys are all found, over what was there. -/
theorem find?_insertAll {entries : List (Identifier kind × α)}
    (hnodup : (entries.map Prod.fst).Nodup) (m : IdMap kind α) (key : Identifier kind) :
    (m.insertAll entries).find? key = (lookup key entries).or (m.find? key) := by
  induction entries generalizing m with
  | nil => rfl
  | cons e rest ih =>
      obtain ⟨hnot, hrest⟩ := List.nodup_cons.mp hnodup
      rw [insertAll_cons, ih hrest, find?_insert, lookup]
      by_cases hkey : e.1 = key
      · subst hkey
        rw [if_pos rfl, if_pos rfl, lookup_eq_none_of_not_mem hnot]
        rfl
      · rw [if_neg hkey, if_neg hkey]

/-- No key of a dictionary is repeated. -/
theorem nodup_keys (m : IdMap kind α) : (m.entries.map Prod.fst).Nodup := by
  refine List.pairwise_map.mpr (m.sorted.imp fun hlt heq => ?_)
  rw [heq] at hlt
  exact String.lt_irrefl _ hlt

/-- A dictionary is the one that its own entries describe. -/
theorem ofList_entries (m : IdMap kind α) : ofList m.entries = m := by
  refine ext_find? fun key => ?_
  rw [ofList, find?_insertAll m.nodup_keys, find?_empty, Option.or_none, find?]

/-! ### Merging dictionaries

A list of states, each with a dictionary `part`, is merged into one dictionary state by
state. The last state that knows a key decides, and the order in which a state yields its
entries leaves no trace. -/

section

variable {β : Type} (part : β → IdMap kind α)

theorem insertAll_append (m : IdMap kind α) (entries entries' : List (Identifier kind × α)) :
    m.insertAll (entries ++ entries') = (m.insertAll entries).insertAll entries' :=
  List.foldl_append

/-- A merged dictionary has what the last state has that knows the key, and otherwise what
was there before. -/
theorem find?_merge (states : List β) (m : IdMap kind α) (key : Identifier kind) :
    (states.foldl (fun m state => m.insertAll (part state).entries) m).find? key =
      (states.reverse.findSome? fun state => (part state).find? key).or (m.find? key) := by
  induction states generalizing m with
  | nil => rfl
  | cons state rest ih =>
      rw [List.foldl_cons, ih, find?_insertAll (part state).nodup_keys, List.reverse_cons,
        List.findSome?_append, Option.or_assoc, List.findSome?_singleton]
      rfl

/-- A key of a merged dictionary has the value that some state gives it and no later state
touches. -/
theorem find?_merge_eq_some_iff (states : List β) (key : Identifier kind) (value : α) :
    (states.foldl (fun m state => m.insertAll (part state).entries) empty).find? key =
        some value ↔
      ∃ before state after, states = before ++ state :: after ∧
        (part state).find? key = some value ∧
        ∀ later ∈ after, (part later).find? key = none := by
  rw [find?_merge, find?_empty, Option.or_none, List.findSome?_eq_some_iff]
  constructor
  · rintro ⟨after, state, before, hsplit, hstate, hafter⟩
    refine ⟨before.reverse, state, after.reverse, ?_, hstate, ?_⟩
    · rw [← List.reverse_reverse states, hsplit]
      simp
    · intro later hlater
      exact hafter later (List.mem_reverse.mp hlater)
  · rintro ⟨before, state, after, rfl, hstate, hafter⟩
    refine ⟨after.reverse, state, before.reverse, by simp, hstate, ?_⟩
    intro later hlater
    exact hafter later (List.mem_reverse.mp hlater)

/-- A key of a merged dictionary has no value exactly if no state knows it. -/
theorem find?_merge_eq_none_iff (states : List β) (key : Identifier kind) :
    (states.foldl (fun m state => m.insertAll (part state).entries) empty).find? key = none ↔
      ∀ state ∈ states, (part state).find? key = none := by
  rw [find?_merge, find?_empty, Option.or_none, List.findSome?_eq_none_iff]
  simp only [List.mem_reverse]

/-- However each state lists its entries, writing the listings one after another gives the
same dictionary. -/
theorem insertAll_flatten {states : List β} {listings : List (List (Identifier kind × α))}
    (h : List.Forall₂ (fun listing state => listing.Perm (part state).entries) listings states)
    (m : IdMap kind α) :
    m.insertAll listings.flatten =
      states.foldl (fun m state => m.insertAll (part state).entries) m := by
  induction h generalizing m with
  | nil => rfl
  | @cons listing state _ _ hlisting _ ih =>
      have hnodup : (listing.map Prod.fst).Nodup :=
        (hlisting.map Prod.fst).nodup_iff.mpr (part state).nodup_keys
      rw [List.flatten_cons, insertAll_append, insertAll_perm hlisting hnodup, ih,
        List.foldl_cons]

end

end MessageExport.IdMap
