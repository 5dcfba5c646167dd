import MessageExport.Identifier
/-!
# MessageExport.IdMap

**Dictionaries keyed by identifiers**, in which the last write of a key wins.

An `IdMap` keeps its entries in strictly increasing order of the written key.
The order is an invariant of the type, so two dictionaries that answer every
`find?` alike are equal, and how the entries were listed leaves no trace.
-/

namespace MessageExport

variable {kind : IdKind} {α : Type}

/-- A dictionary from identifiers of one kind to values. -/
structure IdMap (kind : IdKind) (α : Type) where
  /-- The entries, by increasing key. -/
  entries : List (Identifier kind × α)
  sorted : entries.Pairwise (fun a b => a.1.raw < b.1.raw)

namespace IdMap

/-- The dictionary without entries. -/
def empty : IdMap kind α := ⟨[], List.Pairwise.nil⟩

instance : Inhabited (IdMap kind α) := ⟨empty⟩

/-- What a list of entries holds for a key: the value of the first entry with it. -/
def lookup (key : Identifier kind) : List (Identifier kind × α) → Option α
  | [] => none
  | (k, v) :: rest => if k = key then some v else lookup key rest

/-- The value of a key, if it has one. -/
def find? (m : IdMap kind α) (key : Identifier kind) : Option α :=
  lookup key m.entries

/-- Put an entry at its place in an ordered list, over an entry with the same key. -/
def place (key : Identifier kind) (value : α) :
    List (Identifier kind × α) → List (Identifier kind × α)
  | [] => [(key, value)]
  | (k, v) :: rest =>
      if key.raw < k.raw then (key, value) :: (k, v) :: rest
      else if key = k then (key, value) :: rest
      else (k, v) :: place key value rest

/-- An entry of the list after a placement is the placed one or an older one. -/
theorem mem_place {key : Identifier kind} {value : α} {e : Identifier kind × α} :
    ∀ {entries : List (Identifier kind × α)}, e ∈ place key value entries →
      e = (key, value) ∨ e ∈ entries := by
  intro entries
  induction entries with
  | nil => intro h; simpa [place] using h
  | cons head rest ih =>
    obtain ⟨k, v⟩ := head
    intro h
    unfold place at h
    split at h
    · simpa using h
    · split at h
      · rcases List.mem_cons.mp h with h | h
        · exact .inl h
        · exact .inr (List.mem_cons_of_mem _ h)
      · rcases List.mem_cons.mp h with h | h
        · exact .inr (h ▸ List.mem_cons_self)
        · exact (ih h).imp_right (List.mem_cons_of_mem _)

/-- Placement keeps the order. -/
theorem sorted_place (key : Identifier kind) (value : α) :
    ∀ {entries : List (Identifier kind × α)},
      entries.Pairwise (fun a b => a.1.raw < b.1.raw) →
      (place key value entries).Pairwise (fun a b => a.1.raw < b.1.raw) := by
  intro entries
  induction entries with
  | nil => intro _; exact List.pairwise_singleton _ _
  | cons head rest ih =>
    obtain ⟨k, v⟩ := head
    intro h
    obtain ⟨hHead, hRest⟩ := List.pairwise_cons.mp h
    unfold place
    split
    · rename_i hlt
      refine List.pairwise_cons.mpr ⟨?_, h⟩
      intro e he
      rcases List.mem_cons.mp he with rfl | he
      · exact hlt
      · exact String.lt_trans hlt (hHead e he)
    · rename_i hnlt
      split
      · rename_i heq
        subst heq
        exact List.pairwise_cons.mpr ⟨hHead, hRest⟩
      · rename_i hne
        refine List.pairwise_cons.mpr ⟨?_, ih hRest⟩
        intro e he
        rcases mem_place he with rfl | he
        · have hraw : k.raw ≠ key.raw := fun h => hne (Identifier.ext h.symm)
          rcases Std.Trichotomous.rel_or_eq_or_rel_swap (r := fun a b : String => a < b)
            (a := k.raw) (b := key.raw) with h | h | h
          · exact h
          · exact absurd h hraw
          · exact absurd h hnlt
        · exact hHead e he

/-- Give a key a value, over the value it had. -/
def insert (m : IdMap kind α) (key : Identifier kind) (value : α) : IdMap kind α :=
  ⟨place key value m.entries, sorted_place key value m.sorted⟩

@[simp] theorem find?_empty (key : Identifier kind) :
    (empty : IdMap kind α).find? key = none := rfl

/-- After a placement its key has its value, and every other key what it had. -/
theorem lookup_place (key : Identifier kind) (value : α) (other : Identifier kind) :
    ∀ entries : List (Identifier kind × α),
      lookup other (place key value entries) =
        if key = other then some value else lookup other entries := by
  intro entries
  induction entries with
  | nil => rfl
  | cons head rest ih =>
    obtain ⟨k, v⟩ := head
    unfold place
    split
    · rfl
    · split
      · rename_i h
        subst h
        unfold lookup
        split <;> rfl
      · rename_i hne
        unfold lookup
        rw [ih]
        by_cases hk : k = other
        · have hkey : key ≠ other := fun h => hne (h.trans hk.symm)
          rw [if_pos hk, if_neg hkey, if_pos hk]
        · rw [if_neg hk, if_neg hk]

theorem find?_insert (m : IdMap kind α) (key : Identifier kind) (value : α)
    (other : Identifier kind) :
    (m.insert key value).find? other = if key = other then some value else m.find? other :=
  lookup_place key value other m.entries

/-- Write all of a list of entries into a dictionary, from left to right. -/
def insertAll (m : IdMap kind α) (entries : List (Identifier kind × α)) : IdMap kind α :=
  entries.foldl (fun m e => m.insert e.1 e.2) m

@[simp] theorem insertAll_cons (m : IdMap kind α) (entry : Identifier kind × α)
    (entries : List (Identifier kind × α)) :
    m.insertAll (entry :: entries) = (m.insert entry.1 entry.2).insertAll entries := rfl

/-- The dictionary that a list of entries describes: the last entry of a key wins. -/
def ofList (entries : List (Identifier kind × α)) : IdMap kind α :=
  empty.insertAll entries

end IdMap

end MessageExport
