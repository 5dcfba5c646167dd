import Mathlib.Data.List.Induction
import MessageExport.Proofs.Toml.Entries
/-!
# MessageExport.Proofs.Toml.Statements

What a statement does to the **entries at the top** of a document, and what many do.

A statement touches one entry at the top. It adds a value that is written on its line, it
opens the table that its header names, or it makes a table there or changes one
(`Progress.add_cases`). A value stays as it is written, so each entry is such a value or a
table that several lines may have built (`Progress.mem_entries_cases`). A document that has
values only consists of lines that give them, and these may come in any order
(`document?_of_perm`).
-/

namespace MessageExport.Toml

/-! ### What a statement does

The branches of the definition come to three cases. The key at the top that is touched and the
header in force afterwards can be told from the statement alone, so they are functions of it. -/

namespace Statement

/-- The line gives a value. -/
def IsPair : Statement → Prop
  | .pair _ _ => True
  | _ => False

/-- The header that is in force behind a line, from the one in force before it. -/
def header (above : List String) : Statement → List String
  | .table key | .element key => key.parts
  | .pair _ _ => above

/-- The key at the top of the document that a line under a header is about. -/
def top (above : List String) : Statement → String
  | .table key | .element key => key.path.headD key.last
  | .pair key _ => above.headD (key.path.headD key.last)

/-- The line that gives a value to a key at the top. -/
def plain (entry : String × Item) : Statement :=
  .pair ⟨[], entry.1⟩ entry.2

end Statement

open Entries (keys)

variable {progress next : Progress} {said : Statement} {key : String} {item : Item}

/-- Where no header is in force, a value is added to the top. -/
theorem Progress.add_plain (hpath : progress.path = []) :
    progress.add (.plain (key, item)) =
      (progress.entries.add key item).map fun entries => { progress with entries } := by
  rw [Statement.plain, add, hpath]
  rfl

/-- **What a statement can do at the top.** It adds a value that is written on its line, it
opens the table that its header names, or it makes or changes a table that others may add
to. -/
theorem Progress.add_cases (h : progress.add said = some next) :
    (∃ key item, said = .plain (key, item) ∧ progress.path = [] ∧
        key ∉ keys progress.entries ∧ next = ⟨progress.entries ++ [(key, item)], []⟩) ∨
      (∃ key inner, said = .table ⟨[], key⟩ ∧
        MayBecome (progress.entries.find? key) (.table .header inner) ∧
        next = ⟨progress.entries.erase key ++ [(key, .table .header inner)], [key]⟩) ∨
      ∃ item, said ≠ .table ⟨[], said.top progress.path⟩ ∧
        MayBecome (progress.entries.find? (said.top progress.path)) item ∧
        next = ⟨progress.entries.put (said.top progress.path) item,
          said.header progress.path⟩ := by
  obtain ⟨entries, path⟩ := progress
  cases said with
  | table key =>
      obtain ⟨after, hafter, rfl⟩ := Option.map_eq_some_iff.mp h
      obtain ⟨front, last⟩ := key
      cases front with
      | nil =>
          refine .inr (.inl ⟨last, ?_⟩)
          obtain ⟨inner, hmay, rfl⟩ := openTable_eq_some hafter
          exact ⟨inner, rfl, hmay, rfl⟩
      | cons first front =>
          obtain ⟨item, hitem, rfl⟩ := Entries.alter_eq_some hafter
          exact .inr (.inr ⟨item, nofun, throughHeader_eq_some hitem, rfl⟩)
  | element key =>
      obtain ⟨after, hafter, rfl⟩ := Option.map_eq_some_iff.mp h
      obtain ⟨front, last⟩ := key
      cases front with
      | nil =>
          obtain ⟨item, hitem, rfl⟩ := openElement_eq_some hafter
          exact .inr (.inr ⟨item, nofun, hitem, rfl⟩)
      | cons first front =>
          obtain ⟨item, hitem, rfl⟩ := Entries.alter_eq_some hafter
          exact .inr (.inr ⟨item, nofun, throughHeader_eq_some hitem, rfl⟩)
  | pair key item =>
      obtain ⟨after, hafter, rfl⟩ := Option.map_eq_some_iff.mp h
      obtain ⟨front, last⟩ := key
      cases path with
      | nil =>
          cases front with
          | nil =>
              obtain ⟨hnew, rfl⟩ := Entries.add_eq_some hafter
              exact .inl ⟨last, item, rfl, rfl, hnew, rfl⟩
          | cons first front =>
              obtain ⟨item, hitem, rfl⟩ := Entries.alter_eq_some hafter
              exact .inr (.inr ⟨item, nofun, throughKey_eq_some hitem, rfl⟩)
      | cons first path =>
          obtain ⟨item, hitem, rfl⟩ := Entries.alter_eq_some hafter
          exact .inr (.inr ⟨item, nofun, throughHeader_eq_some hitem, rfl⟩)

/-- A header stays in force until the next one. -/
theorem Progress.path_add (h : progress.add said = some next) :
    next.path = said.header progress.path := by
  rcases add_cases h with ⟨key, item, rfl, hpath, -, rfl⟩ | ⟨key, inner, rfl, -, rfl⟩ |
    ⟨item, -, -, rfl⟩
  · exact hpath.symm
  · rfl
  · rfl

theorem Key.parts_ne_nil (key : Key) : key.parts ≠ [] :=
  List.append_ne_nil_of_right_ne_nil _ (List.cons_ne_nil _ _)

/-- No header is in force behind a value only if none was before it. -/
theorem Statement.header_eq_nil_iff {above : List String} :
    said.header above = [] ↔ said.IsPair ∧ above = [] := by
  cases said with
  | pair key item => exact (and_iff_right trivial).symm
  | table key => exact iff_of_false key.parts_ne_nil fun h => h.1
  | element key => exact iff_of_false key.parts_ne_nil fun h => h.1

/-! ### Many statements

Each result is an invariant of the progress, by `addAll_induction`. The three cases of one
statement are all that has to be looked at. -/

namespace Progress

variable {statements : List Statement}

/-- The last statement is added to what the others made. -/
theorem addAll_concat (progress : Progress) (statements : List Statement) (said : Statement) :
    progress.addAll (statements ++ [said]) =
      (progress.addAll statements).bind fun next => next.add said := by
  rw [addAll, List.foldlM_append]
  exact Option.bind_congr fun next _ => Option.bind_fun_some _

/-- What holds at the start and is kept by every statement holds of every document. -/
theorem addAll_induction {P : List Statement → Progress → Prop} (start : P [] {})
    (step : ∀ {statements progress said next}, addAll {} statements = some progress →
      P statements progress → progress.add said = some next → P (statements ++ [said]) next)
    (h : addAll {} statements = some progress) : P statements progress := by
  induction statements using List.reverseRecOn generalizing progress with
  | nil =>
      cases h
      exact start
  | append_singleton statements said ih =>
      rw [addAll_concat] at h
      obtain ⟨before, hbefore, hadd⟩ := Option.bind_eq_some_iff.mp h
      exact step hbefore (ih hbefore) hadd

/-- The keys at the top are distinct. -/
theorem nodup_keys (h : addAll {} statements = some progress) :
    (keys progress.entries).Nodup := by
  refine addAll_induction (P := fun _ progress => (keys progress.entries).Nodup)
    List.nodup_nil ?_ h
  intro statements progress said next _ ih hadd
  rcases add_cases hadd with ⟨key, item, -, -, hnew, rfl⟩ | ⟨key, inner, -, -, rfl⟩ |
    ⟨item, -, -, rfl⟩
  · exact Entries.nodup_concat ih hnew
  · refine Entries.nodup_concat ?_ ?_
    · rw [Entries.keys_erase]
      exact ih.filter _
    · rw [Entries.keys_erase]
      simp
  · exact Entries.nodup_put ih

/-- No header is in force as long as every line gives a value. -/
theorem path_eq_nil_iff (h : addAll {} statements = some progress) :
    progress.path = [] ↔ ∀ said ∈ statements, said.IsPair := by
  refine addAll_induction
    (P := fun statements progress => progress.path = [] ↔ ∀ said ∈ statements, said.IsPair)
    (by simp) ?_ h
  intro statements progress said next _ ih hadd
  rw [path_add hadd, Statement.header_eq_nil_iff, ih, List.forall_mem_append,
    List.forall_mem_singleton, and_comm]

/-- A value at the top stays as it is written, whatever comes after it. -/
theorem mem_entries_add {entry : String × Item} (hnodup : (keys progress.entries).Nodup)
    (hadd : progress.add said = some next) (hvalue : entry.2.IsValue)
    (hentry : entry ∈ progress.entries) : entry ∈ next.entries := by
  obtain ⟨key, item⟩ := entry
  -- what a statement changes was no value before
  have hother : ∀ {touched new}, MayBecome (progress.entries.find? touched) new →
      key ≠ touched := by
    rintro touched new hmay rfl
    exact hmay.1 item ((Entries.find?_eq_some_iff hnodup).mpr hentry) hvalue
  rcases add_cases hadd with ⟨k, new, -, -, -, rfl⟩ | ⟨k, inner, -, hmay, rfl⟩ |
    ⟨new, -, hmay, rfl⟩
  · exact List.mem_append_left _ hentry
  · exact List.mem_append_left _ (Entries.mem_erase.mpr ⟨hentry, hother hmay⟩)
  · exact (Entries.mem_put_of_ne (hother hmay)).mpr hentry

end Progress

/-- The value is given to a key at the top, on a line of its own above all headers. -/
def Written (statements : List Statement) (entry : String × Item) : Prop :=
  ∃ before after, statements = before ++ .plain entry :: after ∧
    ∀ said ∈ before, said.IsPair

/-- What is written stays written, whatever comes behind it. -/
theorem Written.append {statements : List Statement} {entry : String × Item}
    (h : Written statements entry) (more : List Statement) :
    Written (statements ++ more) entry := by
  obtain ⟨before, after, rfl, hbefore⟩ := h
  exact ⟨before, after ++ more, by simp, hbefore⟩

/-- A value is written among some lines, or by the last of them. -/
theorem written_concat {statements : List Statement} {entry : String × Item} :
    Written (statements ++ [said]) entry ↔
      Written statements entry ∨
        (said = .plain entry ∧ ∀ said ∈ statements, said.IsPair) := by
  constructor
  · rintro ⟨before, after, heq, hbefore⟩
    rcases List.eq_nil_or_concat after with rfl | ⟨after, last, rfl⟩
    · obtain ⟨rfl, hsaid⟩ := List.append_inj' heq rfl
      exact .inr ⟨List.singleton_inj.mp hsaid, hbefore⟩
    · rw [List.concat_eq_append, ← List.cons_append, ← List.append_assoc] at heq
      obtain ⟨rfl, -⟩ := List.append_inj' heq rfl
      exact .inl ⟨before, after, rfl, hbefore⟩
  · rintro (h | ⟨rfl, h⟩)
    · exact h.append [said]
    · exact ⟨statements, [], rfl, h⟩

namespace Progress

variable {statements : List Statement} {entry : String × Item}

/-- An entry at the top is a value that is written there, or a table that lines may add
to. -/
theorem mem_entries_cases (h : addAll {} statements = some progress) :
    ∀ entry ∈ progress.entries, Written statements entry ∨ entry.2.IsOpenTable := by
  refine addAll_induction (P := fun statements progress =>
    ∀ entry ∈ progress.entries, Written statements entry ∨ entry.2.IsOpenTable) nofun ?_ h
  intro statements progress said next hbefore ih hadd entry hentry
  have hkept : entry ∈ progress.entries →
      Written (statements ++ [said]) entry ∨ entry.2.IsOpenTable :=
    fun hentry => (ih entry hentry).imp_left fun hwritten => hwritten.append _
  rcases add_cases hadd with ⟨key, item, rfl, hpath, -, rfl⟩ | ⟨key, inner, -, hmay, rfl⟩ |
    ⟨item, -, hmay, rfl⟩
  · rcases List.mem_append.mp hentry with hold | hnew
    · exact hkept hold
    · cases List.mem_singleton.mp hnew
      exact .inl (written_concat.mpr (.inr ⟨rfl, (path_eq_nil_iff hbefore).mp hpath⟩))
  · rcases List.mem_append.mp hentry with hold | hnew
    · exact hkept (Entries.mem_erase.mp hold).1
    · cases List.mem_singleton.mp hnew
      exact .inr hmay.2
  · rcases Entries.mem_of_mem_put hentry with rfl | hold
    · exact .inr hmay.2
    · exact hkept hold

/-- A value that is written at the top is an entry there. -/
theorem mem_entries_of_written (h : addAll {} statements = some progress)
    (hvalue : entry.2.IsValue) (hwritten : Written statements entry) :
    entry ∈ progress.entries := by
  refine addAll_induction (P := fun statements progress =>
    Written statements entry → entry ∈ progress.entries) ?_ ?_ h hwritten
  · rintro ⟨before, after, heq, -⟩
    cases before <;> cases heq
  · intro statements progress said next hbefore ih hadd hwritten
    rcases written_concat.mp hwritten with hold | ⟨rfl, hpairs⟩
    · exact mem_entries_add (nodup_keys hbefore) hadd hvalue (ih hold)
    · rw [add_plain ((path_eq_nil_iff hbefore).mpr hpairs)] at hadd
      obtain ⟨entries, hentries, rfl⟩ := Option.map_eq_some_iff.mp hadd
      obtain ⟨-, rfl⟩ := Entries.add_eq_some hentries
      exact List.mem_append_right _ (List.mem_singleton_self _)

/-- If all that is at the top are values, nothing else is written. -/
theorem eq_map_plain (h : addAll {} statements = some progress)
    (hvalues : ∀ entry ∈ progress.entries, entry.2.IsValue) :
    statements = progress.entries.map .plain := by
  -- A table that lines may add to remains one, so none was ever opened.
  have hcases := addAll_induction (P := fun statements progress =>
    statements = progress.entries.map .plain ∨
      ∃ entry ∈ progress.entries, entry.2.IsOpenTable) (.inl rfl) ?_ h
  · rcases hcases with heq | ⟨entry, hentry, hopen⟩
    · exact heq
    · exact absurd (hvalues entry hentry) hopen.not_isValue
  intro statements progress said next hbefore ih hadd
  rcases add_cases hadd with ⟨key, item, rfl, -, -, rfl⟩ | ⟨key, inner, -, hmay, rfl⟩ |
    ⟨item, -, hmay, rfl⟩
  · rcases ih with rfl | ⟨entry, hentry, hopen⟩
    · exact .inl (by rw [List.map_append]; rfl)
    · exact .inr ⟨entry, List.mem_append_left _ hentry, hopen⟩
  · exact .inr ⟨_, List.mem_append_right _ (List.mem_singleton_self _), hmay.2⟩
  · exact .inr ⟨_, Entries.mem_put_self, hmay.2⟩

/-- Values with distinct keys can be written in any order. -/
theorem addAll_map_plain {entries more : Entries} (hnodup : (keys (entries ++ more)).Nodup) :
    addAll ⟨entries, []⟩ (more.map .plain) = some ⟨entries ++ more, []⟩ := by
  induction more generalizing entries with
  | nil => rw [List.append_nil]; rfl
  | cons entry more ih =>
      obtain ⟨key, item⟩ := entry
      have hkeys : keys (entries ++ (key, item) :: more) = keys entries ++ key :: keys more :=
        List.map_append
      have hnew : key ∉ keys entries := fun hmem =>
        (List.nodup_append.mp (hkeys ▸ hnodup)).2.2 key hmem key (List.mem_cons_self ..) rfl
      rw [List.append_cons] at hnodup ⊢
      rw [List.map_cons, addAll_cons, add_plain rfl, Entries.add_of_not_mem hnew]
      exact ih hnodup

end Progress

/-! ### Documents of values

If there are values only at the top, then the lines are these values, one for each, and the
entries are read off the lines. -/

/-- The entry that a line adds to the top, if it gives a value to a key there. -/
def Statement.entry? : Statement → Option (String × Item)
  | .pair ⟨[], key⟩ item => some (key, item)
  | _ => none

theorem filterMap_entry?_map_plain (entries : Entries) :
    (entries.map Statement.plain).filterMap Statement.entry? = entries := by
  rw [List.filterMap_map]
  exact List.filterMap_some

theorem map_plain_filterMap_entry? {statements : List Statement}
    (h : ∀ said ∈ statements, ∃ entry, said = .plain entry) :
    (statements.filterMap Statement.entry?).map .plain = statements := by
  induction statements with
  | nil => rfl
  | cons said statements ih =>
      obtain ⟨⟨entry, rfl⟩, hrest⟩ := List.forall_mem_cons.mp h
      rw [List.filterMap_cons_some (rfl : Statement.entry? (.plain entry) = some entry),
        List.map_cons, ih hrest]

/-- The lines of a document that has only values at the top are a document in any other
order as well, with the same entries in that order. -/
theorem document?_of_perm {statements others : List Statement} {entries : Entries}
    (h : document? statements = some entries) (hvalues : ∀ entry ∈ entries, entry.2.IsValue)
    (hperm : others.Perm statements) :
    ∃ rearranged : Entries, rearranged.Perm entries ∧ document? others = some rearranged := by
  obtain ⟨progress, hprogress, rfl⟩ := Option.map_eq_some_iff.mp h
  have hplain := Progress.eq_map_plain hprogress hvalues
  have hentries : (others.filterMap Statement.entry?).Perm progress.entries := by
    rw [← filterMap_entry?_map_plain progress.entries, ← hplain]
    exact hperm.filterMap _
  have hothers : (others.filterMap Statement.entry?).map .plain = others := by
    refine map_plain_filterMap_entry? fun said hsaid => ?_
    rw [hperm.mem_iff, hplain] at hsaid
    obtain ⟨entry, -, rfl⟩ := List.mem_map.mp hsaid
    exact ⟨entry, rfl⟩
  have hnodup : (keys (others.filterMap Statement.entry?)).Nodup :=
    (hentries.map Prod.fst).nodup_iff.mpr (Progress.nodup_keys hprogress)
  refine ⟨_, hentries, ?_⟩
  have hadd := @Progress.addAll_map_plain [] _ hnodup
  rw [hothers] at hadd
  rw [document?, hadd]
  rfl

end MessageExport.Toml
