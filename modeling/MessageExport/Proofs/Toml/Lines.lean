import MessageExport.Proofs.Toml.Forward
/-!
# MessageExport.Proofs.Toml.Lines

A TOML document is **lines**, and what a line says does not depend on the lines above it.

The reader adds to the entries of a document while it reads. Here the two are taken apart:
each line is read by itself, as a statement (`statement`), and a document is built from its
statements one after another (`document?`). A text is a document exactly if its lines can be
read down to the last one, and no statement contradicts those before it
(`parse?_eq_some_iff`).
-/

namespace MessageExport.Toml

/-- The parts of a key. -/
def Key.parts (key : Key) : List String :=
  key.path ++ [key.last]

/-- What a line can say. -/
inductive Statement where
  /-- The header of a table. -/
  | table (key : Key)
  /-- The header of an element of an array of tables. -/
  | element (key : Key)
  /-- A key with a value. -/
  | pair (key : Key) (item : Item)

namespace Progress

/-- Add a statement to what has been read. -/
def add (progress : Progress) : Statement → Option Progress
  | .table key =>
      (within (openTable key.last) key.path progress.entries).map fun entries =>
        ⟨entries, key.parts⟩
  | .element key =>
      (within (openElement key.last) key.path progress.entries).map fun entries =>
        ⟨entries, key.parts⟩
  | .pair key item =>
      (within (addValue key.last item key.path) progress.path progress.entries).map
        fun entries => { progress with entries }

/-- Add what a line says, if it says something. -/
def take (progress : Progress) (said : Option Statement) : Option Progress :=
  said.elim (some progress) progress.add

/-- Add statements one after another. -/
def addAll (progress : Progress) (statements : List Statement) : Option Progress :=
  statements.foldlM add progress

theorem addAll_cons (progress : Progress) (said : Statement) (statements : List Statement) :
    progress.addAll (said :: statements) =
      (progress.add said).bind fun next => next.addAll statements :=
  List.foldlM_cons

theorem addAll_toList_append (progress : Progress) (said : Option Statement)
    (statements : List Statement) :
    progress.addAll (said.toList ++ statements) =
      (progress.take said).bind fun next => next.addAll statements := by
  cases said with
  | none => rfl
  | some said => exact addAll_cons progress said statements

end Progress

/-- The entries that statements make. -/
def document? (statements : List Statement) : Option Entries :=
  (Progress.addAll {} statements).map Progress.entries

/-! ### Reading a line by itself -/

/-- Read a line by itself, up to its end; an empty one says nothing. -/
def statement : Step (Option Statement)
  | '[' :: '[' :: rest => do
      let (key, rest) ← key rest
      let rest ← mark ']' (← mark ']' rest)
      some (some (.element key), rest)
  | '[' :: rest => do
      let (key, rest) ← key rest
      let rest ← mark ']' rest
      some (some (.table key), rest)
  | '#' :: rest => some (none, '#' :: rest)
  | s =>
      match newline? s with
      | some _ => some (none, s)
      | none => do
          let ((key, item), rest) ← pair (value (nestingLimit - 1)) s
          some (some (.pair key item), rest)

/-- A line is read by itself, and then what it says is added. -/
theorem line_eq (progress : Progress) (s : List Char) :
    line progress s =
      (statement s).bind fun (said, rest) => (progress.take said).map fun next => (next, rest) := by
  fun_cases statement s with
  | case1 rest =>
      simp only [line, elementHeader, Progress.take, Progress.add, Option.elim_some,
        Option.bind_eq_bind, Option.bind_assoc, Option.bind_some, Option.map_eq_bind]
      rfl
  | case2 rest hnot =>
      rw [line]
      · simp only [tableHeader, Progress.take, Progress.add, Option.elim_some,
          Option.bind_eq_bind, Option.bind_assoc, Option.bind_some, Option.map_eq_bind]
        rfl
      · exact hnot
  | case3 => rfl
  | case4 s hnotElement hnotTable hnotComment after hnewline =>
      rw [line, hnewline]
      · rfl
      all_goals assumption
  | case5 s hnotElement hnotTable hnotComment hnewline =>
      rw [line, hnewline]
      · simp only [pairLine, Progress.take, Progress.add, Option.elim_some,
          Option.bind_eq_bind, Option.bind_assoc, Option.bind_some, Option.map_eq_bind]
        rfl
      all_goals assumption

/-! ### The lines of a text -/

theorem lineEnd?_comment {tail after : List Char} (h : lineEnd? ('#' :: tail) = some after) :
    after <:+ tail :=
  (lineEnd?_suffix_afterComment h).trans (List.dropWhile_suffix _)

theorem lineEnd?_of_newline? {s rest after : List Char} (h : newline? s = some rest)
    (hend : lineEnd? s = some after) : after.length < s.length := by
  unfold newline? at h
  split at h
  · cases hend
    exact Nat.lt_succ_self _
  · cases hend
    exact Nat.lt_succ_of_lt (Nat.lt_succ_self _)
  · cases h

/-- A line with its end takes at least one character. -/
theorem lineEnd?_length {s rest after : List Char} {said : Option Statement}
    (h : statement s = some (said, rest)) (hend : lineEnd? rest = some after) :
    after.length < s.length := by
  have hafter : after.length ≤ rest.length := (lineEnd?_suffix hend).length_le
  -- a header loses its brackets, a comment its mark and a pair its equals sign, but an empty
  -- line is only taken with its end
  revert h
  fun_cases statement s with
  | case1 tail =>
      intro h
      simp only [Option.bind_eq_bind, Option.bind_eq_some_iff, Prod.exists, Option.some.injEq,
        Prod.mk.injEq] at h
      obtain ⟨k, s₁, hkey, s₂, hmark, s₃, hmark', -, rfl⟩ := h
      have hread := (forward_key hkey).length_le
      rw [mark_suffix hmark, mark_suffix hmark'] at hread
      simp only [List.length_cons] at hread ⊢
      omega
  | case2 tail =>
      intro h
      simp only [Option.bind_eq_bind, Option.bind_eq_some_iff, Prod.exists, Option.some.injEq,
        Prod.mk.injEq] at h
      obtain ⟨k, s₁, hkey, s₂, hmark, -, rfl⟩ := h
      have hread := (forward_key hkey).length_le
      rw [mark_suffix hmark] at hread
      simp only [List.length_cons] at hread ⊢
      omega
  | case3 tail =>
      intro h
      cases h
      have hcomment := (lineEnd?_comment hend).length_le
      rw [List.length_cons]
      omega
  | case4 _ _ _ _ _ hnewline =>
      intro h
      cases h
      exact lineEnd?_of_newline? hnewline hend
  | case5 =>
      intro h
      simp only [Option.bind_eq_bind, Option.bind_eq_some_iff, Prod.exists, Option.some.injEq,
        Prod.mk.injEq] at h
      obtain ⟨k, item, s₁, hpair, -, rfl⟩ := h
      obtain ⟨tail, htail, hrest⟩ := pair_suffix (forward_value _) hpair
      have hread := htail.length_le
      have hleft := hrest.length_le
      simp only [List.length_cons] at hread
      omega

/-- The text is lines that say these things, one after another. -/
inductive Reads : List Char → List Statement → Prop where
  | done {s : List Char} (h : trim s = []) : Reads s []
  | line {s rest after : List Char} {said : Option Statement} {statements : List Statement}
      (hline : statement (trim s) = some (said, rest)) (hend : lineEnd? rest = some after)
      (hrest : Reads after statements) : Reads s (said.toList ++ statements)

theorem statement_nil : statement [] = none :=
  rfl

theorem reads_iff {s : List Char} {statements : List Statement} :
    Reads s statements ↔
      (trim s = [] ∧ statements = []) ∨
        ∃ said rest after more, statement (trim s) = some (said, rest) ∧
          lineEnd? rest = some after ∧ Reads after more ∧ statements = said.toList ++ more := by
  constructor
  · intro h
    cases h with
    | done h => exact .inl ⟨h, rfl⟩
    | line hline hend hrest => exact .inr ⟨_, _, _, _, hline, hend, hrest, rfl⟩
  · rintro (⟨h, rfl⟩ | ⟨said, rest, after, more, hline, hend, hrest, rfl⟩)
    · exact .done h
    · exact .line hline hend hrest

/-- The lines of a text say one thing. -/
theorem Reads.functional {s : List Char} {statements others : List Statement}
    (h : Reads s statements) (h' : Reads s others) : statements = others := by
  induction h generalizing others with
  | done htrim =>
      rcases reads_iff.mp h' with ⟨-, rfl⟩ | ⟨said, rest, after, more, hline, -⟩
      · rfl
      · rw [htrim, statement_nil] at hline
        cases hline
  | line hline hend _ ih =>
      rcases reads_iff.mp h' with ⟨htrim, -⟩ | ⟨said, rest, after, more, hline', hend', hmore, rfl⟩
      · rw [htrim, statement_nil] at hline
        cases hline
      · cases hline.symm.trans hline'
        cases hend.symm.trans hend'
        rw [ih hmore]

/-- One round of the reader: a line, what it says, and the end of it. -/
theorem lines_of_trim_ne_nil {s : List Char} (hne : trim s ≠ []) (budget : Nat)
    (progress : Progress) :
    lines (budget + 1) progress s =
      (statement (trim s)).bind fun read => (progress.take read.1).bind fun next =>
        (lineEnd? read.2).bind (lines budget next) := by
  rw [lines]
  split
  · rename_i hnil
    exact absurd hnil hne
  · rw [line_eq]
    simp only [Option.bind_eq_bind, Option.bind_assoc, Option.map_eq_bind]
    rfl

/-- The lines that are left are read exactly if each of them can be read by itself and what
they say fits together. So many rounds as there are characters are enough. -/
theorem lines_eq_some_iff {budget : Nat} {progress : Progress} {s : List Char}
    {entries : Entries} (hbudget : s.length < budget) :
    lines budget progress s = some entries ↔
      ∃ statements, Reads s statements ∧
        (progress.addAll statements).map Progress.entries = some entries := by
  induction budget generalizing progress s with
  | zero => exact absurd hbudget (Nat.not_lt_zero _)
  | succ budget ih =>
      have htrim : (trim s).length ≤ s.length := (trim_suffix s).length_le
      by_cases hnil : trim s = []
      · have hlines : lines (budget + 1) progress s = some progress.entries := by
          rw [lines, hnil]
        rw [hlines]
        constructor
        · intro h
          exact ⟨[], .done hnil, h⟩
        · rintro ⟨statements, hreads, h⟩
          obtain rfl := hreads.functional (.done hnil)
          exact h
      · rw [lines_of_trim_ne_nil hnil]
        constructor
        · intro h
          obtain ⟨⟨said, rest⟩, hsaid, h⟩ := Option.bind_eq_some_iff.mp h
          obtain ⟨next, hnext, h⟩ := Option.bind_eq_some_iff.mp h
          obtain ⟨after, hend, h⟩ := Option.bind_eq_some_iff.mp h
          -- every round takes a character, so the rounds that are left are enough
          have hshorter := lineEnd?_length hsaid hend
          obtain ⟨statements, hreads, h⟩ := (ih (by omega)).mp h
          refine ⟨_, .line hsaid hend hreads, ?_⟩
          rw [Progress.addAll_toList_append, hnext]
          exact h
        · rintro ⟨statements, hreads, h⟩
          rcases reads_iff.mp hreads with
            ⟨htrim, -⟩ | ⟨said, rest, after, more, hsaid, hend, hmore, rfl⟩
          · exact absurd htrim hnil
          · have hshorter := lineEnd?_length hsaid hend
            rw [Progress.addAll_toList_append, Option.map_bind] at h
            obtain ⟨next, hnext, h⟩ := Option.bind_eq_some_iff.mp h
            refine Option.bind_eq_some_iff.mpr ⟨_, hsaid, Option.bind_eq_some_iff.mpr
              ⟨next, hnext, Option.bind_eq_some_iff.mpr ⟨after, hend, ?_⟩⟩⟩
            exact (ih (by omega)).mpr ⟨more, hmore, h⟩

/-! ### Documents -/

/-- The characters of a text behind a mark of the byte order. -/
def afterMark (text : String) : List Char :=
  match text.toList with
  | '\uFEFF' :: rest => rest
  | s => s

/-- The text is a document that says these things line by line and has these entries. -/
structure IsDocument (text : String) (statements : List Statement) (entries : Entries) :
    Prop where
  reads : Reads (afterMark text) statements
  makes : document? statements = some entries

/-- A text says one thing and has one list of entries. -/
theorem IsDocument.unique {text : String} {statements others : List Statement}
    {entries otherEntries : Entries} (h : IsDocument text statements entries)
    (h' : IsDocument text others otherEntries) :
    statements = others ∧ entries = otherEntries := by
  obtain rfl := h.reads.functional h'.reads
  exact ⟨rfl, Option.some.inj (h.makes.symm.trans h'.makes)⟩

/-- **What is a document.** A text has entries exactly if its lines can be read one by one,
down to the last, and what they say makes these entries. -/
theorem parse?_eq_some_iff {text : String} {entries : Entries} :
    parse? text = some entries ↔ ∃ statements, IsDocument text statements entries := by
  have hlines := @lines_eq_some_iff _ {} _ entries (Nat.lt_succ_self (afterMark text).length)
  refine Iff.trans hlines ⟨?_, ?_⟩
  · rintro ⟨statements, hreads, hmakes⟩
    exact ⟨statements, hreads, hmakes⟩
  · rintro ⟨statements, hreads, hmakes⟩
    exact ⟨statements, hreads, hmakes⟩

end MessageExport.Toml
