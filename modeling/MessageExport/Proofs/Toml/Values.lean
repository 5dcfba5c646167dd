import MessageExport.Proofs.Toml.Lines
/-!
# MessageExport.Proofs.Toml.Values

Items that are written in one piece, and items that lines may **add to**.

What stands behind an equals sign is read as a value, and a value is complete
(`Reads.isValue`). Tables that come about otherwise, and arrays of tables, grow line by line.
-/

namespace MessageExport.Toml

namespace Item

/-- The item is written in one piece, as a value is. -/
def IsValue : Item → Prop
  | .table origin _ => origin = .inline
  | .tables _ => False
  | _ => True

/-- The item is a table, or an array of tables, to which lines may add. -/
def IsOpenTable : Item → Prop
  | .table origin _ => origin ≠ .inline
  | .tables elements => elements ≠ []
  | _ => False

/-- What lines may add to is not written in one piece. -/
theorem IsOpenTable.not_isValue {item : Item} (h : item.IsOpenTable) : ¬item.IsValue := by
  cases item with
  | table origin entries => exact h
  | tables elements => exact id
  | _ => exact h.elim

end Item

/-! ### What is read as a value

One lemma for each function that reads a part of a value, in the order in which they call each
other. The kind of item that is made shows in the branch that makes it, and no branch makes an
array of tables or a table with a header. -/

variable {s rest : List Char} {item : Item}

/-- Integers are values. -/
theorem isValue_integer? {isNegative : Bool} {size : Nat}
    (h : integer? isNegative size = some item) : item.IsValue := by
  unfold integer? at h
  split at h <;> split at h <;> cases h <;> trivial

/-- Reals are values. -/
theorem isValue_real? {isNegative : Bool} {significand : Nat} {power : Int}
    (h : real? isNegative significand power = some item) : item.IsValue := by
  unfold real? at h
  split at h
  · cases h
    trivial
  · split at h <;> cases h
    trivial

/-- What begins with digits is an integer or a real. -/
theorem isValue_numberTail {isNegative : Bool} {whole : List Char}
    (h : numberTail isNegative whole s = some (item, rest)) : item.IsValue := by
  unfold numberTail at h
  split at h
  · simp only [Option.bind_eq_bind, Option.bind_eq_some_iff, Option.some.injEq,
      Prod.mk.injEq] at h
    obtain ⟨_, _, _, _, _, hitem, rfl, -⟩ := h
    exact isValue_real? hitem
  · split at h
    · simp only [Option.bind_eq_bind, Option.bind_eq_some_iff, Option.some.injEq,
        Prod.mk.injEq] at h
      obtain ⟨_, _, _, hitem, rfl, -⟩ := h
      exact isValue_real? hitem
    · obtain ⟨_, hitem, heq⟩ := Option.bind_eq_some_iff.mp h
      cases heq
      exact isValue_integer? hitem
  · obtain ⟨_, hitem, heq⟩ := Option.bind_eq_some_iff.mp h
    cases heq
    exact isValue_integer? hitem

theorem isValue_basedInteger {base : Nat} (h : basedInteger base s = some (item, rest)) :
    item.IsValue := by
  obtain ⟨_, -, h⟩ := Option.bind_eq_some_iff.mp h
  obtain ⟨_, hitem, heq⟩ := Option.bind_eq_some_iff.mp h
  cases heq
  exact isValue_integer? hitem

/-- Numbers are values. -/
theorem isValue_number (h : number s = some (item, rest)) : item.IsValue := by
  unfold number at h
  split at h
  · exact isValue_basedInteger h
  · exact isValue_basedInteger h
  · exact isValue_basedInteger h
  · dsimp only at h
    split at h
    · cases h
      trivial
    · cases h
      trivial
    · obtain ⟨_, -, htail⟩ := Option.bind_eq_some_iff.mp h
      exact isValue_numberTail htail

/-- What begins with a digit may also be a date or a time. -/
theorem isValue_numberOrMoment (h : numberOrMoment s = some (item, rest)) : item.IsValue := by
  unfold numberOrMoment at h
  dsimp only at h
  split at h
  · obtain ⟨_, -, heq⟩ := Option.map_eq_some_iff.mp h
    cases heq
    trivial
  · split at h
    · obtain ⟨_, -, heq⟩ := Option.map_eq_some_iff.mp h
      cases heq
      trivial
    · exact isValue_number h

theorem item_of_word {letters : List Char} {found : Item}
    (h : word letters item s = some (found, rest)) : found = item := by
  unfold word at h
  split at h <;> cases h
  rfl

/-- What is read as a value is one. -/
theorem isValue_value {depth : Nat} (h : value depth s = some (item, rest)) :
    item.IsValue := by
  revert h
  fun_cases value depth s <;> intro h
  case case1 | case3 => cases h
  case case2 | case4 =>
    obtain ⟨_, -, heq⟩ := Option.bind_eq_some_iff.mp h
    cases heq
    trivial
  case case5 | case6 =>
    obtain ⟨_, -, heq⟩ := Option.map_eq_some_iff.mp h
    cases heq
    trivial
  case case7 | case8 | case9 | case10 =>
    rw [item_of_word h]
    trivial
  case case11 => exact isValue_numberOrMoment h

/-- What stands behind the equals sign of a line is a value. -/
theorem isValue_statement {key : Key} (h : statement s = some (some (.pair key item), rest)) :
    item.IsValue := by
  revert h
  fun_cases statement s <;> intro h
  case case5 =>
    obtain ⟨⟨⟨_, _⟩, _⟩, hpair, heq⟩ := Option.bind_eq_some_iff.mp h
    cases heq
    simp only [pair, Option.bind_eq_bind, Option.bind_eq_some_iff, Option.some.injEq,
      Prod.mk.injEq] at hpair
    obtain ⟨_, _, _, _, _, hvalue, ⟨-, rfl⟩, -⟩ := hpair
    exact isValue_value hvalue
  all_goals simp [Option.bind_eq_some_iff] at h

/-- What the lines of a text give to keys are values. -/
theorem Reads.isValue {statements : List Statement} (h : Reads s statements) :
    ∀ key item, .pair key item ∈ statements → item.IsValue := by
  induction h with
  | done => nofun
  | @line s rest after said statements hline _ _ ih =>
      intro key item hmem
      rcases List.mem_append.mp hmem with hsaid | hmore
      · cases said with
        | none => cases hsaid
        | some said =>
          cases List.mem_singleton.mp hsaid
          exact isValue_statement hline
      · exact ih key item hmore

end MessageExport.Toml
