import MessageExport.Proofs.Json.Walk
/-!
# MessageExport.Proofs.Json.Skipping

**Passing over** a value that nothing is read from.

Values are passed over in a loop, which keeps the containers that are open and takes steps
from a budget. Every part of a source takes some steps (`Passes`), at most two for each of
its characters, so that the budget lasts for the whole source.

## Shape of the proofs

The loop is stated once as steps (`skipFrom_nothing`, `skipFrom_opening`, `skipFrom_value`), and
what a step does on the text of a source is read off these: after a bracket, after a comma, at
the end of a container. `Passes` then talks about any number of steps at once. It holds for any
containers around and any text behind, so that parts can be chained: the walk over a list is
that over its first element followed by that over the others, which are the three mutual
theorems.

How many steps a part takes is an existential, for nothing but a bound is needed: two for each
character, which is what the budget of `skip` allows.
-/

namespace MessageExport.Json

/-! ### Scalars

Whether a string or a number means anything does not matter here. It is passed over by its form.
-/

/-- A scalar is passed over, whatever it says. -/
theorem skipScalar_spelling (v : Scalar) {rest : List Char} (hrest : Ends rest) :
    skipScalar (v.spelling ++ rest) = .ok rest := by
  match v with
  | .null | .boolean true | .boolean false => simp [Scalar.spelling, skipScalar, word]
  | .text parts =>
      simp only [Scalar.spelling, quotedParts, List.cons_append, List.append_assoc, skipScalar,
        List.nil_append, skipString_parts]
  | .number n =>
      have hnumber := skipNumber_append n hrest
      simp only [Scalar.spelling, Numeral.text]
      -- with a sign the number is found by the sign, without by its first digit
      cases hsign : n.isNegative with
      | true =>
          simp only [if_true, List.cons_append, skipScalar, hnumber]
      | false =>
          have hn := n.first.ne (c := 'n') (by decide)
          have ht := n.first.ne (c := 't') (by decide)
          have hf := n.first.ne (c := 'f') (by decide)
          have hquote := n.first.ne (c := '"') (by decide)
          have hminus := n.first.ne (c := '-') (by decide)
          simp only [Bool.false_eq_true, if_false]
          rw [Numeral.body, List.cons_append] at hnumber ⊢
          rw [skipScalar, if_pos n.first.property, hnumber] <;> assumption

/-- The name of a member is passed over with its colon, whatever it stands for. -/
theorem skipName_quotedParts (before after : List Blank) (parts : List TextPart)
    (rest : List Char) :
    skipName .object (blanksText before ++ '"' :: (partsText parts ++ '"' ::
        (blanksText after ++ ':' :: rest))) = .ok rest := by
  rw [skipName, trim_blanksText_cons (by decide)]
  simp only [if_true, skipString_parts]
  exact colon_blanksText _ _

/-! ### Steps of the walk

Each step depends on what was passed last: an opening bracket, a value, or nothing, where a
value has to come next. -/

section

variable (budget : Nat) (opened : List Container) (s : List Char)

/-- A step where a value comes next. -/
theorem skipFrom_nothing :
    skipFrom (budget + 1) .nothing opened s =
      match trim s with
      | '[' :: rest => skipFrom budget .opening (.array :: opened) rest
      | '{' :: rest => skipFrom budget .opening (.object :: opened) rest
      | s => skipScalar s >>= skipFrom budget .value opened :=
  rfl

/-- A step after an opening bracket. -/
theorem skipFrom_opening :
    skipFrom (budget + 1) .opening opened s =
      match opened, trim s with
      | [], s => skipFrom budget .nothing [] s
      | container :: _, [] => .error (container.cutOff.here [])
      | container :: outer, c :: rest =>
          if c = container.closing then skipFrom budget .value outer rest
          else skipName container (c :: rest) >>= skipFrom budget .nothing opened :=
  rfl

/-- A step after a value in a container. -/
theorem skipFrom_value (container : Container) :
    skipFrom (budget + 1) .value (container :: opened) s =
      match trim s with
      | [] => .error (container.cutOff.here [])
      | c :: rest =>
          if c = container.closing then skipFrom budget .value opened rest
          else if c = ',' then
            skipName container rest >>= skipFrom budget .nothing (container :: opened)
          else .error (container.noEnd.byteAfter (c :: rest)) :=
  rfl

end

/-- Passing over a part of a text takes steps: it uses up some of the budget and goes on
behind that part. -/
def Passes (passed : Passed) (opened outer : List Container) (part : List Char)
    (steps : Nat) : Prop :=
  ∀ budget blanks rest, Ends rest →
    skipFrom (budget + steps) passed opened (blanksText blanks ++ (part ++ rest)) =
      skipFrom budget .value outer rest

/-- A scalar takes one step. -/
theorem passes_scalar (opened : List Container) (v : Scalar) :
    Passes .nothing opened opened v.spelling 1 := by
  intro budget blanks rest hrest
  obtain ⟨c, more, hv, hblank, harray, hobject⟩ := v.exists_spelling_eq
  have hskip := skipScalar_spelling v hrest
  rw [skipFrom_nothing]
  rw [hv, List.cons_append] at hskip ⊢
  rw [trim_blanksText_cons hblank]
  split
  · rename_i heq
    exact absurd (List.cons.inj heq).1 harray
  · rename_i heq
    exact absurd (List.cons.inj heq).1 hobject
  · rw [hskip]
    rfl

/-- A bracket opens an array. -/
theorem skipFrom_array (opened : List Container) (budget : Nat) (blanks : List Blank)
    (rest : List Char) :
    skipFrom (budget + 1) .nothing opened (blanksText blanks ++ '[' :: rest) =
      skipFrom budget .opening (.array :: opened) rest := by
  rw [skipFrom_nothing, trim_blanksText_cons (by decide)]
  rfl

/-- A brace opens an object. -/
theorem skipFrom_object (opened : List Container) (budget : Nat) (blanks : List Blank)
    (rest : List Char) :
    skipFrom (budget + 1) .nothing opened (blanksText blanks ++ '{' :: rest) =
      skipFrom budget .opening (.object :: opened) rest := by
  rw [skipFrom_nothing, trim_blanksText_cons (by decide)]
  rfl

/-- The bracket that closes a container ends the walk over it, also right after it has
been opened. -/
theorem skipFrom_closing {passed : Passed} (hpassed : passed ≠ .nothing) (container : Container)
    (outer : List Container) (budget : Nat) (blanks : List Blank) (rest : List Char) :
    skipFrom (budget + 1) passed (container :: outer)
        (blanksText blanks ++ container.closing :: rest) =
      skipFrom budget .value outer rest := by
  have hblank : isBlank container.closing = false := by cases container <;> decide
  cases passed with
  | nothing => exact absurd rfl hpassed
  | opening => simp only [skipFrom_opening, trim_blanksText_cons hblank, if_true]
  | value => simp only [skipFrom_value, trim_blanksText_cons hblank, if_true]

/-- Right after a bracket comes the first element. -/
theorem skipFrom_opening_element (outer : List Container) (budget : Nat) (blanks : List Blank)
    (e : Source) (es : List Source) (rest : List Char) :
    skipFrom (budget + 1) .opening (.array :: outer)
        (blanksText blanks ++ (Source.listText true (e :: es) ++ rest)) =
      skipFrom budget .nothing (.array :: outer) (blanksText [] ++ (e.core ++
        (blanksText e.around.after ++ (Source.listText false es ++ rest)))) := by
  obtain ⟨c, more, hcore, hblank, hbracket⟩ := e.exists_core_eq
  rw [skipFrom_opening]
  simp only [Source.listText, if_true, List.nil_append, List.append_assoc, hcore,
    List.cons_append, trim_blanksText_append, trim_cons_of_not_isBlank hblank,
    Container.closing, hbracket, if_false]
  rfl

/-- After a comma comes the next element. -/
theorem skipFrom_comma_element (outer : List Container) (budget : Nat) (blanks : List Blank)
    (e : Source) (es : List Source) (rest : List Char) :
    skipFrom (budget + 1) .value (.array :: outer)
        (blanksText blanks ++ (Source.listText false (e :: es) ++ rest)) =
      skipFrom budget .nothing (.array :: outer) (blanksText e.around.before ++ (e.core ++
        (blanksText e.around.after ++ (Source.listText false es ++ rest)))) := by
  rw [skipFrom_value]
  simp only [Source.listText, List.append_assoc, List.cons_append, List.nil_append,
    Bool.false_eq_true, if_false, trim_blanksText_append]
  rw [trim_cons_of_not_isBlank (by decide)]
  rfl

/-- Right after a brace comes the first member, whose name is passed over in the same step. -/
theorem skipFrom_opening_member (outer : List Container) (budget : Nat) (blanks : List Blank)
    (name : MemberName) (value : Source) (ms : List (MemberName × Source)) (rest : List Char) :
    skipFrom (budget + 1) .opening (.object :: outer)
        (blanksText blanks ++ (Source.membersText true ((name, value) :: ms) ++ rest)) =
      skipFrom budget .nothing (.object :: outer) (blanksText value.around.before ++
        (value.core ++ (blanksText value.around.after ++
          (Source.membersText false ms ++ rest)))) := by
  have hname := skipName_quotedParts [] name.around.after name.parts
  rw [skipFrom_opening]
  simp only [Source.membersText, MemberName.text, quotedParts, if_true, List.nil_append,
    List.append_assoc, List.cons_append, trim_blanksText_append]
  rw [trim_cons_of_not_isBlank (by decide)]
  simp only [blanksText, List.map_nil, List.nil_append] at hname ⊢
  simp only [Container.closing, Char.reduceEq, if_false, hname]
  rfl

/-- After a comma comes the next member, whose name is passed over in the same step. -/
theorem skipFrom_comma_member (outer : List Container) (budget : Nat) (blanks : List Blank)
    (name : MemberName) (value : Source) (ms : List (MemberName × Source)) (rest : List Char) :
    skipFrom (budget + 1) .value (.object :: outer)
        (blanksText blanks ++ (Source.membersText false ((name, value) :: ms) ++ rest)) =
      skipFrom budget .nothing (.object :: outer) (blanksText value.around.before ++
        (value.core ++ (blanksText value.around.after ++
          (Source.membersText false ms ++ rest)))) := by
  have hname := skipName_quotedParts name.around.before name.around.after name.parts
  rw [skipFrom_value]
  simp only [Source.membersText, MemberName.text, quotedParts, List.append_assoc,
    List.cons_append, List.nil_append, Bool.false_eq_true, if_false, trim_blanksText_append]
  rw [trim_cons_of_not_isBlank (by decide)]
  simp only [Container.closing, Char.reduceEq, if_false, if_true, hname]
  rfl

mutual

/-- A value is passed over in two steps a character. -/
theorem passes_core : ∀ s : Source, ∃ steps, steps ≤ 2 * s.core.length ∧
    ∀ opened, Passes .nothing opened opened s.core steps
  | .scalar around v => by
      have hlength := (Source.scalar around v).core_length_pos
      refine ⟨1, by omega, fun opened => ?_⟩
      rw [Source.core]
      exact passes_scalar opened v
  -- an empty container takes a step for each of its brackets
  | .array _ inner [] => by
      refine ⟨2, ?_, ?_⟩
      · simp only [Source.core, List.length_cons]
        omega
      · intro opened budget blanks rest hrest
        simp only [Source.core, Source.listText, List.append_nil, List.cons_append,
          List.append_assoc, List.nil_append]
        rw [skipFrom_array]
        exact skipFrom_closing (by decide) .array opened budget inner rest
  -- the bracket, the first element, and then all others up to the closing bracket
  | .array _ inner (e :: es) => by
      obtain ⟨steps, hsteps, he⟩ := passes_core e
      obtain ⟨more, hmore, hes⟩ := passes_elements es
      refine ⟨more + steps + 2, ?_, ?_⟩
      · simp only [Source.core, Source.listText, List.length_cons, List.length_append]
        omega
      · intro opened budget blanks rest hrest
        have htail := hes opened budget e.around.after rest hrest
        simp only [Source.core, List.cons_append, List.append_assoc, List.nil_append] at htail ⊢
        rw [← Nat.add_assoc, ← Nat.add_assoc, skipFrom_array, skipFrom_opening_element,
          he _ _ _ _
          (ends_blanksText_append e.around.after (ends_listText es rest)), htail]
  | .object _ inner [] => by
      refine ⟨2, ?_, ?_⟩
      · simp only [Source.core, List.length_cons]
        omega
      · intro opened budget blanks rest hrest
        simp only [Source.core, Source.membersText, List.append_nil, List.cons_append,
          List.append_assoc, List.nil_append]
        rw [skipFrom_object]
        exact skipFrom_closing (by decide) .object opened budget inner rest
  | .object _ inner ((name, value) :: ms) => by
      obtain ⟨steps, hsteps, hvalue⟩ := passes_core value
      obtain ⟨more, hmore, hms⟩ := passes_members ms
      refine ⟨more + steps + 2, ?_, ?_⟩
      · simp only [Source.core, Source.membersText, List.length_cons, List.length_append]
        omega
      · intro opened budget blanks rest hrest
        have htail := hms opened budget value.around.after rest hrest
        simp only [Source.core, List.cons_append, List.append_assoc, List.nil_append] at htail ⊢
        rw [← Nat.add_assoc, ← Nat.add_assoc, skipFrom_object, skipFrom_opening_member,
          hvalue _ _ _ _
          (ends_blanksText_append value.around.after (ends_membersText ms rest)), htail]

/-- What comes behind an element, up to the end of the array, is passed over. -/
theorem passes_elements : ∀ es : List Source, ∃ steps,
    steps ≤ 2 * (Source.listText false es).length + 1 ∧
    ∀ outer, Passes .value (.array :: outer) outer (Source.listText false es ++ [']']) steps
  | [] => ⟨1, Nat.le_add_left _ _, fun outer budget blanks rest _ =>
      skipFrom_closing (by decide) .array outer budget blanks rest⟩
  | e :: es => by
      obtain ⟨steps, hsteps, he⟩ := passes_core e
      obtain ⟨more, hmore, hes⟩ := passes_elements es
      refine ⟨more + steps + 1, ?_, ?_⟩
      · simp only [Source.listText, List.length_cons, List.length_append, Bool.false_eq_true,
          if_false]
        omega
      · intro outer budget blanks rest hrest
        have htail := hes outer budget e.around.after rest hrest
        simp only [List.cons_append, List.append_assoc, List.nil_append] at htail ⊢
        rw [← Nat.add_assoc, ← Nat.add_assoc, skipFrom_comma_element, he _ _ _ _
          (ends_blanksText_append e.around.after (ends_listText es rest)), htail]

/-- What comes behind a member, up to the end of the object, is passed over. -/
theorem passes_members : ∀ ms : List (MemberName × Source), ∃ steps,
    steps ≤ 2 * (Source.membersText false ms).length + 1 ∧
    ∀ outer, Passes .value (.object :: outer) outer (Source.membersText false ms ++ ['}']) steps
  | [] => ⟨1, Nat.le_add_left _ _, fun outer budget blanks rest _ =>
      skipFrom_closing (by decide) .object outer budget blanks rest⟩
  | (name, value) :: ms => by
      obtain ⟨steps, hsteps, hvalue⟩ := passes_core value
      obtain ⟨more, hmore, hms⟩ := passes_members ms
      refine ⟨more + steps + 1, ?_, ?_⟩
      · simp only [Source.membersText, List.length_cons, List.length_append,
          Bool.false_eq_true, if_false]
        omega
      · intro outer budget blanks rest hrest
        have htail := hms outer budget value.around.after rest hrest
        simp only [List.cons_append, List.append_assoc, List.nil_append] at htail ⊢
        rw [← Nat.add_assoc, ← Nat.add_assoc, skipFrom_comma_member, hvalue _ _ _ _
          (ends_blanksText_append value.around.after (ends_membersText ms rest)), htail]

end

/-- Any value is passed over. -/
theorem skip_core (s : Source) (blanks : List Blank) {rest : List Char} (hrest : Ends rest) :
    skip (blanksText blanks ++ (s.core ++ rest)) = .ok rest := by
  obtain ⟨steps, hsteps, hs⟩ := passes_core s
  have hbudget : ∃ budget,
      2 * (blanksText blanks ++ (s.core ++ rest)).length + 2 = budget + 1 + steps := by
    simp only [List.length_append]
    exact ⟨2 * ((blanksText blanks).length + (s.core.length + rest.length)) + 1 - steps, by omega⟩
  obtain ⟨budget, hbudget⟩ := hbudget
  rw [skip, hbudget, hs [] (budget + 1) blanks rest hrest]
  rfl

end MessageExport.Json
