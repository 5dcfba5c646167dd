import MessageExport.Proofs.Json.Numbers
/-!
# MessageExport.Proofs.Json.Walk

Reading the **values** of a JSON text.

A reader *reads* a source as something that its content determines if it leaves exactly
what follows the source, whatever blanks stand before it (`Reads`). The walks over arrays
and objects are taken through once, for every reader of their contents: over an array
they collect, over an object they fold.
-/

namespace MessageExport.Json

open MessageExport.Text (isDigit)

variable {ε α σ : Type}

/-! ### What may follow

Numbers are the only values that do not say where they end. So every reader asks that no number
goes on behind its source (`Ends`), and this is so before a blank, a comma or a closing bracket.
-/

/-- A blank is no part of a number. -/
theorem Blank.ends (blank : Blank) : isDigit blank.val = false ∧ blank.val ≠ '.' ∧
    blank.val ≠ 'e' ∧ blank.val ≠ 'E' := by
  obtain ⟨c, hc⟩ := blank
  simp only [isBlank, Bool.or_eq_true, beq_iff_eq] at hc
  rcases hc with ((rfl | rfl) | rfl) | rfl <;> (dsimp only; decide)

@[simp] theorem blanksText_nil : blanksText [] = [] := rfl

/-- Blanks end a number, or what is behind them does. -/
theorem ends_blanksText_append (blanks : List Blank) {rest : List Char} (h : Ends rest) :
    Ends (blanksText blanks ++ rest) := by
  cases blanks with
  | nil => exact h
  | cons blank blanks => exact ends_cons blank.ends _

/-- Behind an element comes a comma or the closing bracket. -/
theorem ends_listText (es : List Source) (rest : List Char) :
    Ends (Source.listText false es ++ ']' :: rest) := by
  cases es with
  | nil => exact ends_cons (by decide) _
  | cons e es => exact ends_cons (by decide) _

/-- Behind a member comes a comma or the closing brace. -/
theorem ends_membersText (ms : List (MemberName × Source)) (rest : List Char) :
    Ends (Source.membersText false ms ++ '}' :: rest) := by
  cases ms with
  | nil => exact ends_cons (by decide) _
  | cons m ms => exact ends_cons (by decide) _

/-! ### Where a value begins

A reader decides by the first character. These lemmas say which characters that can be, for
values of each kind, and which kind a character gives away. -/

theorem Digit.ne (d : Digit) {c : Char} (h : isDigit c = false) : d.val ≠ c := by
  rintro rfl
  exact absurd d.property (by simp [h])

theorem Digit.not_isBlank (d : Digit) : isBlank d.val = false := by
  simp [isBlank, d.ne (c := ' ') (by decide), d.ne (c := '\n') (by decide),
    d.ne (c := '\t') (by decide), d.ne (c := '\r') (by decide)]

/-- A value begins with a character that is no blank and closes no array. -/
theorem Source.exists_core_eq (s : Source) :
    ∃ c more, s.core = c :: more ∧ isBlank c = false ∧ c ≠ ']' := by
  match s with
  | .scalar _ .null => exact ⟨_, _, rfl, by decide, by decide⟩
  | .scalar _ (.boolean true) => exact ⟨_, _, rfl, by decide, by decide⟩
  | .scalar _ (.boolean false) => exact ⟨_, _, rfl, by decide, by decide⟩
  | .scalar _ (.text parts) => exact ⟨_, _, rfl, by decide, by decide⟩
  | .array _ _ _ => exact ⟨_, _, by rw [core], by decide, by decide⟩
  | .object _ _ _ => exact ⟨_, _, by rw [core], by decide, by decide⟩
  | .scalar _ (.number n) =>
      cases hsign : n.isNegative with
      | true =>
          refine ⟨'-', n.body, ?_, by decide, by decide⟩
          simp [core, Scalar.spelling, Numeral.text, hsign]
      | false =>
          refine ⟨n.first.val, digitsText n.more ++ n.tail, ?_, n.first.not_isBlank,
            n.first.ne (by decide)⟩
          simp [core, Scalar.spelling, Numeral.text, Numeral.body, hsign]

/-- A scalar opens no container. -/
theorem Scalar.exists_spelling_eq (v : Scalar) :
    ∃ c more, v.spelling = c :: more ∧ isBlank c = false ∧ c ≠ '[' ∧ c ≠ '{' := by
  match v with
  | .null | .boolean true | .boolean false | .text _ =>
      exact ⟨_, _, rfl, by decide, by decide, by decide⟩
  | .number n =>
      cases hsign : n.isNegative with
      | true =>
          refine ⟨'-', n.body, ?_, by decide, by decide, by decide⟩
          simp [spelling, Numeral.text, hsign]
      | false =>
          refine ⟨n.first.val, digitsText n.more ++ n.tail, ?_, n.first.not_isBlank,
            n.first.ne (by decide), n.first.ne (by decide)⟩
          simp [spelling, Numeral.text, Numeral.body, hsign]

/-- A number begins with a sign or a digit. -/
theorem Numeral.text_ne_cons (n : Numeral) {c : Char} (hminus : c ≠ '-')
    (hdigit : isDigit c = false) (more : List Char) : n.text ≠ c :: more := by
  intro h
  unfold text at h
  split at h
  · exact hminus (List.cons.inj h).1.symm
  · exact n.first.ne hdigit (List.cons.inj h).1

/-- Only a string begins with a quote. -/
theorem Scalar.eq_text_of_spelling {v : Scalar} {more : List Char}
    (h : v.spelling = '"' :: more) : ∃ parts, v = .text parts := by
  match v with
  | .text parts => exact ⟨parts, rfl⟩
  | .null | .boolean true | .boolean false => simp [spelling] at h
  | .number n => exact absurd h (n.text_ne_cons (by decide) (by decide) _)

/-- Only `null` begins with its letter. -/
theorem Scalar.eq_null_of_spelling {v : Scalar} {more : List Char}
    (h : v.spelling = 'n' :: more) : v = .null := by
  match v with
  | .null => rfl
  | .boolean true | .boolean false | .text _ => simp [spelling, quotedParts] at h
  | .number n => exact absurd h (n.text_ne_cons (by decide) (by decide) _)

theorem Source.content_eq_null_of_core {s : Source} {more : List Char}
    (h : s.core = 'n' :: more) : s.content = .null := by
  match s with
  | .scalar _ v =>
      obtain rfl := Scalar.eq_null_of_spelling h
      rfl
  | .array _ _ _ | .object _ _ _ => simp [core] at h

theorem Source.core_of_content_eq_null {s : Source} (h : s.content = .null) :
    s.core = ['n', 'u', 'l', 'l'] := by
  match s with
  | .scalar _ .null => rfl
  | .scalar _ (.boolean _) | .scalar _ (.number _) | .scalar _ (.text _) => cases h
  | .array _ _ _ | .object _ _ _ => cases h

/-- Blanks are trimmed off up to the value. -/
theorem Source.trim_core_append (s : Source) (blanks : List Blank) (rest : List Char) :
    trim (blanksText blanks ++ (s.core ++ rest)) = s.core ++ rest := by
  obtain ⟨c, more, hcore, hblank, -⟩ := s.exists_core_eq
  rw [trim_blanksText_append, hcore, List.cons_append, trim_cons_of_not_isBlank hblank]

/-- No value is spelt by nothing. -/
theorem Source.core_length_pos (s : Source) : 0 < s.core.length := by
  obtain ⟨c, more, hcore, -, -⟩ := s.exists_core_eq
  rw [hcore]
  exact Nat.succ_pos _

/-- An array has no more elements than characters. -/
theorem Source.length_le_listText (first : Bool) (es : List Source) :
    es.length ≤ (listText first es).length := by
  induction es generalizing first with
  | nil => exact Nat.zero_le _
  | cons e es ih =>
      have hcore := e.core_length_pos
      have hes := ih false
      simp only [listText, List.length_append, List.length_cons]
      omega

/-- An object has no more members than characters. -/
theorem Source.length_le_membersText (first : Bool) (ms : List (MemberName × Source)) :
    ms.length ≤ (membersText first ms).length := by
  induction ms generalizing first with
  | nil => exact Nat.zero_le _
  | cons m ms ih =>
      have hcore := m.2.core_length_pos
      have hms := ih false
      simp only [membersText, List.length_append, List.length_cons]
      omega

/-! ### Steps of the walks

One step looks for the next element or name, or for the end. Whether a comma is expected depends
on whether it is the first step. -/

theorem trim_blanksText_cons {c : Char} (hc : isBlank c = false) (blanks : List Blank)
    (rest : List Char) : trim (blanksText blanks ++ c :: rest) = c :: rest := by
  rw [trim_blanksText_append, trim_cons_of_not_isBlank hc]

/-- A colon is passed over, with the blanks before it. -/
theorem colon_blanksText (blanks : List Blank) (rest : List Char) :
    colon (blanksText blanks ++ ':' :: rest) = .ok rest := by
  rw [colon, trim_blanksText_cons (by decide)]
  rfl

/-- An array ends at its bracket. -/
theorem nextElement_end (first : Bool) (blanks : List Blank) (rest : List Char) :
    nextElement first (blanksText blanks ++ ']' :: rest) = .ok none := by
  rw [nextElement, trim_blanksText_cons (by decide)]
  rfl

/-- An array goes on with its next element. -/
theorem nextElement_listText (first : Bool) (blanks : List Blank) (e : Source)
    (es : List Source) (rest : List Char) :
    nextElement first (blanksText blanks ++ (Source.listText first (e :: es) ++ rest)) =
      .ok (some (e.core ++ (blanksText e.around.after ++ (Source.listText false es ++ rest)))) := by
  obtain ⟨c, more, hcore, hblank, hbracket⟩ := e.exists_core_eq
  have htrim (s : List Char) : trim (blanksText e.around.before ++ c :: s) = c :: s :=
    trim_blanksText_cons hblank _ _
  cases first with
  | true =>
      simp only [nextElement, Source.listText, if_true, List.nil_append, List.append_assoc,
        trim_blanksText_append, hcore, List.cons_append, htrim, hbracket, if_false]
  | false =>
      simp only [nextElement, Source.listText, List.append_assoc, List.cons_append,
        List.nil_append, Bool.false_eq_true, if_false, hcore]
      rw [trim_blanksText_cons (by decide)]
      simp only [Char.reduceEq, if_false, if_true, htrim, hbracket]

/-- An object ends at its brace. -/
theorem nextName_end (first : Bool) (blanks : List Blank) (rest : List Char) :
    nextName first (blanksText blanks ++ '}' :: rest) = .ok none := by
  rw [nextName, trim_blanksText_cons (by decide)]
  rfl

/-- What follows the name of the first of several members. -/
def afterName (name : MemberName) (value : Source) (ms : List (MemberName × Source))
    (rest : List Char) : List Char :=
  blanksText name.around.after ++ ':' :: (blanksText value.around.before ++ (value.core ++
    (blanksText value.around.after ++ (Source.membersText false ms ++ rest))))

/-- The name of the first member is the first token of the members. -/
theorem trim_membersText (blanks : List Blank) (name : MemberName) (value : Source)
    (ms : List (MemberName × Source)) (rest : List Char) :
    trim (blanksText blanks ++ (Source.membersText true ((name, value) :: ms) ++ rest)) =
      '"' :: (partsText name.parts ++ '"' :: afterName name value ms rest) := by
  simp only [Source.membersText, MemberName.text, quotedParts, if_true, List.nil_append,
    List.append_assoc, List.cons_append, trim_blanksText_append]
  exact trim_cons_of_not_isBlank (by decide) _

/-- An object goes on with its next member, if the name of that has a value. -/
theorem nextName_membersText (first : Bool) (blanks : List Blank) (name : MemberName)
    (value : Source) (ms : List (MemberName × Source)) (rest : List Char) :
    (nextName first (blanksText blanks ++
        (Source.membersText first ((name, value) :: ms) ++ rest))).toOption =
      (partsString? name.parts).map fun s => some (s, afterName name value ms rest) := by
  have htrim (s : List Char) :
      trim (blanksText name.around.before ++ '"' :: s) = '"' :: s :=
    trim_blanksText_cons (by decide) _ _
  have hname (s : List Char) : (memberName ('"' :: (partsText name.parts ++ '"' :: s))).toOption =
      (partsString? name.parts).map fun n => some (n, s) := by
    rw [memberName, toOption_bind, string_parts]
    cases partsString? name.parts <;> rfl
  cases first with
  | true =>
      simp only [nextName, trim_membersText, if_true]
      rw [if_neg (by decide), hname]
  | false =>
      simp only [nextName, Source.membersText, MemberName.text, quotedParts, if_false,
        List.nil_append, List.append_assoc, List.cons_append, Bool.false_eq_true]
      rw [trim_blanksText_cons (by decide)]
      simp [htrim, hname, afterName]

/-! ### Readers

The walks recurse on a budget, and the lemmas on the elements or members. The budget is more
than there are of them, so it is never used up. -/

/-- A reader finds in a source what its content determines, and leaves what follows. -/
def Reads (step : StepOf ε α) (find : Content → Option α) (s : Source) : Prop :=
  ∀ blanks rest, Ends rest →
    (step (blanksText blanks ++ (s.core ++ rest))).toOption =
      (find s.content).map fun a => (a, rest)

/-- The elements of an array are read one by one. -/
theorem elements_listText (lift : Failure → ε) {element : StepOf ε α}
    {find : Content → Option α} {es : List Source} (hes : ∀ e ∈ es, Reads element find e)
    {budget : Nat} (hbudget : es.length < budget) (first : Bool) (blanks : List Blank)
    (rest : List Char) :
    (elements lift element budget first
        (blanksText blanks ++ (Source.listText first es ++ ']' :: rest))).toOption =
      ((Source.contents es).mapM find).map fun as => (as, ']' :: rest) := by
  induction es generalizing budget first blanks with
  | nil =>
      obtain ⟨budget, rfl⟩ := Nat.exists_eq_add_one_of_ne_zero (Nat.ne_zero_of_lt hbudget)
      simp only [Source.listText, List.nil_append, elements, nextElement_end]
      rw [trim_blanksText_cons (by decide)]
      rfl
  | cons e es ih =>
      obtain ⟨budget, rfl⟩ := Nat.exists_eq_add_one_of_ne_zero (Nat.ne_zero_of_lt hbudget)
      have he := hes e List.mem_cons_self [] _ (ends_blanksText_append e.around.after
        (ends_listText es rest))
      have hes' := fun blanks => ih (fun e he => hes e (List.mem_cons_of_mem _ he))
        (Nat.lt_of_succ_lt_succ hbudget) false blanks
      rw [elements, nextElement_listText]
      simp only [toOption_bind]
      simp only [blanksText, List.map_nil, List.nil_append] at he
      simp only [blanksText] at hes' ⊢
      rw [he]
      cases hfind : find e.content with
      | none => simp [Source.contents, hfind]
      | some a =>
          simp only [Option.map_some, Option.bind_some, hes', Source.contents,
            List.mapM_cons, hfind]
          cases (Source.contents es).mapM find <;> rfl

/-- The members of an object are read one after another onto what was gathered. -/
theorem members_membersText (lift : Failure → ε) {member : σ → String → StepOf ε σ}
    (put : σ → String → Content → Option σ) {ms : List (MemberName × Source)}
    (hms : ∀ m ∈ ms, ∀ gathered name colonBlanks blanks rest, Ends rest →
      (member gathered name (blanksText colonBlanks ++ ':' ::
          (blanksText blanks ++ (m.2.core ++ rest)))).toOption =
        (put gathered name m.2.content).map fun gathered => (gathered, rest))
    {budget : Nat} (hbudget : ms.length < budget) (first : Bool) (gathered : σ)
    (blanks : List Blank) (rest : List Char) :
    (members lift member budget first gathered
        (blanksText blanks ++ (Source.membersText first ms ++ '}' :: rest))).toOption =
      ((Source.memberContents ms).foldlM
        (fun gathered (m : Option String × Content) =>
          m.1.bind fun name => put gathered name m.2) gathered).map
          fun gathered => (gathered, '}' :: rest) := by
  induction ms generalizing budget first gathered blanks with
  | nil =>
      obtain ⟨budget, rfl⟩ := Nat.exists_eq_add_one_of_ne_zero (Nat.ne_zero_of_lt hbudget)
      simp only [Source.membersText, List.nil_append, members, nextName_end]
      rw [trim_blanksText_cons (by decide)]
      rfl
  | cons m ms ih =>
      obtain ⟨budget, rfl⟩ := Nat.exists_eq_add_one_of_ne_zero (Nat.ne_zero_of_lt hbudget)
      obtain ⟨name, value⟩ := m
      have hnext := nextName_membersText first blanks name value ms ('}' :: rest)
      have hms' := fun gathered => ih (fun m hm => hms m (List.mem_cons_of_mem _ hm))
        (Nat.lt_of_succ_lt_succ hbudget) false gathered value.around.after
      simp only [Source.memberContents, List.foldlM_cons]
      rw [members]
      -- a name that is no string stops the walk, and the content has none there either
      cases hparts : partsString? name.parts with
      | none =>
          simp only [hparts, Option.map_none] at hnext
          generalize nextName first _ = found at hnext
          cases found with
          | error failure => rfl
          | ok found => cases hnext
      | some s =>
          simp only [hparts, Option.map_some, toOption_eq_some] at hnext
          simp only [hnext, toOption_bind]
          have hm := hms _ List.mem_cons_self gathered s name.around.after value.around.before _
            (ends_blanksText_append value.around.after (ends_membersText ms rest))
          rw [afterName, hm]
          cases hput : put gathered s value.content with
          | none => simp [hput]
          | some gathered => simp [hms', hput]

/-- The elements of an array are read with a budget of its text. -/
theorem elements_source (lift : Failure → ε) {element : StepOf ε α}
    {find : Content → Option α} (es : List Source) (hes : ∀ e ∈ es, Reads element find e)
    (first : Bool) (blanks : List Blank) (rest : List Char) :
    let s := blanksText blanks ++ (Source.listText first es ++ ']' :: rest)
    (elements lift element (s.length + 1) first s).toOption =
      ((Source.contents es).mapM find).map fun as => (as, ']' :: rest) := by
  have hlength := Source.length_le_listText first es
  refine elements_listText lift hes ?_ first blanks rest
  simp only [List.length_append]
  omega

/-- The members of an object are read with a budget of its text. -/
theorem members_source (lift : Failure → ε) (member : σ → String → StepOf ε σ)
    (put : σ → String → Content → Option σ) (ms : List (MemberName × Source))
    (hms : ∀ m ∈ ms, ∀ gathered name colonBlanks blanks rest, Ends rest →
      (member gathered name (blanksText colonBlanks ++ ':' ::
          (blanksText blanks ++ (m.2.core ++ rest)))).toOption =
        (put gathered name m.2.content).map fun gathered => (gathered, rest))
    (gathered : σ) (blanks : List Blank) (rest : List Char) :
    let s := blanksText blanks ++ (Source.membersText true ms ++ '}' :: rest)
    (members lift member (s.length + 1) true gathered s).toOption =
      ((Source.memberContents ms).foldlM
        (fun gathered (m : Option String × Content) =>
          m.1.bind fun name => put gathered name m.2) gathered).map
          fun gathered => (gathered, '}' :: rest) := by
  have hlength := Source.length_le_membersText true ms
  refine members_membersText lift put hms ?_ true gathered blanks rest
  simp only [List.length_append]
  omega

end MessageExport.Json
