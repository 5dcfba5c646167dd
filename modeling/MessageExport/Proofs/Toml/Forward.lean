import MessageExport.Toml.Document
/-!
# MessageExport.Proofs.Toml.Forward

The reader of TOML only goes **forward**: what a step leaves of a text is an end of that
text. So no step makes a text longer, and a loop that is given as many rounds as the text
has characters is never stopped for want of rounds.

## Shape of the proofs

There is one lemma for each step of the reader, in the order in which the reader is put
together, and each is proved from the lemmas of the steps that it is made of: a step that
succeeds is taken apart into these, and what they leave is chained with `List.IsSuffix.trans`.

* Steps that only pass something over, such as blanks and comments, yield nothing but the rest.
  What is said of them is said of the rest directly (`…_suffix`).
* Steps that read something are `Step.Forward`. A loop is taken by induction on its rounds, or
  along the cases of its definition where it has no rounds.
* The steps for arrays, pairs and inline tables take the step for a value as a parameter, and go
  forward if that does. `forward_value` closes the circle by induction on how deep values may
  still be nested.
-/

namespace MessageExport.Toml

variable {α β : Type} {s rest : List Char}

/-- What the step leaves of a text is an end of it. -/
def Step.Forward (step : Step α) : Prop :=
  ∀ ⦃s : List Char⦄ ⦃a : α⦄ ⦃rest : List Char⦄, step s = some (a, rest) → rest <:+ s

/-- What is made of a result has no part in what is left. -/
theorem Step.Forward.map {step : Step α} (h : step.Forward) (f : α → β) :
    Step.Forward fun s => (step s).map fun (a, rest) => (f a, rest) := by
  intro s b rest hstep
  obtain ⟨⟨a, rest'⟩, ha, hb⟩ := Option.map_eq_some_iff.mp hstep
  cases hb
  exact h ha

/-! ### Blanks and lines

Most of these steps cannot fail: where there is nothing to pass over, they leave the text as it
is. -/

theorem trim_suffix (s : List Char) : trim s <:+ s :=
  List.dropWhile_suffix _

/-- A line end is one character or two. -/
theorem newline?_suffix (h : newline? s = some rest) : rest <:+ s := by
  unfold newline? at h
  split at h
  · cases h
    exact List.suffix_cons _ _
  · cases h
    exact (List.suffix_cons _ _).trans (List.suffix_cons _ _)
  · cases h

/-- A comment goes up to the end of its line, which it does not take. -/
theorem afterComment_suffix (s : List Char) : afterComment s <:+ s := by
  unfold afterComment
  split
  · exact (List.dropWhile_suffix _).trans (List.suffix_cons _ _)
  · exact List.suffix_rfl

/-- The end of a line takes its comment at least. -/
theorem lineEnd?_suffix_afterComment (h : lineEnd? s = some rest) :
    rest <:+ afterComment (trim s) := by
  unfold lineEnd? at h
  split at h
  · cases h
    exact List.nil_suffix
  · exact newline?_suffix h

theorem lineEnd?_suffix (h : lineEnd? s = some rest) : rest <:+ s :=
  (lineEnd?_suffix_afterComment h).trans ((afterComment_suffix _).trans (trim_suffix s))

/-- Along the cases of the definition: blanks, line ends of one character and of two, and a text
that begins with none of them. -/
theorem afterBlankLines_suffix (s : List Char) : afterBlankLines s <:+ s := by
  fun_induction afterBlankLines s with
  | case1 rest ih => exact ih.trans (List.suffix_cons _ _)
  | case2 rest ih => exact ih.trans (List.suffix_cons _ _)
  | case3 rest ih => exact ih.trans (List.suffix_cons _ _)
  | case4 rest ih => exact ih.trans ((List.suffix_cons _ _).trans (List.suffix_cons _ _))
  | case5 s => exact List.suffix_rfl

/-- Inside an array, blank lines and comments take turns; every comment costs a round. -/
theorem afterGap_suffix (budget : Nat) (s : List Char) : afterGap budget s <:+ s := by
  induction budget generalizing s with
  | zero => exact List.suffix_rfl
  | succ budget ih =>
      have hlines := afterBlankLines_suffix s
      rw [afterGap]
      split
      · rename_i rest heq
        rw [heq] at hlines
        exact (ih _).trans ((List.dropWhile_suffix _).trans
          ((List.suffix_cons _ _).trans hlines))
      · exact hlines

theorem gap_suffix (s : List Char) : gap s <:+ s :=
  afterGap_suffix _ s

/-- A mark is the first character of the text, so here more is known than an end. -/
theorem mark_suffix {c : Char} (h : mark c s = some rest) : s = c :: rest := by
  cases s with
  | nil => cases h
  | cons d tail =>
      rw [mark] at h
      split at h
      · rename_i hd
        cases h
        rw [hd]
      · cases h

/-! ### Strings and keys

What has been read of a string is handed along from round to round. It says nothing of what is
left, so the inductions are about every such beginning. -/

/-- The digits of a numeric escape are dropped as a whole. -/
theorem forward_numericEscape (width : Nat) : (numericEscape width).Forward := by
  intro s c rest h
  unfold numericEscape at h
  split at h
  · cases h
  · obtain ⟨n, -, hn⟩ := Option.bind_eq_some_iff.mp h
    split at hn
    · cases hn
      exact List.drop_suffix _ _
    · cases hn

theorem forward_escape : escape.Forward := by
  intro s c rest h
  unfold escape at h
  split at h
  · cases h
  · exact (forward_numericEscape 4 h).trans (List.suffix_cons _ _)
  · exact (forward_numericEscape 8 h).trans (List.suffix_cons _ _)
  · obtain ⟨e, -, he⟩ := Option.map_eq_some_iff.mp h
    cases he
    exact List.suffix_cons _ _

theorem forward_basicFrom (budget : Nat) (read : List Char) :
    (basicFrom budget read).Forward := by
  intro s text rest h
  fun_induction basicFrom budget read s with
  | case1 => cases h
  | case2 => cases h
  | case3 =>
      cases h
      exact List.suffix_cons _ _
  | case4 budget read tail _ ih =>
      obtain ⟨⟨c, after⟩, hescape, hafter⟩ := Option.bind_eq_some_iff.mp h
      exact (ih c after hafter).trans ((forward_escape hescape).trans (List.suffix_cons _ _))
  | case5 budget read c tail _ _ _ ih => exact (ih h).trans (List.suffix_cons _ _)
  | case6 => cases h

theorem forward_literalFrom (read : List Char) : (literalFrom read).Forward := by
  intro s text rest h
  fun_induction literalFrom read s with
  | case1 => cases h
  | case2 =>
      cases h
      exact List.suffix_cons _ _
  | case3 read c tail _ _ ih => exact (ih h).trans (List.suffix_cons _ _)
  | case4 => cases h

/-- A string of several lines has three marks around it, and may have fewer within. -/
theorem forward_blockFrom (mark : Char) (escapes : Bool) (budget : Nat) (read : List Char) :
    (blockFrom mark escapes budget read).Forward := by
  intro s text rest h
  induction budget generalizing read s with
  | zero => cases h
  | succ budget ih =>
      cases s with
      | nil => cases h
      | cons c tail =>
          have htail : tail <:+ c :: tail := List.suffix_cons _ _
          rw [blockFrom] at h
          split at h
          · dsimp only at h
            split at h
            · -- too few marks to close the string: they belong to its text
              exact (ih _ h).trans (List.drop_suffix _ _)
            · cases h
              exact List.drop_suffix _ _
          · split at h
            · split at h
              · -- a line end that is escaped takes the blank lines behind it along
                rename_i after hafter
                exact (ih _ h).trans ((afterBlankLines_suffix after).trans
                  ((newline?_suffix hafter).trans ((trim_suffix tail).trans htail)))
              · obtain ⟨⟨e, after⟩, hescape, hafter⟩ := Option.bind_eq_some_iff.mp h
                exact (ih _ hafter).trans ((forward_escape hescape).trans htail)
            · split at h
              · rename_i after hafter
                exact (ih _ h).trans (newline?_suffix hafter)
              · split at h
                · exact (ih _ h).trans htail
                · cases h

/-- A line end right behind the opening marks is no part of the string. -/
theorem forward_block (mark : Char) (escapes : Bool) : (block mark escapes).Forward := by
  intro s text rest h
  have hbody := forward_blockFrom mark escapes _ _ h
  cases hnewline : newline? s with
  | none =>
      rw [hnewline] at hbody
      exact hbody
  | some after =>
      rw [hnewline] at hbody
      exact hbody.trans (newline?_suffix hnewline)

/-- The marks at the beginning decide which of the four kinds of string it is. -/
theorem forward_string : string.Forward := by
  intro s text rest h
  unfold string at h
  split at h
  · exact (forward_block _ _ h).trans
      ((List.suffix_cons _ _).trans ((List.suffix_cons _ _).trans (List.suffix_cons _ _)))
  · exact (forward_basicFrom _ _ h).trans (List.suffix_cons _ _)
  · exact (forward_block _ _ h).trans
      ((List.suffix_cons _ _).trans ((List.suffix_cons _ _).trans (List.suffix_cons _ _)))
  · exact (forward_literalFrom _ h).trans (List.suffix_cons _ _)
  · cases h

/-- A part of a key is a string of one line, or bare. -/
theorem forward_keyPart : keyPart.Forward := by
  intro s part rest h
  unfold keyPart at h
  split at h
  · exact (forward_basicFrom _ _ h).trans (List.suffix_cons _ _)
  · exact (forward_literalFrom _ h).trans (List.suffix_cons _ _)
  · dsimp only at h
    split at h
    · cases h
    · cases h
      exact List.dropWhile_suffix _

/-- The parts of a key stand between dots, with blanks around each of them. -/
theorem forward_keyParts (budget : Nat) : (keyParts budget).Forward := by
  intro s parts rest h
  induction budget generalizing s parts with
  | zero => cases h
  | succ budget ih =>
      obtain ⟨⟨part, after⟩, hpart, hafter⟩ := Option.bind_eq_some_iff.mp h
      -- the blanks before the part, the part, and the blanks behind it
      have hblanks : trim after <:+ s :=
        (trim_suffix after).trans ((forward_keyPart hpart).trans (trim_suffix s))
      dsimp only at hafter
      split at hafter
      · rename_i tail heq
        obtain ⟨⟨more, last⟩, hmore, hlast⟩ := Option.bind_eq_some_iff.mp hafter
        cases hlast
        rw [heq] at hblanks
        exact (ih hmore).trans ((List.suffix_cons _ _).trans hblanks)
      · cases hafter
        exact hblanks

/-- A key that has too many parts is refused, but what is left of the text is decided by then.
-/
theorem forward_key : key.Forward := by
  intro s k rest h
  obtain ⟨⟨parts, after⟩, hparts, hafter⟩ := Option.bind_eq_some_iff.mp h
  obtain ⟨last, -, hlast⟩ := Option.bind_eq_some_iff.mp hafter
  split at hlast
  · cases hlast
  · cases hlast
    exact forward_keyParts _ hparts

/-! ### Numbers, dates and times

Dates and times are read to find out where they end and whether they are right. So their steps
yield the rest alone, and those of numbers the number as well. -/

theorem forward_fixedNumber (width low high : Nat) : (fixedNumber width low high).Forward := by
  intro s n rest h
  unfold fixedNumber at h
  dsimp only at h
  split at h
  · cases h
  · obtain ⟨n, -, hn⟩ := Option.bind_eq_some_iff.mp h
    split at hn
    · cases hn
      exact List.drop_suffix _ _
    · cases hn

/-- A number of fixed width behind a mark. -/
theorem markedNumber_suffix {c : Char} {width low high n : Nat} {after : List Char}
    (hmark : mark c s = some after) (h : fixedNumber width low high after = some (n, rest)) :
    rest <:+ s := by
  rw [mark_suffix hmark]
  exact (forward_fixedNumber _ _ _ h).trans (List.suffix_cons _ _)

/-- A year, a month and a day with a mark before each but the first. -/
theorem date?_suffix (h : date? s = some rest) : rest <:+ s := by
  unfold date? at h
  simp only [Option.bind_eq_bind, Option.bind_eq_some_iff, Prod.exists, Option.some.injEq] at h
  obtain ⟨year, s₁, hyear, s₂, hmark, month, s₃, hmonth, s₄, hmark', day, s₅, hday, rfl⟩ := h
  exact (markedNumber_suffix hmark' hday).trans
    ((markedNumber_suffix hmark hmonth).trans (forward_fixedNumber _ _ _ hyear))

/-- The fraction of a second may be missing; then nothing is passed over. -/
theorem fraction?_suffix (h : fraction? s = some rest) : rest <:+ s := by
  unfold fraction? at h
  split at h
  · split at h
    · cases h
      exact (List.dropWhile_suffix _).trans
        ((List.suffix_cons _ _).trans (List.suffix_cons _ _))
    · cases h
  · cases h
  · cases h
    exact List.suffix_rfl

theorem time?_suffix (h : time? s = some rest) : rest <:+ s := by
  unfold time? at h
  simp only [Option.bind_eq_bind, Option.bind_eq_some_iff, Prod.exists] at h
  obtain ⟨hour, s₁, hhour, s₂, hmark, minute, s₃, hminute, s₄, hmark', second, s₅, hsecond,
    hfraction⟩ := h
  exact (fraction?_suffix hfraction).trans ((markedNumber_suffix hmark' hsecond).trans
    ((markedNumber_suffix hmark hminute).trans (forward_fixedNumber _ _ _ hhour)))

/-- So may the offset, be it a letter or a number of hours and minutes. -/
theorem offset?_suffix (h : offset? s = some rest) : rest <:+ s := by
  unfold offset? at h
  split at h
  · split at h
    · cases h
      exact List.suffix_cons _ _
    · split at h
      · simp only [Option.bind_eq_bind, Option.bind_eq_some_iff, Prod.exists,
          Option.some.injEq] at h
        obtain ⟨hour, s₁, hhour, s₂, hmark, minute, s₃, hminute, rfl⟩ := h
        exact (markedNumber_suffix hmark hminute).trans
          ((forward_fixedNumber _ _ _ hhour).trans (List.suffix_cons _ _))
      · cases h
        exact List.suffix_rfl
  · cases h
    exact List.suffix_rfl

/-- A date may stand alone, or a time follows behind a letter or a blank. -/
theorem dateTime?_suffix (h : dateTime? s = some rest) : rest <:+ s := by
  obtain ⟨date, hdate, hrest⟩ := Option.bind_eq_some_iff.mp h
  refine List.IsSuffix.trans ?_ (date?_suffix hdate)
  -- both ways to go on read a time and then an offset
  have htime : ∀ {after : List Char}, ((time? after).bind offset?) = some rest →
      rest <:+ after := by
    intro after hafter
    obtain ⟨middle, hmiddle, hoffset⟩ := Option.bind_eq_some_iff.mp hafter
    exact (offset?_suffix hoffset).trans (time?_suffix hmiddle)
  split at hrest
  · split at hrest
    · exact (htime hrest).trans (List.suffix_cons _ _)
    · split at hrest
      · exact (htime hrest).trans (List.suffix_cons _ _)
      · cases hrest
        exact List.suffix_rfl
  · cases hrest
    exact List.suffix_rfl

/-- Digits may have an underscore between them, which is passed over with the digit behind it.
-/
theorem forward_digitsFrom (isDigit : Char → Bool) (read : List Char) :
    (digitsFrom isDigit read).Forward := by
  intro s ds rest h
  fun_induction digitsFrom isDigit read s with
  | case1 read c tail _ ih =>
      exact (ih h).trans ((List.suffix_cons _ _).trans (List.suffix_cons _ _))
  | case2 => cases h
  | case3 => cases h
  | case4 read c tail _ _ _ ih => exact (ih h).trans (List.suffix_cons _ _)
  | case5 =>
      cases h
      exact List.suffix_rfl
  | case6 =>
      cases h
      exact List.suffix_rfl

theorem forward_digits (isDigit : Char → Bool) : (digits isDigit).Forward := by
  intro s ds rest h
  unfold digits at h
  split at h
  · cases h
  · split at h
    · exact (forward_digitsFrom _ _ h).trans (List.suffix_cons _ _)
    · cases h

/-- A zero stands alone, and other digits do not begin with one. -/
theorem forward_wholeDigits : wholeDigits.Forward := by
  intro s ds rest h
  unfold wholeDigits at h
  split at h
  · cases h
    exact List.suffix_cons _ _
  · exact forward_digits _ h

theorem sign_suffix (s : List Char) : (sign s).2 <:+ s := by
  unfold sign
  split
  · exact List.suffix_cons _ _
  · exact List.suffix_cons _ _
  · exact List.suffix_rfl

theorem forward_exponent : exponent.Forward := by
  intro s e rest h
  unfold exponent at h
  split at h
  · split at h
    · obtain ⟨⟨ds, after⟩, hds, hafter⟩ := Option.bind_eq_some_iff.mp h
      cases hafter
      exact (forward_digits _ hds).trans ((sign_suffix _).trans (List.suffix_cons _ _))
    · cases h
      exact List.suffix_rfl
  · cases h
    exact List.suffix_rfl

/-- What follows the whole digits decides whether they are a real number. -/
theorem forward_numberTail (isNegative : Bool) (whole : List Char) :
    (numberTail isNegative whole).Forward := by
  intro s item rest h
  unfold numberTail at h
  split at h
  · simp only [Option.bind_eq_bind, Option.bind_eq_some_iff, Prod.exists, Option.some.injEq,
      Prod.mk.injEq] at h
    obtain ⟨ds, s₁, hds, e, s₂, he, item, -, rfl, rfl⟩ := h
    exact (forward_exponent he).trans ((forward_digits _ hds).trans (List.suffix_cons _ _))
  · split at h
    · simp only [Option.bind_eq_bind, Option.bind_eq_some_iff, Prod.exists, Option.some.injEq,
        Prod.mk.injEq] at h
      obtain ⟨e, s₁, he, item, -, rfl, rfl⟩ := h
      exact forward_exponent he
    · obtain ⟨item, -, hitem⟩ := Option.bind_eq_some_iff.mp h
      cases hitem
      exact List.suffix_rfl
  · obtain ⟨item, -, hitem⟩ := Option.bind_eq_some_iff.mp h
    cases hitem
    exact List.suffix_rfl

theorem forward_basedInteger (base : Nat) : (basedInteger base).Forward := by
  intro s item rest h
  obtain ⟨⟨ds, after⟩, hds, hafter⟩ := Option.bind_eq_some_iff.mp h
  obtain ⟨item, -, hitem⟩ := Option.bind_eq_some_iff.mp hafter
  cases hitem
  exact forward_digits _ hds

/-- A base is told by two characters, infinity and what is no number by three. -/
theorem forward_number : number.Forward := by
  intro s item rest h
  have htwo : ∀ (c d : Char) (tail : List Char), tail <:+ c :: d :: tail := fun c d tail =>
    (List.suffix_cons _ _).trans (List.suffix_cons _ _)
  unfold number at h
  split at h
  · exact (forward_basedInteger _ h).trans (htwo _ _ _)
  · exact (forward_basedInteger _ h).trans (htwo _ _ _)
  · exact (forward_basedInteger _ h).trans (htwo _ _ _)
  · refine List.IsSuffix.trans ?_ (sign_suffix s)
    dsimp only at h
    split at h
    · rename_i tail heq
      cases h
      rw [heq]
      exact (htwo _ _ _).trans (List.suffix_cons _ _)
    · rename_i tail heq
      cases h
      rw [heq]
      exact (htwo _ _ _).trans (List.suffix_cons _ _)
    · obtain ⟨⟨whole, after⟩, hwhole, hafter⟩ := Option.bind_eq_some_iff.mp h
      exact (forward_numberTail _ _ hafter).trans (forward_wholeDigits hwhole)

theorem forward_numberOrMoment : numberOrMoment.Forward := by
  intro s item rest h
  unfold numberOrMoment at h
  dsimp only at h
  split at h
  · obtain ⟨after, hafter, heq⟩ := Option.map_eq_some_iff.mp h
    cases heq
    exact dateTime?_suffix hafter
  · split at h
    · obtain ⟨after, hafter, heq⟩ := Option.map_eq_some_iff.mp h
      cases heq
      exact time?_suffix hafter
    · exact forward_number h

/-! ### Values

The steps for what holds values take the step for a value as a parameter, for which it is enough
to know that it goes forward. -/

theorem forward_word (letters : List Char) (item : Item) : (word letters item).Forward := by
  intro s found rest h
  unfold word at h
  split at h
  · cases h
    exact List.drop_suffix _ _
  · cases h

/-- Before and behind each element there may be a gap, and a comma may stand behind the last. -/
theorem forward_elements {value : Step Item} (hvalue : value.Forward) (budget : Nat) :
    (elements value budget).Forward := by
  intro s items rest h
  induction budget generalizing s items with
  | zero => cases h
  | succ budget ih =>
      have hgap := gap_suffix s
      rw [elements] at h
      split at h
      · rename_i tail heq
        cases h
        rw [heq] at hgap
        exact (List.suffix_cons _ _).trans hgap
      · obtain ⟨⟨item, after⟩, hitem, hafter⟩ := Option.bind_eq_some_iff.mp h
        have hlater : gap after <:+ s := (gap_suffix after).trans ((hvalue hitem).trans hgap)
        dsimp only at hafter
        split at hafter
        · rename_i tail heq
          obtain ⟨⟨more, last⟩, hmore, hlast⟩ := Option.bind_eq_some_iff.mp hafter
          cases hlast
          rw [heq] at hlater
          exact (ih hmore).trans ((List.suffix_cons _ _).trans hlater)
        · rename_i tail heq
          cases hafter
          rw [heq] at hlater
          exact (List.suffix_cons _ _).trans hlater
        · cases hafter

/-- A pair takes at least its equals sign. -/
theorem pair_suffix {value : Step Item} (hvalue : value.Forward) {said : Key × Item}
    (h : pair value s = some (said, rest)) : ∃ tail, '=' :: tail <:+ s ∧ rest <:+ tail := by
  unfold pair at h
  simp only [Option.bind_eq_bind, Option.bind_eq_some_iff, Prod.exists, Option.some.injEq,
    Prod.mk.injEq] at h
  obtain ⟨k, s₁, hkey, s₂, hmark, item, s₃, hitem, -, rfl⟩ := h
  refine ⟨s₂, ?_, (hvalue hitem).trans (trim_suffix s₂)⟩
  rw [← mark_suffix hmark]
  exact (trim_suffix s₁).trans (forward_key hkey)

theorem forward_pair {value : Step Item} (hvalue : value.Forward) : (pair value).Forward := by
  intro s said rest h
  obtain ⟨tail, htail, hrest⟩ := pair_suffix hvalue h
  exact hrest.trans ((List.suffix_cons _ _).trans htail)

/-- Pairs of an inline table stand on one line, so blanks are all that is around them. -/
theorem forward_pairs {value : Step Item} (hvalue : value.Forward) (budget : Nat)
    (entries : Entries) : (pairs value budget entries).Forward := by
  intro s all rest h
  induction budget generalizing s entries with
  | zero => cases h
  | succ budget ih =>
      obtain ⟨⟨⟨k, item⟩, after⟩, hpair, hafter⟩ := Option.bind_eq_some_iff.mp h
      obtain ⟨entries, -, hentries⟩ := Option.bind_eq_some_iff.mp hafter
      have hlater : trim after <:+ s :=
        (trim_suffix after).trans (forward_pair hvalue hpair)
      split at hentries
      · rename_i tail heq
        rw [heq] at hlater
        exact (ih _ hentries).trans ((List.suffix_cons _ _).trans hlater)
      · rename_i tail heq
        cases hentries
        rw [heq] at hlater
        exact (List.suffix_cons _ _).trans hlater
      · cases hentries

/-- An inline table is empty, or it has at least one pair. -/
theorem forward_inlineTable {value : Step Item} (hvalue : value.Forward) :
    (inlineTable value).Forward := by
  intro s entries rest h
  have htrim := trim_suffix s
  unfold inlineTable at h
  split at h
  · rename_i tail heq
    cases h
    rw [heq] at htrim
    exact (List.suffix_cons _ _).trans htrim
  · exact (forward_pairs hvalue _ _ h).trans htrim

/-- The first character decides what kind of value it is. Arrays and inline tables hold values
that may be nested one level less deep, for which the claim is known by induction. -/
theorem forward_value (depth : Nat) : (value depth).Forward := by
  induction depth using Nat.strongRecOn with
  | ind depth ih =>
      intro s item rest h
      revert h
      fun_cases value depth s <;> intro h
      case case1 | case3 => cases h
      case case2 tail depth =>
        obtain ⟨⟨items, after⟩, hitems, hafter⟩ := Option.bind_eq_some_iff.mp h
        cases hafter
        exact (forward_elements (ih depth depth.lt_succ_self) _ hitems).trans
          (List.suffix_cons _ _)
      case case4 tail depth =>
        obtain ⟨⟨entries, after⟩, hentries, hafter⟩ := Option.bind_eq_some_iff.mp h
        cases hafter
        exact (forward_inlineTable (ih depth depth.lt_succ_self) hentries).trans
          (List.suffix_cons _ _)
      case case5 | case6 => exact forward_string.map _ h
      case case7 | case8 | case9 | case10 => exact forward_word _ _ h
      case case11 => exact forward_numberOrMoment h

end MessageExport.Toml
