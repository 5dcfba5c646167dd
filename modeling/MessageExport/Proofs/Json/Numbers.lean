import MessageExport.Proofs.Json.Strings
/-!
# MessageExport.Proofs.Json.Numbers

Reading and passing over the **numbers** of a JSON text.

A number is the one token that could go on after its end, so what follows it has to be
known (`Ends`). Apart from that a reader of numbers does not care: what it makes of the
text of a number it also makes of it with something else behind (`Extends`), part by part.

## Shape of the proofs

The reader of numbers is a chain of small readers, and each hands on what it has gathered:
whether the number is negative, the digits so far as one number, and how many of them stand
behind the point. A numeral is cut at the same places, into whole digits, a fraction and an
exponent. The lemmas go through the chain from its end, since what a reader makes of its part
depends on what the next one makes of the parts behind it.

Where the digits of a part end, the reader looks at one character to see how to go on. That
character belongs to the next part, or to what follows the number. In both cases it is no digit
(`not_isDigit_of_exponentText`, `not_isDigit_of_tail`), and that is all that a loop over digits
has to know.
-/

namespace MessageExport.Json

open MessageExport.Text (isDigit digit?)

/-- Nothing that follows a number could be a part of it. -/
def Ends (rest : List Char) : Prop :=
  ∀ c more, rest = c :: more → isDigit c = false ∧ c ≠ '.' ∧ c ≠ 'e' ∧ c ≠ 'E'

/-- Nothing follows at all. -/
theorem ends_nil : Ends [] := by
  intro c more h
  cases h

theorem ends_cons {c : Char} (h : isDigit c = false ∧ c ≠ '.' ∧ c ≠ 'e' ∧ c ≠ 'E')
    (rest : List Char) : Ends (c :: rest) := by
  intro c' more heq
  cases heq
  exact h

/-- What a reader makes of a text, it makes of it also with something else behind. -/
def Extends {α : Type} (step : Step α) (s : List Char) : Prop :=
  ∀ rest, Ends rest → (step (s ++ rest)).toOption = (step s).toOption.map fun p => (p.1, rest)

theorem digit?_eq_none {c : Char} (h : isDigit c = false) : digit? c = none := by
  simpa [isDigit] using h

theorem Digit.exists_digit? (d : Digit) : ∃ n, digit? d.val = some n :=
  Option.isSome_iff_exists.mp d.property

@[simp] theorem digitsText_nil : digitsText [] = [] := rfl

@[simp] theorem digitsText_cons (d : Digit) (ds : List Digit) :
    digitsText (d :: ds) = d.val :: digitsText ds := rfl

/-- Digits are dropped up to the end of a number. -/
theorem dropWhile_digitsText (ds : List Digit) (rest : List Char)
    (hrest : ∀ c more, rest = c :: more → isDigit c = false) :
    (digitsText ds ++ rest).dropWhile isDigit = rest := by
  induction ds with
  | nil =>
      cases rest with
      | nil => rfl
      | cons c more =>
          rw [digitsText_nil, List.nil_append, List.dropWhile_cons_of_neg]
          simp [hrest c more rfl]
  | cons d ds ih =>
      rw [digitsText_cons, List.cons_append, List.dropWhile_cons_of_pos d.property]
      exact ih

/-! ### Reading numbers

The readers in the order from the last to the first. Each lemma is for whatever has been
gathered before. -/

/-- All digits have been read: what is made of them looks at no text. -/
theorem realNumber_extends (isNegative : Bool) (significand : Nat) (power : Int) :
    Extends (realNumber isNegative significand power) [] := by
  intro rest _
  simp only [realNumber, List.nil_append]
  cases real? significand power <;> rfl

/-- A number without a point and an exponent is kept whole if it is small enough. -/
theorem wholeNumber_extends (isNegative : Bool) (significand : Nat) :
    Extends (wholeNumber isNegative significand) [] := by
  intro rest hrest
  simp only [wholeNumber, List.nil_append]
  split
  · rfl
  · split
    · exact realNumber_extends isNegative significand 0 rest hrest
    · rfl

/-- An exponent that grows too large makes the number zero or too large, and its other digits
are dropped. -/
theorem exponentDigits_extends (isNegative : Bool) (significand : Nat) (power : Int)
    (down : Bool) (ds : List Digit) (exponent : Nat) :
    Extends (exponentDigits isNegative significand power down exponent) (digitsText ds) := by
  induction ds generalizing exponent with
  | nil =>
      intro rest hrest
      -- no digit is left, and none follows
      have hreal := realNumber_extends isNegative significand
        (exponentDigits.total power down exponent) rest hrest
      cases rest with
      | nil => exact hreal
      | cons c more =>
          simp only [digitsText_nil, List.nil_append, exponentDigits,
            digit?_eq_none (hrest c more rfl).1]
          exact hreal
  | cons d ds ih =>
      intro rest hrest
      obtain ⟨n, hn⟩ := d.exists_digit?
      simp only [digitsText_cons, List.cons_append, exponentDigits, hn]
      split
      · split
        · rfl
        · simp [dropWhile_digitsText ds rest fun c more h => (hrest c more h).1]
      · exact ih _ rest hrest

/-- A sign may stand before the first digit of an exponent. -/
theorem exponentPart_extends (isNegative : Bool) (significand : Nat) (power : Int)
    (e : Exponent) :
    Extends (exponentPart isNegative significand power)
      (e.sign ++ e.first.val :: digitsText e.more) := by
  intro rest hrest
  have hdigits (down : Bool) := exponentDigits_extends isNegative significand power down
    (e.first :: e.more) 0 rest hrest
  simp only [digitsText_cons, List.cons_append] at hdigits
  rcases e.sign_eq with h | h | h <;> rw [h]
  · -- the first digit is no sign
    have hplus : e.first.val ≠ '+' := fun heq => absurd e.first.property (by rw [heq]; decide)
    have hminus : e.first.val ≠ '-' := fun heq => absurd e.first.property (by rw [heq]; decide)
    simp [exponentPart, hplus, hminus, e.first.property, hdigits]
  · simp [exponentPart, e.first.property, hdigits]
  · simp [exponentPart, e.first.property, hdigits]

/-- The mark of an exponent is no digit and no point. -/
theorem Exponent.mark_props (e : Exponent) : isDigit e.mark = false ∧ e.mark ≠ '.' := by
  rcases e.mark_eq with h | h <;> rw [h] <;> decide

/-- Without the mark of an exponent the number is at its end. -/
theorem exponentOrEnd_extends (isNegative : Bool) (significand : Nat) (power : Int)
    (e : Option Exponent) :
    Extends (exponentOrEnd isNegative significand power) (Numeral.exponentText e) := by
  intro rest hrest
  cases e with
  | none =>
      have hreal := realNumber_extends isNegative significand power rest hrest
      cases rest with
      | nil => exact hreal
      | cons c more =>
          obtain ⟨-, -, he, hE⟩ := hrest c more rfl
          simp only [Numeral.exponentText, Option.elim, List.nil_append, exponentOrEnd, he, hE,
            or_self, if_false]
          exact hreal
  | some e =>
      simp only [Numeral.exponentText, Option.elim, Exponent.text, List.cons_append,
        exponentOrEnd, e.mark_eq, if_true]
      exact exponentPart_extends isNegative significand power e rest hrest

/-- Behind the digits of a fraction nothing goes on with a digit. -/
theorem not_isDigit_of_exponentText {e : Option Exponent} {rest : List Char} (hrest : Ends rest)
    {c : Char} {more : List Char} (h : Numeral.exponentText e ++ rest = c :: more) :
    isDigit c = false := by
  cases e with
  | none => exact (hrest c more h).1
  | some e =>
      obtain ⟨rfl, -⟩ := List.cons.inj h
      exact e.mark_props.1

/-- A fraction has a digit at least, which is either still to come or has been seen. Digits that
are too many for the significand are dropped. -/
theorem fractionDigits_extends (isNegative : Bool) (significand : Nat) (power : Int)
    (seen : Bool) (ds : List Digit) (e : Option Exponent) (hds : seen = true ∨ ds ≠ []) :
    Extends (fractionDigits isNegative significand power seen)
      (digitsText ds ++ Numeral.exponentText e) := by
  induction ds generalizing significand power seen with
  | nil =>
      intro rest hrest
      obtain rfl : seen = true := hds.resolve_right (fun h => h rfl)
      -- a fraction ends as a number without one does
      have hend (s : List Char) (hs : ∀ c more, s = c :: more → isDigit c = false) :
          (fractionDigits isNegative significand power true s).toOption =
            (exponentOrEnd isNegative significand power s).toOption := by
        cases s with
        | nil => rfl
        | cons c more => simp [fractionDigits, digit?_eq_none (hs c more rfl)]
      have hexponent := exponentOrEnd_extends isNegative significand power e rest hrest
      rw [digitsText_nil, List.nil_append,
        hend _ fun c more h => not_isDigit_of_exponentText hrest h, hexponent, hend]
      intro c more h
      exact not_isDigit_of_exponentText ends_nil (by rw [List.append_nil]; exact h)
  | cons d ds ih =>
      intro rest hrest
      obtain ⟨n, hn⟩ := d.exists_digit?
      have hdrop := dropWhile_digitsText ds (Numeral.exponentText e)
        fun c more h => not_isDigit_of_exponentText ends_nil (by rw [List.append_nil]; exact h)
      have hdrop' := dropWhile_digitsText ds (Numeral.exponentText e ++ rest)
        fun c more h => not_isDigit_of_exponentText hrest h
      simp only [digitsText_cons, List.cons_append, fractionDigits, hn]
      split
      · rw [List.append_assoc, hdrop, hdrop']
        exact exponentOrEnd_extends isNegative significand power e rest hrest
      · exact ih _ _ true (.inl rfl) rest hrest

/-- A point, the mark of an exponent or neither decides how a number goes on. -/
theorem afterWhole_extends (isNegative : Bool) (significand : Nat) (n : Numeral) :
    Extends (afterWhole isNegative significand) n.tail := by
  intro rest hrest
  unfold Numeral.tail
  cases hfraction : n.fraction with
  | some digits =>
      have hdigits := fractionDigits_extends isNegative significand 0 false
        (digits.1 :: digits.2) n.exponent (.inr (List.cons_ne_nil _ _)) rest hrest
      simp only [digitsText_cons, List.cons_append] at hdigits
      simp only [Numeral.fractionText, List.cons_append, afterWhole, if_true]
      exact hdigits
  | none =>
      cases hexponent : n.exponent with
      | none =>
          -- neither: what follows is no part of the number, as `Ends` says
          have hwhole := wholeNumber_extends isNegative significand rest hrest
          cases rest with
          | nil => exact hwhole
          | cons c more =>
              obtain ⟨-, hpoint, he, hE⟩ := hrest c more rfl
              simp only [Numeral.fractionText, Numeral.exponentText, Option.elim,
                List.nil_append, List.append_nil, afterWhole, hpoint, he, hE, or_self, if_false]
              exact hwhole
      | some e =>
          have hpart := exponentPart_extends isNegative significand 0 e rest hrest
          simp only [Numeral.fractionText, Numeral.exponentText, Option.elim, List.nil_append,
            Exponent.text, List.cons_append, afterWhole, e.mark_props.2, e.mark_eq, if_true,
            if_false]
          exact hpart

/-- Whole digits that are too many for the significand are counted and not kept. -/
theorem overflowDigits_extends (isNegative : Bool) (significand : Nat) (power : Nat)
    (ds : List Digit) (n : Numeral) :
    Extends (overflowDigits isNegative significand power) (digitsText ds ++ n.tail) := by
  induction ds generalizing power with
  | nil =>
      intro rest hrest
      unfold Numeral.tail
      cases hfraction : n.fraction with
      | some digits =>
          have hdigits := fractionDigits_extends isNegative significand power false
            (digits.1 :: digits.2) n.exponent (.inr (List.cons_ne_nil _ _)) rest hrest
          simp only [digitsText_cons, List.cons_append] at hdigits
          simp only [digitsText_nil, Numeral.fractionText, List.nil_append, List.cons_append,
            overflowDigits, if_true]
          exact hdigits
      | none =>
          have hexponent := exponentOrEnd_extends isNegative significand power n.exponent
            rest hrest
          cases hmark : n.exponent with
          | none =>
              rw [hmark] at hexponent
              cases rest with
              | nil => exact hexponent
              | cons c more =>
                  obtain ⟨hdigit, hpoint, -, -⟩ := hrest c more rfl
                  simp only [digitsText_nil, Numeral.fractionText, Numeral.exponentText,
                    Option.elim, List.nil_append, List.append_nil, overflowDigits, hdigit,
                    hpoint, if_false, Bool.false_eq_true] at hexponent ⊢
                  exact hexponent
          | some e =>
              rw [hmark] at hexponent
              simp only [Numeral.exponentText, Option.elim, Exponent.text, List.cons_append,
                digitsText_nil, Numeral.fractionText, List.nil_append, overflowDigits,
                e.mark_props, if_false, Bool.false_eq_true] at hexponent ⊢
              exact hexponent
  | cons d ds ih =>
      intro rest hrest
      simp only [digitsText_cons, List.cons_append, overflowDigits, d.property, if_true]
      exact ih _ rest hrest

/-- Behind the digits of a whole part nothing goes on with a digit. -/
theorem not_isDigit_of_tail {n : Numeral} {rest : List Char} (hrest : Ends rest) {c : Char}
    {more : List Char} (h : n.tail ++ rest = c :: more) : isDigit c = false := by
  unfold Numeral.tail at h
  cases hfraction : n.fraction with
  | some digits =>
      rw [hfraction] at h
      obtain ⟨rfl, -⟩ := List.cons.inj h
      decide
  | none =>
      rw [hfraction] at h
      exact not_isDigit_of_exponentText hrest h

/-- Whole digits go on until the significand is full, and from then on they are counted. -/
theorem wholeDigits_extends (isNegative : Bool) (significand : Nat) (ds : List Digit)
    (n : Numeral) :
    Extends (wholeDigits isNegative significand) (digitsText ds ++ n.tail) := by
  induction ds generalizing significand with
  | nil =>
      intro rest hrest
      -- a whole part without digits left is followed by the rest of the number
      have hend (s : List Char) (hs : ∀ c more, s = c :: more → isDigit c = false) :
          (wholeDigits isNegative significand s).toOption =
            (afterWhole isNegative significand s).toOption := by
        cases s with
        | nil => rfl
        | cons c more => simp [wholeDigits, digit?_eq_none (hs c more rfl)]
      rw [digitsText_nil, List.nil_append, hend _ fun c more h => not_isDigit_of_tail hrest h,
        afterWhole_extends isNegative significand n rest hrest, hend]
      intro c more h
      exact not_isDigit_of_tail ends_nil (by rw [List.append_nil]; exact h)
  | cons d ds ih =>
      intro rest hrest
      obtain ⟨k, hk⟩ := d.exists_digit?
      simp only [digitsText_cons, List.cons_append, wholeDigits, hk]
      split
      · exact overflowDigits_extends isNegative significand 1 ds n rest hrest
      · exact ih _ rest hrest

/-- A number is read as its value, whatever ends it. -/
theorem number_body_append (n : Numeral) {rest : List Char} (hrest : Ends rest) :
    (number n.isNegative (n.body ++ rest)).toOption = n.value?.map fun x => (x, rest) := by
  suffices h : Extends (number n.isNegative) n.body by
    rw [h rest hrest, Numeral.value?, Option.map_map]
    rfl
  intro rest hrest
  unfold Numeral.body
  by_cases hzero : n.first.val = '0'
  · -- a zero stands alone: the reader refuses a digit behind it
    rw [hzero, n.zero_alone hzero, digitsText_nil, List.nil_append]
    have hend (s : List Char) (hs : ∀ c more, s = c :: more → isDigit c = false) :
        number n.isNegative ('0' :: s) = afterWhole n.isNegative 0 s := by
      cases s with
      | nil => rfl
      | cons c more => simp [number, hs c more rfl]
    rw [List.cons_append, hend _ fun c more h => not_isDigit_of_tail hrest h,
      afterWhole_extends n.isNegative 0 n rest hrest, hend]
    intro c more h
    exact not_isDigit_of_tail ends_nil (by rw [List.append_nil]; exact h)
  · have hdigits := wholeDigits_extends n.isNegative 0 (n.first :: n.more) n rest hrest
    simp only [digitsText_cons, List.cons_append, List.append_assoc] at hdigits ⊢
    simp [number, n.first.property, hdigits]

/-! ### Passing over numbers

A number that is passed over is not converted, so its size does not matter. The digits of each
part are dropped at once. -/

/-- An exponent is passed over as a mark, a sign and digits. -/
theorem skipExponentOrEnd_append (e : Option Exponent) {rest : List Char} (hrest : Ends rest) :
    skipExponentOrEnd (Numeral.exponentText e ++ rest) = .ok rest := by
  cases e with
  | none =>
      cases rest with
      | nil => rfl
      | cons c more =>
          obtain ⟨-, -, he, hE⟩ := hrest c more rfl
          simp [Numeral.exponentText, skipExponentOrEnd, he, hE]
  | some e =>
      have hdrop := dropWhile_digitsText e.more rest fun c more h => (hrest c more h).1
      have hplus : e.first.val ≠ '+' := fun heq => absurd e.first.property (by rw [heq]; decide)
      have hminus : e.first.val ≠ '-' := fun heq => absurd e.first.property (by rw [heq]; decide)
      simp only [Numeral.exponentText, Option.elim, Exponent.text, List.cons_append,
        skipExponentOrEnd, e.mark_eq, if_true]
      rcases e.sign_eq with h | h | h <;>
        simp [h, skipExponent, hplus, hminus, e.first.property, hdrop]

/-- So is what follows the whole digits. -/
theorem skipAfterWhole_append (n : Numeral) {rest : List Char} (hrest : Ends rest) :
    skipAfterWhole (n.tail ++ rest) = .ok rest := by
  have hexponent := skipExponentOrEnd_append n.exponent hrest
  unfold Numeral.tail
  cases hfraction : n.fraction with
  | some digits =>
      have hdrop := dropWhile_digitsText digits.2 (Numeral.exponentText n.exponent ++ rest)
        fun c more h => not_isDigit_of_exponentText hrest h
      simp [Numeral.fractionText, skipAfterWhole, digits.1.property, hdrop, hexponent]
  | none =>
      rw [Numeral.fractionText, List.nil_append]
      -- without a point, what follows is an exponent or the end
      have hend (s : List Char) (hs : ∀ c more, s = c :: more → c ≠ '.') :
          skipAfterWhole s = skipExponentOrEnd s := by
        cases s with
        | nil => rfl
        | cons c more => simp [skipAfterWhole, hs c more rfl]
      rw [hend, hexponent]
      intro c more h
      cases hmark : n.exponent with
      | none =>
          rw [hmark] at h
          exact (hrest c more h).2.1
      | some e =>
          rw [hmark] at h
          obtain ⟨rfl, -⟩ := List.cons.inj h
          exact e.mark_props.2

/-- A number is passed over, whatever its size. -/
theorem skipNumber_append (n : Numeral) {rest : List Char} (hrest : Ends rest) :
    skipNumber (n.body ++ rest) = .ok rest := by
  have hafter := skipAfterWhole_append n hrest
  unfold Numeral.body
  by_cases hzero : n.first.val = '0'
  · rw [hzero, n.zero_alone hzero, digitsText_nil, List.nil_append, List.cons_append]
    rw [← hafter]
    have hdigit (c : Char) (more : List Char) (h : n.tail ++ rest = c :: more) :=
      not_isDigit_of_tail hrest h
    cases h : n.tail ++ rest with
    | nil => rfl
    | cons c more => simp [skipNumber, hdigit c more h]
  · have hdrop := dropWhile_digitsText n.more (n.tail ++ rest)
      fun c more h => not_isDigit_of_tail hrest h
    simp [skipNumber, n.first.property, hdrop, hafter]

end MessageExport.Json
