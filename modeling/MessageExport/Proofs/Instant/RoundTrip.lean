import MessageExport.Instant.Rfc3339
import MessageExport.Proofs.Calendar
import MessageExport.Proofs.Text.Decimal
/-!
# MessageExport.Proofs.Instant.RoundTrip

**Timestamps round trip**: what is written for an instant is read as that instant.

Each step of the reader takes back what the writer put there and leaves the rest. The
writer always goes on with something that is no digit, so that numbers end where they
should.

## Shape of the proofs

The text is taken from its end to its front: each lemma reads one part, with any text behind it,
and `reading_clockText` chains them. Three parts need an argument of their own. A year outside
of four digits has a sign, and is read with all digits behind it (`year_yearText`). A fraction
has 0, 3, 6 or 9 digits, whichever is enough (`exists_fractionDigits`). And an instant
within a leap second has more nanoseconds than a second, but is written as the second 60 with
those that are left, so that reading it back has to undo that (`ofReading?_toReading`).

That the day is found again is the inverse in `Proofs.Calendar`.
-/

namespace MessageExport.Instant.Rfc3339

open Calendar Text

/-! ### Numbers

A number is read digit by digit, up to a width, and with a bound on its value. Both are kept by
what is written, so reading it is evaluation of its digits. -/

/-- No digit follows. -/
def NoDigit (rest : List Char) : Prop :=
  ∀ c more, rest = c :: more → isDigit c = false

/-- Where a character follows that is no digit, no digit follows. -/
theorem noDigit_cons {c : Char} (h : isDigit c = false) (rest : List Char) :
    NoDigit (c :: rest) := by
  rintro c' more heq
  rwa [← (List.cons.inj heq).1]

/-- Where no digit follows, there is none to be passed over. -/
theorem dropWhile_of_noDigit {rest : List Char} (h : NoDigit rest) :
    rest.dropWhile isDigit = rest := by
  cases rest with
  | nil => rfl
  | cons c more => exact List.dropWhile_cons_of_neg (by simp [h c more rfl])

/-- Digits make a number of at most as many digits, after those read before. -/
theorem ofDigitChars_lt {digits : List Char} (hdigits : ∀ c ∈ digits, c.isDigit = true)
    (value : Nat) : Nat.ofDigitChars 10 digits value < (value + 1) * 10 ^ digits.length := by
  induction digits generalizing value with
  | nil => simp
  | cons c digits ih =>
      obtain ⟨hc, hdigits⟩ := List.forall_mem_cons.mp hdigits
      have hdigit : c.toNat - '0'.toNat ≤ 9 := by
        have hbounds := toNat_of_isDigit hc
        have hzero : '0'.toNat = 48 := rfl
        omega
      rw [Nat.ofDigitChars_cons]
      calc
        _ < (10 * value + (c.toNat - '0'.toNat) + 1) * 10 ^ digits.length := ih hdigits _
        _ ≤ (value + 1) * 10 * 10 ^ digits.length := Nat.mul_le_mul_right _ (by omega)
        _ = (value + 1) * 10 ^ (c :: digits).length := by
          rw [List.length_cons, Nat.pow_succ', Nat.mul_assoc]

/-- Digits are read until there are enough of them, or no more. -/
theorem digitsFrom_append {digits : List Char} (hdigits : ∀ c ∈ digits, c.isDigit = true)
    {rest : List Char} {budget value : Nat} (hlength : digits.length ≤ budget)
    (hrest : digits.length = budget ∨ NoDigit rest)
    (hmax : Nat.ofDigitChars 10 digits value ≤ maxNumber) :
    digitsFrom budget value (digits ++ rest) =
      .ok (Nat.ofDigitChars 10 digits value, rest) := by
  induction digits generalizing budget value with
  | nil =>
      rw [List.nil_append, Nat.ofDigitChars_nil]
      cases budget with
      | zero => rfl
      | succ budget =>
          have hrest := hrest.resolve_left (by simp)
          cases rest with
          | nil => rfl
          | cons c more =>
              have hc : digit? c = none := by
                simpa [isDigit] using hrest c more rfl
              rw [digitsFrom, hc]
  | cons c digits ih =>
      obtain ⟨hc, hdigits⟩ := List.forall_mem_cons.mp hdigits
      rw [List.length_cons] at hlength hrest
      obtain ⟨budget, rfl⟩ : ∃ less, budget = less + 1 := ⟨budget - 1, by omega⟩
      rw [Nat.ofDigitChars_cons] at hmax ⊢
      have hnot : ¬ maxNumber < 10 * value + (c.toNat - '0'.toNat) :=
        Nat.not_lt.mpr (Nat.le_trans (le_ofDigitChars digits _) hmax)
      rw [List.cons_append, digitsFrom, digit?_of_isDigit hc]
      simp only [if_neg hnot]
      exact ih hdigits (Nat.le_of_succ_le_succ hlength) (hrest.imp_left Nat.succ.inj) hmax

/-- Digits are read as their number. -/
theorem number_append {digits : List Char} (hne : digits ≠ [])
    (hdigits : ∀ c ∈ digits, c.isDigit = true) {rest : List Char} {width : Nat}
    (hlength : digits.length ≤ width) (hrest : digits.length = width ∨ NoDigit rest)
    (hmax : Nat.ofDigitChars 10 digits 0 ≤ maxNumber) :
    number width (digits ++ rest) = .ok (Nat.ofDigitChars 10 digits 0, rest) := by
  obtain ⟨c, more, rfl⟩ := List.exists_cons_of_ne_nil hne
  have hread := digitsFrom_append hdigits hlength hrest hmax
  rw [List.cons_append] at hread ⊢
  rw [number, isDigit_of_char_isDigit (hdigits c List.mem_cons_self)]
  exact hread

/-! ### Padding -/

theorem char_isDigit_of_mem_padded {width n : Nat} {c : Char} (h : c ∈ padded width n) :
    c.isDigit = true := by
  simp only [padded, toList_toString, List.mem_append, List.mem_replicate] at h
  rcases h with ⟨-, rfl⟩ | h
  · rfl
  · exact char_isDigit_of_mem_toDigits h

/-- Zeros in front do not change a number. -/
theorem ofDigitChars_padded (width n : Nat) : Nat.ofDigitChars 10 (padded width n) 0 = n := by
  have hzeros (k : Nat) : Nat.ofDigitChars 10 (List.replicate k '0') 0 = 0 := by
    induction k with
    | zero => rfl
    | succ k ih =>
        rw [List.replicate_succ, Nat.ofDigitChars_cons]
        exact ih
  simp only [padded, toList_toString, Nat.ofDigitChars_append, hzeros]
  exact Nat.ofDigitChars_toDigits (by decide) (by decide)

theorem length_padded {width n : Nat} (hwidth : 0 < width) (hn : n < 10 ^ width) :
    (padded width n).length = width := by
  have hle : (Nat.toDigits 10 n).length ≤ width :=
    (Nat.length_toDigits_le_iff (by decide) hwidth).mpr hn
  simp only [padded, toList_toString, List.length_append, List.length_replicate]
  omega

theorem padded_ne_nil (width n : Nat) : padded width n ≠ [] := by
  simp [padded, Nat.toDigits_ne_nil]

/-- A number that is written with zeros before it is read as that number. -/
theorem number_padded {width n : Nat} (hwidth : 0 < width) (hn : n < 10 ^ width)
    (hmax : n ≤ maxNumber) (rest : List Char) :
    number width (padded width n ++ rest) = .ok (n, rest) := by
  have hlength := length_padded hwidth hn
  have hread : number width (padded width n ++ rest) =
      .ok (Nat.ofDigitChars 10 (padded width n) 0, rest) :=
    number_append (padded_ne_nil width n) (fun _ => char_isDigit_of_mem_padded)
      (Nat.le_of_eq hlength) (.inl hlength) (by rwa [ofDigitChars_padded])
  rwa [ofDigitChars_padded] at hread

/-- No blank stands before a number that is written. -/
theorem trimLeft_padded (width n : Nat) (rest : List Char) :
    trimLeft (padded width n ++ rest) = padded width n ++ rest := by
  obtain ⟨c, more, hcons⟩ := List.exists_cons_of_ne_nil (padded_ne_nil width n)
  have hc : c.isDigit = true := char_isDigit_of_mem_padded (hcons ▸ List.mem_cons_self)
  rw [hcons, List.cons_append, trimLeft, List.dropWhile_cons_of_neg (by
    simp [not_isBlank_of_isDigit hc])]

/-- A number of two digits is read if it is within its bounds. -/
theorem shortNumber_padded {low high n : Nat} (hlow : low ≤ n) (hhigh : n ≤ high)
    (hn : n < 100) (rest : List Char) :
    shortNumber low high (padded 2 n ++ rest) = .ok (n, rest) := by
  rw [shortNumber, trimLeft_padded,
    number_padded (by decide) hn (Nat.le_trans (Nat.le_of_lt hn) (by decide))]
  exact if_neg (by omega)

/-- A mark that is no blank is taken off. -/
theorem separator_cons {mark : Char} (h : isBlank mark = false) (rest : List Char) :
    separator mark (mark :: rest) = .ok ((), rest) := by
  rw [separator, trimLeft, List.dropWhile_cons_of_neg (by simp [h])]
  exact if_pos rfl

/-! ### Years

Years from 0 to 9999 have four digits and no sign. All others have a sign, and as many digits as
they need. -/

/-- A sign is read with all digits after it. -/
theorem number_after_sign (n : Nat) (hmax : n ≤ maxNumber) {rest : List Char}
    (hrest : NoDigit rest) :
    number (padded 4 n ++ rest).length (padded 4 n ++ rest) = .ok (n, rest) := by
  have hread := number_append (padded_ne_nil 4 n) (fun _ => char_isDigit_of_mem_padded)
    (by simp : (padded 4 n).length ≤ (padded 4 n ++ rest).length) (.inr hrest)
    (by rwa [ofDigitChars_padded])
  rwa [ofDigitChars_padded] at hread

/-- The years of instants are within the years that are read. -/
theorem year_yearText {y : Int} (hlow : -262143 ≤ y) (hhigh : y ≤ 262142) {rest : List Char}
    (hrest : NoDigit rest) : year (yearText y ++ rest) = .ok (y, rest) := by
  have hrange : ¬ (y < -2147483648 ∨ 2147483647 < y) := by omega
  have hmax : y.natAbs ≤ maxNumber := by
    simp only [maxNumber]
    omega
  by_cases hshort : 0 ≤ y ∧ y ≤ 9999
  · rw [yearText, if_pos hshort, year, trimLeft_padded]
    have hread : number 4 (padded 4 y.toNat ++ rest) = .ok (y.toNat, rest) :=
      number_padded (by decide) (by omega) (by omega) rest
    have hy : (y.toNat : Int) = y := Int.toNat_of_nonneg hshort.1
    -- the first character is a digit, so that there is no sign
    obtain ⟨c, more, hcons⟩ := List.exists_cons_of_ne_nil (padded_ne_nil 4 y.toNat)
    have hc : c.isDigit = true := char_isDigit_of_mem_padded (hcons ▸ List.mem_cons_self)
    rw [hcons, List.cons_append] at hread ⊢
    split
    · rename_i heq
      rw [(List.cons.inj heq).1] at hc
      cases hc
    · rename_i heq
      rw [(List.cons.inj heq).1] at hc
      cases hc
    · simp only [hread, hy, pure, Except.pure, bind, Except.bind, if_neg hrange]
  · rw [yearText, if_neg hshort]
    have hread := number_after_sign y.natAbs hmax hrest
    -- with a sign: the sign says on which side of zero the digits are
    by_cases hneg : y < 0
    · have hy : -(y.natAbs : Int) = y := by omega
      have htrim : trimLeft ('-' :: (padded 4 y.natAbs ++ rest)) =
          '-' :: (padded 4 y.natAbs ++ rest) := rfl
      simp only [if_pos hneg, List.cons_append, year, htrim, hread, hy, pure, Except.pure, bind,
        Except.bind, if_neg hrange]
    · have hy : (y.natAbs : Int) = y := by omega
      have htrim : trimLeft ('+' :: (padded 4 y.natAbs ++ rest)) =
          '+' :: (padded 4 y.natAbs ++ rest) := rfl
      simp only [if_neg hneg, List.cons_append, year, htrim, hread, hy, pure, Except.pure, bind,
        Except.bind, if_neg hrange]

/-! ### Fractions

The digits stand for the nanoseconds after the places that are missing have been filled with
zeros. -/

/-- The digits of a fraction after its point, if there are any. -/
def pointText (digits : List Char) : List Char :=
  if digits = [] then [] else '.' :: digits

/-- The nanoseconds that the digits of a fraction stand for. -/
def nanosOf (digits : List Char) : Nat :=
  Nat.ofDigitChars 10 digits 0 * 10 ^ (9 - digits.length)

/-- Up to nine digits stand for less than a second. -/
theorem nanosOf_lt {digits : List Char} (hdigits : ∀ c ∈ digits, c.isDigit = true)
    (hlength : digits.length ≤ 9) : nanosOf digits < nanosPerSecond := by
  have hlt : Nat.ofDigitChars 10 digits 0 < 10 ^ digits.length := by
    have h := ofDigitChars_lt hdigits 0
    rwa [Nat.zero_add, Nat.one_mul] at h
  calc
    nanosOf digits < 10 ^ digits.length * 10 ^ (9 - digits.length) :=
      Nat.mul_lt_mul_of_pos_right hlt (Nat.pow_pos (by decide))
    _ = 10 ^ 9 := by rw [← Nat.pow_add, Nat.add_sub_cancel' hlength]

/-- The digits of a fraction stand for as many of the nine places as there are. -/
theorem fraction_pointText {digits : List Char} (hdigits : ∀ c ∈ digits, c.isDigit = true)
    (hlength : digits.length ≤ 9) {mark : Char} (hpoint : mark ≠ '.')
    (hmark : isDigit mark = false) (rest : List Char) :
    fraction (pointText digits ++ mark :: rest) = .ok (nanosOf digits, mark :: rest) := by
  unfold pointText
  split
  · rename_i hempty
    rw [hempty, List.nil_append, fraction]
    · rfl
    · intro more heq
      exact hpoint (List.cons.inj heq).1
  · rename_i hne
    have hrest : NoDigit (mark :: rest) := noDigit_cons hmark rest
    have hmax : Nat.ofDigitChars 10 digits 0 ≤ maxNumber := by
      have hlt := ofDigitChars_lt hdigits 0
      have hle : 10 ^ digits.length ≤ 10 ^ 9 := Nat.pow_le_pow_right (by decide) hlength
      simp only [maxNumber]
      omega
    have hread := number_append hne hdigits hlength (.inr hrest) hmax
    have hused : (digits ++ mark :: rest).length - (mark :: rest).length = digits.length := by
      rw [List.length_append, Nat.add_sub_cancel]
    simp only [List.cons_append, fraction, hread, pure, Except.pure, bind, Except.bind, hused,
      dropWhile_of_noDigit hrest]
    rfl

/-- A fraction of fewer digits counts in units of its last place. -/
theorem nanosOf_padded {width n : Nat} (hwidth : 0 < width) (hn : n < 10 ^ width) :
    nanosOf (padded width n) = n * 10 ^ (9 - width) := by
  rw [nanosOf, ofDigitChars_padded, length_padded hwidth hn]

/-- A fraction is written in 0, 3, 6 or 9 digits. -/
theorem exists_fractionDigits {nano : Nat} (hnano : nano < nanosPerSecond) :
    ∃ digits, fractionText nano = pointText digits ∧ (∀ c ∈ digits, c.isDigit = true) ∧
      digits.length ∈ [0, 3, 6, 9] ∧ nanosOf digits = nano := by
  simp only [nanosPerSecond] at hnano
  have hpadded (width n : Nat) (hwidth : width ∈ [3, 6, 9]) (hn : n < 10 ^ width)
      (htext : fractionText nano = '.' :: padded width n) (hvalue : n * 10 ^ (9 - width) = nano) :
      ∃ digits, fractionText nano = pointText digits ∧ (∀ c ∈ digits, c.isDigit = true) ∧
        digits.length ∈ [0, 3, 6, 9] ∧ nanosOf digits = nano := by
    have hpos : 0 < width := by
      simp only [List.mem_cons, List.not_mem_nil, or_false] at hwidth
      omega
    refine ⟨padded width n, ?_, fun _ => char_isDigit_of_mem_padded, ?_, ?_⟩
    · rw [htext, pointText, if_neg (padded_ne_nil width n)]
    · rw [length_padded hpos hn]
      exact List.mem_cons_of_mem 0 hwidth
    · rw [nanosOf_padded hpos hn, hvalue]
  -- as few digits as will do: none, millis, micros or nanos
  by_cases hzero : nano = 0
  · subst nano
    exact ⟨[], rfl, nofun, List.mem_cons_self, rfl⟩
  · by_cases hmillis : nano % 1000000 = 0
    · refine hpadded 3 (nano / 1000000) (by decide) (by omega) ?_
        (Nat.div_mul_cancel (Nat.dvd_of_mod_eq_zero hmillis))
      rw [fractionText, if_neg hzero, if_pos hmillis]
    · by_cases hmicros : nano % 1000 = 0
      · refine hpadded 6 (nano / 1000) (by decide) (by omega) ?_
          (Nat.div_mul_cancel (Nat.dvd_of_mod_eq_zero hmicros))
        rw [fractionText, if_neg hzero, if_neg hmillis, if_pos hmicros]
      · refine hpadded 9 nano (by decide) hnano ?_ (Nat.mul_one nano)
        rw [fractionText, if_neg hzero, if_neg hmillis, if_neg hmicros]

/-- A fraction is read as the nanoseconds that it was written for. -/
theorem fraction_fractionText {nano : Nat} (hnano : nano < nanosPerSecond) (rest : List Char) :
    fraction (fractionText nano ++ 'Z' :: rest) = .ok (nano, 'Z' :: rest) := by
  obtain ⟨digits, htext, hdigits, hlength, hvalue⟩ := exists_fractionDigits hnano
  have hle : digits.length ≤ 9 := by
    simp only [List.mem_cons, List.not_mem_nil, or_false] at hlength
    omega
  rw [htext, fraction_pointText hdigits hle (by decide) rfl, hvalue]

/-! ### Readings

A reading is what a clock shows, before it is asked whether there is such a day. -/

/-- The text of a reading up to its second. -/
def clockText (r : Reading) : List Char :=
  yearText r.date.year ++ '-' :: padded 2 r.date.month ++ '-' :: padded 2 r.date.day ++
    'T' :: padded 2 r.hour ++ ':' :: padded 2 r.minute ++ ':' :: padded 2 r.second

/-- A clock shows this. -/
structure Shows (r : Reading) : Prop where
  year : -262143 ≤ r.date.year ∧ r.date.year ≤ 262142
  month : 1 ≤ r.date.month ∧ r.date.month ≤ 12
  day : 1 ≤ r.date.day ∧ r.date.day ≤ 31
  hour : r.hour ≤ 23
  minute : r.minute ≤ 59
  second : r.second ≤ 60

/-- A reading is read from the text of its clock and what is read after it. -/
theorem reading_clockText {r : Reading} (h : Shows r) {rest rest' : List Char}
    (hfraction : fraction rest = .ok (r.nano, rest'))
    (hoffset : Rfc3339.offset (trimLeft rest') = .ok (r.offset, [])) :
    reading (clockText r ++ rest) = .ok r := by
  obtain ⟨⟨year, month, day⟩, hour, minute, second, nano, offset⟩ := r
  obtain ⟨hyear, hmonth, hday, hhour, hminute, hsecond⟩ := h
  simp only [reading, clockText, List.append_assoc, List.cons_append,
    year_yearText hyear.1 hyear.2 (noDigit_cons (rfl : isDigit '-' = false) _),
    separator_cons (rfl : isBlank '-' = false), separator_cons (rfl : isBlank ':' = false),
    shortNumber_padded hmonth.1 hmonth.2 (Nat.lt_of_le_of_lt hmonth.2 (by decide)),
    shortNumber_padded hday.1 hday.2 (Nat.lt_of_le_of_lt hday.2 (by decide)),
    shortNumber_padded (Nat.zero_le _) hhour (Nat.lt_of_le_of_lt hhour (by decide)),
    shortNumber_padded (Nat.zero_le _) hminute (Nat.lt_of_le_of_lt hminute (by decide)),
    shortNumber_padded (Nat.zero_le _) hsecond (Nat.lt_of_le_of_lt hsecond (by decide)),
    dateTimeMark, hfraction, hoffset, bind, Except.bind, trimLeft_nil, true_or, if_true]
  rfl

/-- A reading is written as its clock, its fraction and the letter of its offset. -/
theorem readingText_eq (r : Reading) :
    readingText r = clockText r ++ (fractionText r.nano ++ ['Z']) := by
  simp only [readingText, clockText, List.append_assoc, List.cons_append]

/-- What a clock shows without an offset is read again. -/
theorem reading_readingText {r : Reading} (h : Shows r) (hnano : r.nano < nanosPerSecond)
    (hoffset : r.offset = 0) : reading (readingText r) = .ok r := by
  rw [readingText_eq]
  exact reading_clockText h (fraction_fractionText hnano []) (by rw [hoffset]; rfl)

end MessageExport.Instant.Rfc3339

namespace MessageExport.Instant

open Calendar Rfc3339

theorem firstDay_eq : firstDay = -96465292 := by decide

theorem lastDay_eq : lastDay = 95026236 := by decide

/-- The days of instants have years that are read. -/
theorem year_ofDayNumber {day : Int} (h : firstDay ≤ day ∧ day ≤ lastDay) :
    -262143 ≤ (Date.ofDayNumber day).year ∧ (Date.ofDayNumber day).year ≤ 262142 := by
  obtain ⟨era, yearOfEra, month, dayOfYear, hday⟩ := exists_yearDay day
  rw [firstDay_eq, lastDay_eq, hday.number_eq] at h
  have hyear := hday.year_lt
  have hle := hday.day_le
  have hmonth := hday.month_eq
  rw [hday.date_eq]
  simp only [daysPerEra, epochOffset, daysBeforeYear] at h ⊢
  -- the first and the last day each lie in an era of their own
  have hfirstEra : -656 ≤ era := by omega
  have hlastEra : era ≤ 655 := by omega
  have hera : era = -656 ∨ (-655 ≤ era ∧ era ≤ 654) ∨ era = 655 := by omega
  rcases hera with rfl | hera | rfl <;> split <;> omega

/-- What an instant is shown as is what a clock can show. -/
theorem shows_toReading (t : Instant) : Shows t.toReading := by
  have hexists := exists_ofDayNumber t.day
  have hsecond : t.second < 86400 := t.second_lt
  refine ⟨year_ofDayNumber t.day_mem, hexists.month_mem, hexists.day_mem, ?_, ?_, ?_⟩
  · simp only [toReading]
    omega
  · simp only [toReading]
    omega
  · simp only [toReading]
    split <;> omega

/-- The reading of an instant is one of a day that there is. -/
theorem inRange_toReading (t : Instant) : inRange t.toReading = true := by
  have hyear := year_ofDayNumber t.day_mem
  have hexists := exists_ofDayNumber t.day
  simp [inRange, toReading, hyear, hexists]

/-- A leap second is the second 60 of its minute, so that it is told from the second before. -/
theorem ofReading?_toReading (t : Instant) : ofReading? t.toReading = some t := by
  have hlt : t.second < 86400 := t.second_lt
  have hnano : t.nano < 2000000000 := t.nano_lt
  have hleap : 1000000000 ≤ t.nano → t.second % 60 = 59 := t.leap
  have hseconds : t.toReading.secondOfDay = t.second := by
    simp only [Reading.secondOfDay, toReading, isLeap, nanosPerSecond]
    by_cases h : 1000000000 ≤ t.nano
    · simp only [h, decide_true, if_true]
      omega
    · simp only [h, decide_false, Bool.false_eq_true, if_false]
      omega
  have hnanos : t.toReading.nanos = t.nano := by
    simp only [Reading.nanos, toReading, isLeap, nanosPerSecond]
    by_cases h : 1000000000 ≤ t.nano
    · simp only [h, decide_true, if_true, hleap h]
      omega
    · simp only [h, decide_false, Bool.false_eq_true, if_false]
      rw [if_neg (by omega)]
      omega
  have hday : dayNumber t.toReading.date = t.day := dayNumber_ofDayNumber t.day
  have hoffset : t.toReading.offset = 0 := rfl
  have hdays : (t.second : Int) / secondsPerDay = 0 :=
    Int.ediv_eq_zero_of_lt (Int.natCast_nonneg _) (by exact_mod_cast t.second_lt)
  have hrest : ((t.second : Int) % secondsPerDay).toNat = t.second := by
    rw [Int.emod_eq_of_lt (Int.natCast_nonneg _) (by exact_mod_cast t.second_lt), Int.toNat_natCast]
  simp only [ofReading?, hseconds, hnanos, hday, hoffset, Int.sub_zero, hdays, hrest,
    Int.add_zero]
  exact dif_pos ⟨t.day_mem, t.second_lt, t.nano_lt, t.leap⟩

/-- What is written for an instant is read as that instant. -/
theorem ofString_toString (t : Instant) : ofString (toString t) = .ok t := by
  have htext : (toString t).toList = readingText t.toReading := String.toList_ofList
  have hreading : reading (readingText t.toReading) = .ok t.toReading :=
    reading_readingText (shows_toReading t) (Nat.mod_lt _ (by decide)) rfl
  rw [ofString, htext, Rfc3339.read, hreading]
  simp only [bind, Except.bind, inRange_toReading, ofReading?_toReading, if_true]
  rfl

end MessageExport.Instant
