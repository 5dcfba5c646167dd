import Mathlib.Tactic.IntervalCases
import MessageExport.Calendar
/-!
# MessageExport.Proofs.Calendar

**Every day has one date**: the date of a day number is a day of its month, and has that
day number; and day numbers follow the calendar, from each date to the next.

A day of an era is taken apart into a century, a period of four years within it, and a day
of that period. The last day of a period is a leap day, which the last period of a century
has only at the end of the era.

## Shape of the proofs

The computation is over numbers, with divisions by constants, and `omega` closes what is left
once the divisions are known. So the lemmas name the quotients: an `EraDay` has the century,
period and day that a number is made of, and a `YearDay` the era, year and day. Each field is a
bound that a later division needs, and the leap days are in the fields `leap`.
-/

namespace MessageExport.Calendar

/-- A day of an era, by century, period of four years and day of that period. -/
structure EraDay (dayOfEra century period day : Nat) : Prop where
  century_lt : century < 4
  period_lt : period < 25
  day_le : day ≤ 1460
  /-- The last period of a century has no leap day, but for the last of the era. -/
  leap : day = 1460 → period < 24 ∨ century = 3
  eq : dayOfEra = 36524 * century + 1461 * period + day

/-- The last day of an era is one more than its centuries would give it, and is the only
exception. -/
theorem exists_eraDay {dayOfEra : Nat} (h : dayOfEra < 146097) :
    ∃ century period day, EraDay dayOfEra century period day := by
  by_cases hlast : dayOfEra = 146096
  · exact ⟨3, 24, 1460, by decide, by decide, by decide, fun _ => .inr rfl, hlast⟩
  · exact ⟨dayOfEra / 36524, dayOfEra % 36524 / 1461, dayOfEra % 36524 % 1461,
      by omega, by omega, by omega, by omega, by omega⟩

/-- The year of a day of an era. -/
def yearOfDay (dayOfEra : Nat) : Nat :=
  (dayOfEra - dayOfEra / 1460 + dayOfEra / 36524 - dayOfEra / 146096) / 365

namespace EraDay

variable {dayOfEra century period day : Nat}

/-- A period has three years of 365 days and then one that may have a leap day. -/
theorem yearOfDay_eq (h : EraDay dayOfEra century period day) :
    yearOfDay dayOfEra = 100 * century + 4 * period + min (day / 365) 3 := by
  obtain ⟨hcentury, hperiod, hday, hleap, rfl⟩ := h
  have hcenturies : (36524 * century + 1461 * period + day) / 36524 =
      century + (36524 * century + 1461 * period + day) / 146096 := by
    by_cases hlast : 36524 * century + 1461 * period + day < 146096
    · rw [Nat.div_eq_of_lt hlast]
      omega
    · omega
  have hperiods : (36524 * century + 1461 * period + day) / 1460 =
      25 * century + period + (24 * century + period + day) / 1460 := by
    omega
  rw [yearOfDay, hcenturies, hperiods]
  omega

/-- The days before the year of a day, by its period. -/
theorem daysBeforeYear_eq (h : EraDay dayOfEra century period day) :
    daysBeforeYear (yearOfDay dayOfEra) =
      36524 * century + 1461 * period + 365 * min (day / 365) 3 := by
  have hcentury := h.century_lt
  have hperiod := h.period_lt
  have hquarter : (100 * century + 4 * period + min (day / 365) 3) / 4 =
      25 * century + period := by
    omega
  have hhundred : (100 * century + 4 * period + min (day / 365) 3) / 100 = century := by
    omega
  rw [h.yearOfDay_eq, daysBeforeYear, hquarter, hhundred]
  omega

end EraDay

/-- A day of an era falls into its year, and is the last of 366 only before a leap year
begins. -/
theorem yearOfDay_spec {dayOfEra : Nat} (h : dayOfEra < 146097) :
    yearOfDay dayOfEra < 400 ∧ daysBeforeYear (yearOfDay dayOfEra) ≤ dayOfEra ∧
      dayOfEra - daysBeforeYear (yearOfDay dayOfEra) ≤ 365 ∧
      (dayOfEra - daysBeforeYear (yearOfDay dayOfEra) = 365 →
        (yearOfDay dayOfEra + 1) % 4 = 0 ∧
          ((yearOfDay dayOfEra + 1) % 100 ≠ 0 ∨ yearOfDay dayOfEra + 1 = 400)) := by
  obtain ⟨century, period, day, hday⟩ := exists_eraDay h
  rw [hday.daysBeforeYear_eq, hday.yearOfDay_eq, hday.eq]
  obtain ⟨hcentury, hperiod, hle, hleap, -⟩ := hday
  refine ⟨by omega, by omega, by omega, fun hlast => ?_⟩
  have hday : day = 1460 := by omega
  have hperiod := hleap hday
  omega

/-- A day of a year falls into its month. -/
theorem monthOfDay_spec {dayOfYear : Nat} (h : dayOfYear ≤ 365) :
    (5 * dayOfYear + 2) / 153 < 12 ∧
      daysBeforeMonth ((5 * dayOfYear + 2) / 153) ≤ dayOfYear ∧
      dayOfYear < daysBeforeMonth ((5 * dayOfYear + 2) / 153 + 1) := by
  simp only [daysBeforeMonth]
  omega

/-- A date of the calendar as a day of its year, which begins in March. -/
structure YearDay (number : Int) (date : Date) (era : Int) (yearOfEra month dayOfYear : Nat) :
    Prop where
  number_eq : number = era * daysPerEra + (daysBeforeYear yearOfEra + dayOfYear : Nat) - epochOffset
  year_lt : yearOfEra < 400
  day_le : dayOfYear ≤ 365
  leap : dayOfYear = 365 →
    (yearOfEra + 1) % 4 = 0 ∧ ((yearOfEra + 1) % 100 ≠ 0 ∨ yearOfEra + 1 = 400)
  month_eq : month = (5 * dayOfYear + 2) / 153
  date_eq : date =
    { year := if month < 10 then era * 400 + yearOfEra else era * 400 + yearOfEra + 1
      month := if month < 10 then month + 3 else month - 9
      day := dayOfYear - daysBeforeMonth month + 1 }

/-- The date of a day number is that of a day of its year. -/
theorem exists_yearDay (number : Int) :
    ∃ era yearOfEra month dayOfYear,
      YearDay number (Date.ofDayNumber number) era yearOfEra month dayOfYear := by
  have hera : (((number + epochOffset) % daysPerEra).toNat : Int) =
      (number + epochOffset) % daysPerEra :=
    Int.toNat_of_nonneg (Int.emod_nonneg _ (by decide))
  have hlt : ((number + epochOffset) % daysPerEra).toNat < 146097 := by
    have := Int.emod_lt_of_pos (number + epochOffset) (b := daysPerEra) (by decide)
    simp only [daysPerEra] at *
    omega
  obtain ⟨hyear, hle, hday, hleap⟩ := yearOfDay_spec hlt
  refine ⟨(number + epochOffset) / daysPerEra, _, _, _, ?_, hyear, hday, hleap, rfl, rfl⟩
  rw [Nat.add_sub_cancel' hle, hera, Int.mul_comm, Int.mul_ediv_add_emod]
  omega

namespace YearDay

variable {number : Int} {date : Date} {era : Int} {yearOfEra month dayOfYear : Nat}

/-- Counting back from the date gives the day number. -/
theorem dayNumber_eq (h : YearDay number date era yearOfEra month dayOfYear) :
    dayNumber date = number := by
  obtain ⟨hmonth, hbefore, -⟩ := monthOfDay_spec h.day_le
  rw [← h.month_eq] at hmonth hbefore
  have hyear := h.year_lt
  -- from March on the year is that of the date, and before it the one before
  have hback : (if date.month ≤ 2 then date.year - 1 else date.year) = era * 400 + yearOfEra := by
    rw [h.date_eq]
    by_cases hm : month < 10
    · simp only [if_pos hm]
      rw [if_neg (by omega)]
    · simp only [if_neg hm]
      rw [if_pos (by omega), Int.add_sub_cancel]
  have hmonth' : (date.month + 9) % 12 = month := by
    rw [h.date_eq]
    by_cases hm : month < 10
    · simp only [if_pos hm]
      omega
    · simp only [if_neg hm]
      omega
  have hday : daysBeforeMonth month + (date.day - 1) = dayOfYear := by
    rw [h.date_eq]
    simp only
    omega
  have hera : (era * 400 + (yearOfEra : Int)) / 400 = era := by omega
  have hyearOfEra : ((era * 400 + (yearOfEra : Int)) % 400).toNat = yearOfEra := by omega
  rw [dayNumber]
  simp only [hback, hmonth', hera, hyearOfEra, Nat.add_assoc, hday]
  exact h.number_eq.symm

/-- The date is a day of its month. -/
theorem exists_date (h : YearDay number date era yearOfEra month dayOfYear) : date.Exists := by
  obtain ⟨hmonth, hbefore, hafter⟩ := monthOfDay_spec h.day_le
  rw [← h.month_eq] at hmonth hbefore hafter
  have hday := h.day_le
  have hleap := h.leap
  rw [h.date_eq]
  refine ⟨Nat.le_add_left 1 _, ?_⟩
  simp only [daysBeforeMonth] at hbefore hafter ⊢
  -- February is the last month; it has a day more only if the year that begins is a leap year
  by_cases hfebruary : month = 11
  · subst hfebruary
    by_cases hlast : dayOfYear = 365
    · obtain ⟨hfour, hhundred⟩ := hleap hlast
      have hleapYear : isLeapYear (era * 400 + yearOfEra + 1) = true := by
        simp only [isLeapYear, Bool.and_eq_true, Bool.or_eq_true, bne_iff_ne, beq_iff_eq]
        omega
      simp only [daysInMonth, Nat.reduceLT, if_false, Nat.reduceSub, hleapYear, if_true]
      omega
    · have hle : 28 ≤ daysInMonth (era * 400 + yearOfEra + 1) 2 := by
        simp only [daysInMonth]
        split <;> decide
      simp only [Nat.reduceLT, if_false, Nat.reduceSub]
      omega
  · have hmonths : month < 11 := by omega
    interval_cases month <;> simp [daysInMonth] <;> omega

end YearDay

/-- The date of a day number has that day number. -/
theorem dayNumber_ofDayNumber (number : Int) : dayNumber (Date.ofDayNumber number) = number := by
  obtain ⟨_, _, _, _, h⟩ := exists_yearDay number
  exact h.dayNumber_eq

/-- The date of a day number is a day of its month. -/
theorem exists_ofDayNumber (number : Int) : (Date.ofDayNumber number).Exists := by
  obtain ⟨_, _, _, _, h⟩ := exists_yearDay number
  exact h.exists_date

/-! ### From day to day

Day numbers are not only found again, they count the days: the day after a date has the next
one. Years are counted from March here as well, so that a leap day is the last of its year. -/

/-- The day after a date. -/
def Date.next (date : Date) : Date :=
  if date.day < daysInMonth date.year date.month then { date with day := date.day + 1 }
  else if date.month < 12 then { date with month := date.month + 1, day := 1 }
  else ⟨date.year + 1, 1, 1⟩

/-- A date has a month of the year. -/
theorem Date.Exists.month_mem {date : Date} (h : date.Exists) :
    1 ≤ date.month ∧ date.month ≤ 12 := by
  by_contra hmonth
  have hdays : daysInMonth date.year date.month = 0 := by
    unfold daysInMonth
    split <;> first | rfl | omega
  have hday := h.1
  have hle := h.2
  omega

/-- No month has more than 31 days. -/
theorem Date.Exists.day_mem {date : Date} (h : date.Exists) :
    1 ≤ date.day ∧ date.day ≤ 31 := by
  have hdays : daysInMonth date.year date.month ≤ 31 := by
    unfold daysInMonth
    split <;> first | decide | (split <;> decide)
  exact ⟨h.1, Nat.le_trans h.2 hdays⟩

/-- A month has a first day. -/
theorem exists_first (year : Int) {month : Nat} (h : 1 ≤ month ∧ month ≤ 12) :
    Date.Exists ⟨year, month, 1⟩ := by
  obtain ⟨hlow, hhigh⟩ := h
  refine ⟨Nat.le_refl 1, ?_⟩
  interval_cases month <;> simp only [daysInMonth] <;> first | decide | (split <;> decide)

/-- The day after a day of the calendar is one. -/
theorem Date.Exists.next {date : Date} (h : date.Exists) : date.next.Exists := by
  have hmonth := h.month_mem
  unfold Date.next
  split
  · rename_i hday
    exact ⟨Nat.le_add_left 1 _, hday⟩
  · split
    · exact exists_first _ (by omega)
    · exact exists_first _ (by decide)

/-- Days from the first March of an era on, up to the March that a year begins in. -/
def daysBeforeMarch (year : Int) : Int :=
  year / 400 * daysPerEra + daysBeforeYear (year % 400).toNat

/-- A year that begins in March has the leap day of the next year. -/
theorem daysBeforeMarch_succ (year : Int) :
    daysBeforeMarch (year + 1) =
      daysBeforeMarch year + (if isLeapYear (year + 1) then 366 else 365) := by
  have hleap : isLeapYear (year + 1) = true ↔
      (year + 1) % 4 = 0 ∧ ((year + 1) % 100 ≠ 0 ∨ (year + 1) % 400 = 0) := by
    simp [isLeapYear]
  simp only [daysBeforeMarch, daysBeforeYear, daysPerEra, hleap]
  split <;> omega

/-- A day number is the days before the March-based year, then the days before the month. -/
theorem dayNumber_eq_daysBeforeMarch (date : Date) :
    dayNumber date =
      daysBeforeMarch (if date.month ≤ 2 then date.year - 1 else date.year) +
        (daysBeforeMonth ((date.month + 9) % 12) + (date.day - 1) : Nat) - epochOffset := by
  simp only [dayNumber, daysBeforeMarch]
  omega

/-- The day after a date has the next day number. -/
theorem dayNumber_next {date : Date} (h : date.Exists) :
    dayNumber date.next = dayNumber date + 1 := by
  obtain ⟨hlow, hhigh⟩ := h.month_mem
  obtain ⟨year, month, day⟩ := date
  obtain ⟨hday, hle⟩ := h
  simp only at hlow hhigh hday hle
  simp only [dayNumber_eq_daysBeforeMarch, Date.next]
  have hmarch := daysBeforeMarch_succ (year - 1)
  rw [Int.sub_add_cancel] at hmarch
  by_cases hmore : day < daysInMonth year month
  · simp only [if_pos hmore]
    omega
  · obtain rfl : day = daysInMonth year month := Nat.le_antisymm hle (Nat.le_of_not_lt hmore)
    simp only [Nat.lt_irrefl, if_false]
    -- after the last day of February the March-based year is another
    by_cases hfebruary : month = 2
    · subst hfebruary
      cases hleap : isLeapYear year <;>
        simp [daysBeforeMonth, daysInMonth, hleap] at hmarch ⊢ <;> omega
    · interval_cases month <;> simp [daysBeforeMonth, daysInMonth] at hfebruary ⊢ <;> omega

/-- The days of the years with four digits, give or take a year. -/
theorem dayNumber_mem {date : Date} (h : date.Exists)
    (hyear : 0 ≤ date.year ∧ date.year ≤ 9999) :
    -720000 ≤ dayNumber date ∧ dayNumber date ≤ 2933000 := by
  obtain ⟨hlow, hhigh⟩ := h.month_mem
  obtain ⟨hday, hlast⟩ := h.day_mem
  simp only [dayNumber, daysBeforeYear, daysBeforeMonth, daysPerEra, epochOffset]
  split <;> omega

end MessageExport.Calendar
