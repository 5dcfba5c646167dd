/-!
# MessageExport.Calendar

The **civil calendar** (proleptic Gregorian) and its **day numbers**.

A day number counts days from the first of January 1970, negative before it.
`dayNumber` and `Date.ofDayNumber` are the two directions. Both count in eras of
400 years that begin in March, so a leap day is the last day of its year and no
table of months is needed: the months from March on have 31, 30, 31, 30, 31
days over and over, which `(153 * m + 2) / 5` sums.
-/

namespace MessageExport.Calendar

/-- A day of the civil calendar, by year, month (from 1) and day of the month (from 1). -/
structure Date where
  year : Int
  month : Nat
  day : Nat
  deriving DecidableEq, Repr

/-- Every fourth year is a leap year, of full centuries every fourth. -/
def isLeapYear (year : Int) : Bool :=
  year % 4 == 0 && (year % 100 != 0 || year % 400 == 0)

/-- How many days a month has; zero for a number that names no month. -/
def daysInMonth (year : Int) (month : Nat) : Nat :=
  match month with
  | 1 | 3 | 5 | 7 | 8 | 10 | 12 => 31
  | 4 | 6 | 9 | 11 => 30
  | 2 => if isLeapYear year then 29 else 28
  | _ => 0

/-- The date is a day of its month. -/
def Date.Exists (date : Date) : Prop :=
  1 ≤ date.day ∧ date.day ≤ daysInMonth date.year date.month

instance (date : Date) : Decidable date.Exists :=
  inferInstanceAs (Decidable (_ ∧ _))

/-- Days in an era of 400 years. -/
def daysPerEra : Int := 146097

/-- Days from the first of March of year 0 to the first of January 1970. -/
def epochOffset : Int := 719468

/-- Days of a March-based year before its month `m` (March is 0). -/
def daysBeforeMonth (m : Nat) : Nat :=
  (153 * m + 2) / 5

/-- Days of an era before its March-based year `y`. -/
def daysBeforeYear (y : Nat) : Nat :=
  365 * y + y / 4 - y / 100

/-- The number of a day, counted from the first of January 1970. -/
def dayNumber (date : Date) : Int :=
  let year := if date.month ≤ 2 then date.year - 1 else date.year
  let yearOfEra := (year % 400).toNat
  let month := (date.month + 9) % 12
  year / 400 * daysPerEra +
    (daysBeforeYear yearOfEra + daysBeforeMonth month + (date.day - 1) : Nat) - epochOffset

/-- The day with the given number. -/
def Date.ofDayNumber (number : Int) : Date :=
  let shifted := number + epochOffset
  let dayOfEra := (shifted % daysPerEra).toNat
  let yearOfEra :=
    (dayOfEra - dayOfEra / 1460 + dayOfEra / 36524 - dayOfEra / 146096) / 365
  let dayOfYear := dayOfEra - daysBeforeYear yearOfEra
  let month := (5 * dayOfYear + 2) / 153
  let year := shifted / daysPerEra * 400 + yearOfEra
  { year := if month < 10 then year else year + 1
    month := if month < 10 then month + 3 else month - 9
    day := dayOfYear - daysBeforeMonth month + 1 }

example : dayNumber ⟨1970, 1, 1⟩ = 0 := by decide

example : dayNumber ⟨2000, 2, 29⟩ = 11016 := by decide

example : Date.ofDayNumber 11016 = ⟨2000, 2, 29⟩ := by decide

example : Date.ofDayNumber (-1) = ⟨1969, 12, 31⟩ := by decide

end MessageExport.Calendar
