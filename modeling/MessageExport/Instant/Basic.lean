import MessageExport.Calendar
/-!
# MessageExport.Instant.Basic

**Instants** of coordinated universal time, to the nanosecond.

An instant is a day number, a second of that day and a count of nanoseconds.
A leap second is the second 59 of a minute with a count of at least a thousand
million, so that it has its own instants and does not shift the day. Instants
reach from the first day of the year -262143 to the last of 262142; the bounds
are part of the type, so whatever holds an instant can write it and read it back.
-/

namespace MessageExport

open Calendar

/-- The first day that has instants. -/
def firstDay : Int := dayNumber ⟨-262143, 1, 1⟩

/-- The last day that has instants. -/
def lastDay : Int := dayNumber ⟨262142, 12, 31⟩

/-- Nanoseconds in a second. -/
def nanosPerSecond : Nat := 1000000000

/-- Seconds in a day. -/
def secondsPerDay : Nat := 86400

/-- A point in time, in coordinated universal time. -/
structure Instant where
  /-- The day, counted from the first of January 1970. -/
  day : Int
  /-- The second of the day. -/
  second : Nat
  /-- Nanoseconds since that second began; past a full second inside a leap second. -/
  nano : Nat
  day_mem : firstDay ≤ day ∧ day ≤ lastDay
  second_lt : second < secondsPerDay
  nano_lt : nano < 2 * nanosPerSecond
  leap : nanosPerSecond ≤ nano → second % 60 = 59
  deriving DecidableEq

namespace Instant

/-- Two instants are equal as soon as their three counts are. -/
@[ext] theorem ext {a b : Instant} (hDay : a.day = b.day) (hSecond : a.second = b.second)
    (hNano : a.nano = b.nano) : a = b := by
  cases a
  cases b
  cases hDay
  cases hSecond
  cases hNano
  rfl

/-- The instant lies inside a leap second. -/
def isLeap (t : Instant) : Bool :=
  nanosPerSecond ≤ t.nano

/-- The instant with the given counts, if there is one. -/
def ofCounts? (day : Int) (second nano : Nat) : Option Instant :=
  if h : (firstDay ≤ day ∧ day ≤ lastDay) ∧ second < secondsPerDay ∧
      nano < 2 * nanosPerSecond ∧ (nanosPerSecond ≤ nano → second % 60 = 59) then
    some ⟨day, second, nano, h.1, h.2.1, h.2.2.1, h.2.2.2⟩
  else none

/-- A wall-clock reading: a date, a time of day and how far the clock is ahead
of universal time. The second 60 stands for a leap second. -/
structure Reading where
  date : Date
  hour : Nat
  minute : Nat
  second : Nat
  nano : Nat
  /-- Seconds that the clock is ahead of universal time. -/
  offset : Int
  deriving DecidableEq, Repr

/-- The second of the day that a reading shows on its own clock; second 60 counts as 59. -/
def Reading.secondOfDay (r : Reading) : Nat :=
  r.hour * 3600 + r.minute * 60 + min r.second 59

/-- The nanoseconds of a reading, past a full second for second 60. -/
def Reading.nanos (r : Reading) : Nat :=
  if r.second = 60 then r.nano + nanosPerSecond else r.nano

/-- The instant at which a clock shows a reading, if it is in range. -/
def ofReading? (r : Reading) : Option Instant :=
  let seconds := (r.secondOfDay : Int) - r.offset
  ofCounts? (dayNumber r.date + seconds / secondsPerDay) (seconds % secondsPerDay).toNat r.nanos

/-- What a clock set to universal time shows at an instant. -/
def toReading (t : Instant) : Reading where
  date := Date.ofDayNumber t.day
  hour := t.second / 3600
  minute := t.second / 60 % 60
  second := t.second % 60 + (if t.isLeap then 1 else 0)
  nano := t.nano % nanosPerSecond
  offset := 0

end Instant

end MessageExport
