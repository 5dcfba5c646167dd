import MessageExport.Proofs.Instant.RoundTrip
/-!
# MessageExport.Proofs.Instant.Timestamp

What a **timestamp denotes**.

A `Timestamp` is a date and a time of day on a clock, and how far the clock is ahead of
universal time. It has a text and it denotes an instant, which is counted in nanoseconds
by day numbers and an offset alone. The reader makes of the text the instant with that
count, whichever days and years the offset leads into, and what is written for an instant
is the text of a timestamp in universal time with its count.
-/

namespace MessageExport

open Calendar Text

/-! ### Timestamps -/

/-- How far a clock is ahead of universal time, as it is written. -/
inductive Zone where
  | universal
  | ahead (hours : Fin 24) (minutes : Fin 60)
  | behind (hours : Fin 24) (minutes : Fin 60)
  deriving DecidableEq, Repr

namespace Zone

/-- Seconds that the clock is ahead of universal time. -/
def offset : Zone → Int
  | universal => 0
  | ahead hours minutes => (hours * 3600 + minutes * 60 : Nat)
  | behind hours minutes => -(hours * 3600 + minutes * 60 : Nat)

/-- `Z`, or a sign with hours and minutes. -/
def text : Zone → List Char
  | universal => ['Z']
  | ahead hours minutes =>
      '+' :: (Instant.Rfc3339.padded 2 hours ++ ':' :: Instant.Rfc3339.padded 2 minutes)
  | behind hours minutes =>
      '-' :: (Instant.Rfc3339.padded 2 hours ++ ':' :: Instant.Rfc3339.padded 2 minutes)

end Zone

/-- A date and a time of day to the nanosecond, without leap seconds, on a clock. -/
structure Timestamp where
  date : Date
  hour : Nat
  minute : Nat
  second : Nat
  /-- The digits after the point. -/
  fraction : List Char
  zone : Zone
  date_exists : date.Exists
  hour_lt : hour < 24
  minute_lt : minute < 60
  second_lt : second < 60
  isDigit_fraction : ∀ c ∈ fraction, c.isDigit = true
  length_fraction : fraction.length ≤ 9

/-- Nanoseconds from the beginning of 1970 to an instant, leap seconds apart. -/
def Instant.count (t : Instant) : Int :=
  (t.day * secondsPerDay + t.second) * nanosPerSecond + t.nano

theorem Instant.nano_lt_second (t : Instant) (h : t.isLeap = false) :
    t.nano < nanosPerSecond :=
  Nat.not_le.mp (of_decide_eq_false h)

/-- Instants outside leap seconds with the same count are the same. -/
theorem Instant.eq_of_count {a b : Instant} (ha : a.isLeap = false) (hb : b.isLeap = false)
    (h : a.count = b.count) : a = b := by
  have hanano := a.nano_lt_second ha
  have hbnano := b.nano_lt_second hb
  have hasecond := a.second_lt
  have hbsecond := b.second_lt
  simp only [Instant.count, secondsPerDay, nanosPerSecond] at *
  ext <;> omega

namespace Timestamp

/-- The nanoseconds that the fraction stands for. -/
def nano (stamp : Timestamp) : Nat :=
  Instant.Rfc3339.nanosOf stamp.fraction

/-- Nanoseconds from the beginning of 1970 to what the timestamp denotes. -/
def count (stamp : Timestamp) : Int :=
  (dayNumber stamp.date * 86400 + stamp.hour * 3600 + stamp.minute * 60 + stamp.second -
    stamp.zone.offset) * 1000000000 + stamp.nano

/-- What the clock shows. -/
def reading (stamp : Timestamp) : Instant.Reading where
  date := stamp.date
  hour := stamp.hour
  minute := stamp.minute
  second := stamp.second
  nano := stamp.nano
  offset := stamp.zone.offset

/-- The timestamp as it is written. -/
def text (stamp : Timestamp) : String :=
  String.ofList (Instant.Rfc3339.clockText stamp.reading ++
    (Instant.Rfc3339.pointText stamp.fraction ++ stamp.zone.text))

/-- The year has four digits. -/
def FourDigits (stamp : Timestamp) : Prop :=
  0 ≤ stamp.date.year ∧ stamp.date.year ≤ 9999

/-- The year is one that instants have. -/
def Readable (stamp : Timestamp) : Prop :=
  -262143 ≤ stamp.date.year ∧ stamp.date.year ≤ 262142

/-- A timestamp of a year with four digits can be read. -/
theorem FourDigits.readable {stamp : Timestamp} (h : stamp.FourDigits) : stamp.Readable := by
  obtain ⟨hlow, hhigh⟩ := h
  exact ⟨by omega, by omega⟩

end Timestamp

/-! ### Offsets -/

namespace Instant.Rfc3339

/-- A number of two digits is written as its tens and its ones. -/
theorem padded_two {n : Nat} (h : n < 100) :
    padded 2 n = [Nat.digitChar (n / 10), Nat.digitChar (n % 10)] := by
  rw [padded, toList_toString]
  by_cases hn : n < 10
  · rw [Nat.toDigits_of_lt_base hn, Nat.div_eq_of_lt hn, Nat.mod_eq_of_lt hn]
    rfl
  · rw [Nat.toDigits_of_base_le (by decide) (Nat.le_of_not_lt hn),
      Nat.toDigits_of_lt_base (by omega)]
    rfl

theorem twoDigits_padded {n : Nat} (h : n < 100) (rest : List Char) :
    twoDigits (padded 2 n ++ rest) = .ok (n / 10, n % 10, rest) := by
  have hdigit : ∀ d : Fin 10, digit? (Nat.digitChar d) = some d.val := by decide
  rw [padded_two h, List.cons_append, List.cons_append, List.nil_append, twoDigits,
    hdigit ⟨n / 10, by omega⟩, hdigit ⟨n % 10, by omega⟩]

/-- Hours and minutes are read from what is written for them. -/
theorem offsetSeconds_padded (hours : Fin 24) (minutes : Fin 60) :
    offsetSeconds (padded 2 hours ++ ':' :: padded 2 minutes) =
      .ok ((hours * 3600 + minutes * 60 : Nat), []) := by
  have hskip : (':' :: padded 2 minutes).dropWhile (fun c => c == ':' || isBlank c) =
      padded 2 minutes := by
    have hdigit : ∀ d : Fin 10,
        (Nat.digitChar d == ':' || isBlank (Nat.digitChar d)) = false := by decide
    have hfirst := hdigit ⟨minutes / 10, by omega⟩
    rw [padded_two (by omega), List.dropWhile_cons_of_pos rfl,
      List.dropWhile_cons_of_neg (by rw [hfirst]; exact Bool.false_ne_true)]
  have hminutes := twoDigits_padded (n := minutes) (by omega) []
  rw [List.append_nil] at hminutes
  have htens : ¬ 5 < minutes.val / 10 := by omega
  have hback : (10 * (hours.val / 10) + hours.val % 10) * 3600 +
      (10 * (minutes.val / 10) + minutes.val % 10) * 60 = hours * 3600 + minutes * 60 := by
    omega
  simp only [offsetSeconds, twoDigits_padded (n := hours) (by omega), hskip, hminutes, bind,
    Except.bind, if_neg htens, hback]

/-- What begins with a sign is not `UTC`. -/
theorem utcName?_cons {sign : Char} (h : sign.toUpper ≠ 'U') (rest : List Char) :
    utcName? (sign :: rest) = none := by
  unfold utcName?
  split
  · rename_i heq
    rw [← (List.cons.inj heq).1]
    exact if_neg fun hname => h hname.1
  · rfl

/-- An offset is read from what is written for it. -/
theorem offset_zone (zone : Zone) : offset (trimLeft zone.text) = .ok (zone.offset, []) := by
  cases zone with
  | universal => rfl
  | ahead hours minutes =>
      have htrim (rest : List Char) : trimLeft ('+' :: rest) = '+' :: rest := rfl
      simp only [Zone.text, htrim, offset, utcName?_cons (by decide : '+'.toUpper ≠ 'U'),
        offsetSeconds_padded, Zone.offset]
      rfl
  | behind hours minutes =>
      have htrim (rest : List Char) : trimLeft ('-' :: rest) = '-' :: rest := rfl
      simp only [Zone.text, htrim, offset, utcName?_cons (by decide : '-'.toUpper ≠ 'U'),
        offsetSeconds_padded, Zone.offset]
      rfl

end Instant.Rfc3339

/-! ### Reading a timestamp -/

theorem Zone.text_cons (zone : Zone) :
    ∃ mark rest, zone.text = mark :: rest ∧ mark ≠ '.' ∧ isDigit mark = false := by
  cases zone with
  | universal => exact ⟨'Z', [], rfl, by decide, rfl⟩
  | ahead => exact ⟨'+', _, rfl, by decide, rfl⟩
  | behind => exact ⟨'-', _, rfl, by decide, rfl⟩

theorem Zone.offset_mem (zone : Zone) : -86400 < zone.offset ∧ zone.offset < 86400 := by
  cases zone <;> simp only [Zone.offset] <;> omega

namespace Timestamp

open Instant.Rfc3339

/-- The text of a timestamp is read as what its clock shows. -/
theorem reading_text {stamp : Timestamp} (hyear : stamp.Readable) :
    Instant.Rfc3339.reading stamp.text.toList = .ok stamp.reading := by
  have hshows : Shows stamp.reading :=
    ⟨hyear, stamp.date_exists.month_mem, stamp.date_exists.day_mem,
      Nat.le_of_lt_succ stamp.hour_lt, Nat.le_of_lt_succ stamp.minute_lt,
      Nat.le_of_lt stamp.second_lt⟩
  obtain ⟨mark, rest, hzone, hpoint, hmark⟩ := stamp.zone.text_cons
  have hfraction : Instant.Rfc3339.fraction (pointText stamp.fraction ++ stamp.zone.text) =
      .ok (stamp.nano, stamp.zone.text) := by
    rw [hzone]
    exact fraction_pointText stamp.isDigit_fraction stamp.length_fraction hpoint hmark rest
  rw [text, String.toList_ofList]
  exact reading_clockText hshows hfraction (offset_zone stamp.zone)

/-- A text denotes one instant only. -/
theorem count_eq_of_text_eq {stamp other : Timestamp} (hstamp : stamp.Readable)
    (hother : other.Readable) (h : stamp.text = other.text) : stamp.count = other.count := by
  have hreading : stamp.reading = other.reading := by
    have hread := reading_text hstamp
    rw [h, reading_text hother] at hread
    exact (Except.ok.inj hread).symm
  obtain ⟨hdate, hhour, hminute, hsecond, hnano, hoffset⟩ :=
    Instant.Reading.mk.inj hreading
  simp only [count, hdate, hhour, hminute, hsecond, hnano, hoffset]

/-- The instant that a timestamp denotes is in range if its year has four digits, though
the offset may lead into another year. -/
theorem ofReading?_reading {stamp : Timestamp} (hyear : stamp.FourDigits) :
    ∃ t : Instant, Instant.ofReading? stamp.reading = some t ∧ t.isLeap = false ∧
      t.count = stamp.count := by
  have hhour := stamp.hour_lt
  have hminute := stamp.minute_lt
  have hsecond := stamp.second_lt
  have hnano : stamp.nano < 1000000000 :=
    nanosOf_lt stamp.isDigit_fraction stamp.length_fraction
  have hoffset := stamp.zone.offset_mem
  have hdays := dayNumber_mem stamp.date_exists hyear
  have hseconds : stamp.reading.secondOfDay =
      stamp.hour * 3600 + stamp.minute * 60 + stamp.second := by
    simp only [Instant.Reading.secondOfDay, reading]
    omega
  have hnanos : stamp.reading.nanos = stamp.nano := if_neg (Nat.ne_of_lt hsecond)
  generalize hs : (stamp.reading.secondOfDay : Int) - stamp.zone.offset = seconds
  have hcounts : (firstDay ≤ dayNumber stamp.date + seconds / secondsPerDay ∧
        dayNumber stamp.date + seconds / secondsPerDay ≤ lastDay) ∧
      (seconds % secondsPerDay).toNat < secondsPerDay ∧ stamp.nano < 2 * nanosPerSecond ∧
      (nanosPerSecond ≤ stamp.nano → (seconds % secondsPerDay).toNat % 60 = 59) := by
    simp only [Instant.firstDay_eq, Instant.lastDay_eq, secondsPerDay, nanosPerSecond]
    omega
  refine ⟨⟨_, _, _, hcounts.1, hcounts.2.1, hcounts.2.2.1, hcounts.2.2.2⟩, ?_, ?_, ?_⟩
  · have hread : Instant.ofReading? stamp.reading =
        Instant.ofCounts? (dayNumber stamp.date + seconds / secondsPerDay)
          (seconds % secondsPerDay).toNat stamp.nano := by
      rw [← hs, ← hnanos]
      rfl
    exact hread.trans (dif_pos hcounts)
  · exact decide_eq_false (Nat.not_le.mpr hnano)
  · simp only [Instant.count, count, secondsPerDay, nanosPerSecond]
    omega

/-- The text of a timestamp of four digits is read as the instant that it denotes. -/
theorem ofString_text {stamp : Timestamp} (hyear : stamp.FourDigits) :
    ∃ t : Instant, Instant.ofString stamp.text = .ok t ∧ t.isLeap = false ∧
      t.count = stamp.count := by
  obtain ⟨t, ht, hleap, hcount⟩ := ofReading?_reading hyear
  have hyears : -262143 ≤ stamp.date.year ∧ stamp.date.year ≤ 262142 := hyear.readable
  have hrange : inRange stamp.reading = true := by
    have hoffset := stamp.zone.offset_mem
    have hexists := stamp.date_exists
    simp [inRange, reading, hyears, hexists, hoffset]
  refine ⟨t, ?_, hleap, hcount⟩
  rw [Instant.ofString, Instant.Rfc3339.read, reading_text hyears]
  simp only [bind, Except.bind, hrange, ht, if_true]
  rfl

/-- So is the text of every other timestamp that denotes the instant. -/
theorem ofString_text_of_count {stamp : Timestamp} {t : Instant} (hyear : stamp.FourDigits)
    (hleap : t.isLeap = false) (hcount : stamp.count = t.count) :
    Instant.ofString stamp.text = .ok t := by
  obtain ⟨u, hu, huLeap, huCount⟩ := ofString_text hyear
  rw [hu, Instant.eq_of_count huLeap hleap (huCount.trans hcount)]

/-! ### Writing an instant -/

/-- An instant on a clock of universal time, with the digits of its nanoseconds. -/
def ofInstant (t : Instant) (digits : List Char) (hdigits : ∀ c ∈ digits, c.isDigit = true)
    (hlength : digits.length ≤ 9) : Timestamp where
  date := Date.ofDayNumber t.day
  hour := t.second / 3600
  minute := t.second / 60 % 60
  second := t.second % 60
  fraction := digits
  zone := .universal
  date_exists := exists_ofDayNumber t.day
  hour_lt := (Nat.div_lt_iff_lt_mul (by decide)).mpr t.second_lt
  minute_lt := Nat.mod_lt _ (by decide)
  second_lt := Nat.mod_lt _ (by decide)
  isDigit_fraction := hdigits
  length_fraction := hlength

section

variable {t : Instant} {digits : List Char} {hdigits : ∀ c ∈ digits, c.isDigit = true}
  {hlength : digits.length ≤ 9}

theorem count_ofInstant (hvalue : nanosOf digits = t.nano) :
    (ofInstant t digits hdigits hlength).count = t.count := by
  have hday := dayNumber_ofDayNumber t.day
  simp only [count, nano, ofInstant, hvalue, hday, Zone.offset, Instant.count, secondsPerDay,
    nanosPerSecond]
  omega

theorem text_ofInstant (hleap : t.isLeap = false)
    (htext : fractionText t.nano = pointText digits) :
    (ofInstant t digits hdigits hlength).text = toString t := by
  have hnano : t.toReading.nano = t.nano := Nat.mod_eq_of_lt (t.nano_lt_second hleap)
  have hclock : clockText (ofInstant t digits hdigits hlength).reading = clockText t.toReading := by
    simp only [clockText, reading, ofInstant, Instant.toReading, hleap, Bool.false_eq_true,
      if_false, Nat.add_zero]
  have hwrite : toString t = String.ofList (readingText t.toReading) := rfl
  rw [hwrite, readingText_eq, hnano, htext, text, hclock]
  rfl

end

/-- What is written for an instant is a timestamp in universal time that denotes it, with
no digits after the point or 3, 6 or 9 of them. -/
theorem exists_text_eq_toString {t : Instant} (hleap : t.isLeap = false) :
    ∃ stamp : Timestamp, stamp.text = toString t ∧ stamp.count = t.count ∧
      stamp.Readable ∧ stamp.zone = .universal ∧ stamp.fraction.length ∈ [0, 3, 6, 9] := by
  obtain ⟨digits, htext, hdigits, hlength, hvalue⟩ :=
    exists_fractionDigits (t.nano_lt_second hleap)
  have hle : digits.length ≤ 9 := by
    simp only [List.mem_cons, List.not_mem_nil, or_false] at hlength
    omega
  exact ⟨ofInstant t digits hdigits hle, text_ofInstant hleap htext, count_ofInstant hvalue,
    Instant.year_ofDayNumber t.day_mem, rfl, hlength⟩

example :
    (Instant.ofString "2020-02-29T23:30:00.5-01:00").toOption.map toString =
      some "2020-03-01T00:30:00.500Z" := by rfl

example :
    (Instant.ofString "0000-01-01T00:00:00+23:59").toOption.map toString =
      some "-0001-12-31T00:01:00Z" := by rfl

/-- In universal time a timestamp ends in `Z`. -/
theorem text_of_universal {stamp : Timestamp} (h : stamp.zone = .universal) :
    ∃ front, stamp.text = front ++ "Z" := by
  refine ⟨String.ofList (clockText stamp.reading ++ pointText stamp.fraction), ?_⟩
  rw [text, h, ← List.append_assoc, String.ofList_append]
  rfl

end Timestamp

end MessageExport
