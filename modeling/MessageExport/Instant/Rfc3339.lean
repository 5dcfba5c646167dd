import MessageExport.Instant.Basic
import MessageExport.Text.Blank
import MessageExport.Text.Digit
/-!
# MessageExport.Instant.Rfc3339

**Timestamps** in the profile of RFC 3339.

Writing is canonical: universal time with `Z`, the fraction in 0, 3, 6 or 9
digits as needed, and a signed year outside 0 to 9999. Reading is relaxed: blanks
may stand before numbers and around the separators, numbers may be short, a
blank may separate date and time, and any number of colons and blanks may stand
inside the offset. A leap second is written and read as second 60.

The reader is a chain of small steps over the rest of the text. Each step
refuses with its own `TimestampFault`, so which of several faults is reported is
settled by the order of the steps: a number out of its range is reported where
it is read, a day that does not exist only after the whole text was read.
-/

namespace MessageExport

/-- Why a text is not a timestamp. -/
inductive TimestampFault where
  /-- The text ends too early. -/
  | premature
  /-- A character that cannot stand where it does. -/
  | invalid
  /-- A number, date or offset that does not exist. -/
  | outOfRange
  /-- The reading exists, but the instant is before the first or after the last day. -/
  | impossible
  /-- Something follows the timestamp. -/
  | trailing
  deriving DecidableEq, Repr

/-- What is said of a text that is not a timestamp. -/
def TimestampFault.message : TimestampFault → String
  | .premature => "premature end of input"
  | .invalid => "input contains invalid characters"
  | .outOfRange => "input is out of range"
  | .impossible => "no possible date and time matching input"
  | .trailing => "trailing input"

namespace Instant.Rfc3339

open Calendar Text

/-- A step of the reader: from the rest of a text to a value and what is left. -/
abbrev Step (α : Type) := List Char → Except TimestampFault (α × List Char)

/-! ### Steps -/

/-- Numbers are read into 63 bits. -/
def maxNumber : Nat := 9223372036854775807

/-- Read at most `budget` further digits onto `value`. -/
def digitsFrom : (budget value : Nat) → Step Nat
  | 0, value, s => .ok (value, s)
  | _ + 1, value, [] => .ok (value, [])
  | budget + 1, value, c :: rest =>
      match digit? c with
      | none => .ok (value, c :: rest)
      | some d =>
          if maxNumber < 10 * value + d then .error .outOfRange
          else digitsFrom budget (10 * value + d) rest

/-- Read a number of one to `width` digits. -/
def number (width : Nat) : Step Nat
  | [] => .error .premature
  | c :: rest =>
      if !isDigit c then .error .invalid else digitsFrom width 0 (c :: rest)

/-- Read a number of at most two digits that lies between two bounds, after blanks. -/
def shortNumber (low high : Nat) : Step Nat := fun s => do
  let (n, rest) ← number 2 (trimLeft s)
  if n < low ∨ high < n then .error .outOfRange else .ok (n, rest)

/-- Read a year: up to four digits, or any number of digits after a sign. -/
def year : Step Int := fun s => do
  let (n, rest) ←
    match trimLeft s with
    | '-' :: rest => do
        let (n, rest) ← number rest.length rest
        pure (-(n : Int), rest)
    | '+' :: rest => do
        let (n, rest) ← number rest.length rest
        pure ((n : Int), rest)
    | s => do
        let (n, rest) ← number 4 s
        pure ((n : Int), rest)
  if n < -2147483648 ∨ 2147483647 < n then .error .outOfRange else .ok (n, rest)

/-- Read one given character, after blanks. -/
def separator (mark : Char) : Step Unit := fun s =>
  match trimLeft s with
  | [] => .error .premature
  | c :: rest => if c = mark then .ok ((), rest) else .error .invalid

/-- Read what stands between date and time. -/
def dateTimeMark : Step Unit
  | [] => .error .premature
  | c :: rest => if c = 'T' ∨ c = 't' ∨ c = ' ' then .ok ((), rest) else .error .invalid

/-- Read the fraction of a second, if there is one. Digits after the ninth are dropped. -/
def fraction : Step Nat
  | '.' :: rest => do
      let (n, after) ← number 9 rest
      let width := rest.length - after.length
      pure (n * Nat.pow 10 (9 - width), after.dropWhile isDigit)
  | s => .ok (0, s)

/-- Read two digits. A short rest is counted in bytes of UTF-8. -/
def twoDigits (s : List Char) : Except TimestampFault (Nat × Nat × List Char) :=
  match s with
  | a :: b :: rest =>
      match digit? a, digit? b with
      | some x, some y => .ok (x, y, rest)
      | _, _ => .error .invalid
  | [a] => if a.utf8Size < 2 then .error .premature else .error .invalid
  | [] => .error .premature

/-- Whether the text goes on with `UTC` in any case. -/
def utcName? : List Char → Option (List Char)
  | a :: b :: c :: rest =>
      if a.toUpper = 'U' ∧ b.toUpper = 'T' ∧ c.toUpper = 'C' then some rest else none
  | _ => none

/-- Read the hours and minutes of an offset, after its sign. -/
def offsetSeconds : Step Int := fun s => do
  let (h₁, h₂, rest) ← twoDigits s
  let (m₁, m₂, rest) ← twoDigits (rest.dropWhile fun c => c == ':' || isBlank c)
  if 5 < m₁ then .error .outOfRange
  else .ok (((10 * h₁ + h₂) * 3600 + (10 * m₁ + m₂) * 60 : Nat), rest)

/-- Read an offset: `Z`, `UTC`, or a sign with hours and minutes. -/
def offset : Step Int := fun s =>
  match utcName? s with
  | some rest => .ok (0, rest)
  | none =>
      match s with
      | [] => .error .premature
      | c :: rest =>
          if c = 'Z' ∨ c = 'z' then .ok (0, rest)
          else if c = '+' then offsetSeconds rest
          else if c = '-' ∨ c = '\u2212' then do
            let (n, rest) ← offsetSeconds rest
            pure (-n, rest)
          else .error .invalid

/-! ### Reading and writing -/

/-- Read a whole clock reading. Nothing but blanks may follow. -/
def reading (s : List Char) : Except TimestampFault Reading := do
  let (year, s) ← year s
  let (_, s) ← separator '-' s
  let (month, s) ← shortNumber 1 12 s
  let (_, s) ← separator '-' s
  let (day, s) ← shortNumber 1 31 s
  let (_, s) ← dateTimeMark s
  let (hour, s) ← shortNumber 0 23 s
  let (_, s) ← separator ':' s
  let (minute, s) ← shortNumber 0 59 s
  let (_, s) ← separator ':' s
  let (second, s) ← shortNumber 0 60 s
  let (nano, s) ← fraction s
  let (offset, s) ← offset (trimLeft s)
  if trimLeft s = [] then pure ⟨⟨year, month, day⟩, hour, minute, second, nano, offset⟩
  else .error .trailing

/-- The dates and offsets that a clock can show. -/
def inRange (r : Reading) : Bool :=
  decide (-262143 ≤ r.date.year) && decide (r.date.year ≤ 262142) && decide r.date.Exists &&
    decide (-86400 < r.offset) && decide (r.offset < 86400)

/-- Read a timestamp. -/
def read (s : List Char) : Except TimestampFault Instant := do
  let r ← reading s
  if inRange r then
    match ofReading? r with
    | some t => pure t
    | none => .error .impossible
  else .error .outOfRange

/-- A number in at least `width` digits, with zeros in front. -/
def padded (width n : Nat) : List Char :=
  let digits := (toString n).toList
  List.replicate (width - digits.length) '0' ++ digits

/-- A year: four digits, with a sign outside 0 to 9999. -/
def yearText (year : Int) : List Char :=
  if 0 ≤ year ∧ year ≤ 9999 then padded 4 year.toNat
  else (if year < 0 then '-' else '+') :: padded 4 year.natAbs

/-- The fraction of a second, in as many of 0, 3, 6 or 9 digits as it needs. -/
def fractionText (nano : Nat) : List Char :=
  if nano = 0 then []
  else if nano % 1000000 = 0 then '.' :: padded 3 (nano / 1000000)
  else if nano % 1000 = 0 then '.' :: padded 6 (nano / 1000)
  else '.' :: padded 9 nano

/-- Write a clock reading of universal time. -/
def readingText (r : Reading) : List Char :=
  yearText r.date.year ++ '-' :: padded 2 r.date.month ++ '-' :: padded 2 r.date.day ++
    'T' :: padded 2 r.hour ++ ':' :: padded 2 r.minute ++ ':' :: padded 2 r.second ++
    fractionText r.nano ++ ['Z']

/-- Write a timestamp, in universal time. -/
def write (t : Instant) : List Char :=
  readingText t.toReading

end Instant.Rfc3339

namespace Instant

/-- Read a timestamp. -/
def ofString (s : String) : Except TimestampFault Instant :=
  Rfc3339.read s.toList

instance : ToString Instant := ⟨fun t => String.ofList (Rfc3339.write t)⟩

end Instant

end MessageExport
