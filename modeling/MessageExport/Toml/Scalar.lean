import MessageExport.Toml.Item
import MessageExport.Toml.Token
/-!
# MessageExport.Toml.Scalar

Reading **numbers, dates and times** of a TOML text.

What begins with four digits and a dash is a date, with two digits and a colon a
time of day, and everything else that begins with a digit or a sign a number.
-/

namespace MessageExport.Toml

open MessageExport.Text (digit? hexDigit? isDigit)

/-! ### Dates and times -/

/-- Read a number of `width` digits that lies between two bounds. -/
def fixedNumber (width low high : Nat) : Step Nat := fun s => do
  let digits := s.take width
  if digits.length < width then none
  else
    let n ← digits.foldlM (fun n c => (digit? c).map fun d => 10 * n + d) 0
    if low ≤ n ∧ n ≤ high then some (n, s.drop width) else none

/-- Read one given character. -/
def mark (c : Char) : List Char → Option (List Char)
  | [] => none
  | d :: rest => if d = c then some rest else none

/-- How many days a month has. -/
def monthLength (year month : Nat) : Nat :=
  if month = 2 then
    if year % 4 = 0 ∧ (year % 100 ≠ 0 ∨ year % 400 = 0) then 29 else 28
  else if month = 4 ∨ month = 6 ∨ month = 9 ∨ month = 11 then 30
  else 31

/-- The rest of a text after a date. -/
def date? (s : List Char) : Option (List Char) := do
  let (year, s) ← fixedNumber 4 0 9999 s
  let (month, s) ← fixedNumber 2 1 12 (← mark '-' s)
  let (_, s) ← fixedNumber 2 1 (monthLength year month) (← mark '-' s)
  some s

/-- The rest of a text after the fraction of a second, if there is one. -/
def fraction? : List Char → Option (List Char)
  | '.' :: c :: rest => if isDigit c then some (rest.dropWhile isDigit) else none
  | ['.'] => none
  | s => some s

/-- The rest of a text after a time of day. -/
def time? (s : List Char) : Option (List Char) := do
  let (_, s) ← fixedNumber 2 0 23 s
  let (_, s) ← fixedNumber 2 0 59 (← mark ':' s)
  let (_, s) ← fixedNumber 2 0 60 (← mark ':' s)
  fraction? s

/-- The rest of a text after an offset from universal time, if there is one. -/
def offset? : List Char → Option (List Char)
  | c :: rest =>
      if c = 'Z' ∨ c = 'z' then some rest
      else if c = '+' ∨ c = '-' then do
        let (_, s) ← fixedNumber 2 0 23 rest
        let (_, s) ← fixedNumber 2 0 59 (← mark ':' s)
        some s
      else some (c :: rest)
  | [] => some []

/-- The rest of a text after a date and perhaps a time of day. A blank after the date
belongs to it only if a time follows. -/
def dateTime? (s : List Char) : Option (List Char) := do
  let rest ← date? s
  match rest with
  | c :: after =>
      if c = 'T' ∨ c = 't' then do offset? (← time? after)
      else if c = ' ' ∧ ((after.take 2).all isDigit ∧ (after.drop 2).head? = some ':') then
        do offset? (← time? after)
      else some rest
  | [] => some []

/-- The text begins like a date: with four digits and a dash. -/
def beginsDate (s : List Char) : Bool :=
  (s.take 4).all isDigit && (s.drop 4).head? == some '-'

/-- The text begins like a time of day: with two digits and a colon. -/
def beginsTime (s : List Char) : Bool :=
  (s.take 2).all isDigit && (s.drop 2).head? == some ':'

/-! ### Numbers -/

/-- Read further digits, where single underscores may stand between them. -/
def digitsFrom (isDigit : Char → Bool) : (read : List Char) → Step (List Char)
  | read, '_' :: c :: rest =>
      if isDigit c then digitsFrom isDigit (c :: read) rest else none
  | _, ['_'] => none
  | read, c :: rest =>
      if isDigit c then digitsFrom isDigit (c :: read) rest else some (read.reverse, c :: rest)
  | read, [] => some (read.reverse, [])

/-- Read at least one digit, without the underscores. -/
def digits (isDigit : Char → Bool) : Step (List Char)
  | [] => none
  | c :: rest => if isDigit c then digitsFrom isDigit [c] rest else none

/-- Read the digits of a whole number in decimal. A leading zero stands alone. -/
def wholeDigits : Step (List Char)
  | '0' :: rest => some (['0'], rest)
  | s => digits isDigit s

/-- The number written by digits of a base. -/
def natOf (base : Nat) (digits : List Char) : Nat :=
  digits.foldl (fun n c => base * n + (hexDigit? c).getD 0) 0

/-- Read a sign: whether it is a minus. -/
def sign : List Char → Bool × List Char
  | '-' :: rest => (true, rest)
  | '+' :: rest => (false, rest)
  | s => (false, s)

/-- The greatest integer. -/
def maxInteger : Nat := 9223372036854775807

/-- An integer by its sign and size, if it has 64 bits. -/
def integer? (isNegative : Bool) (size : Nat) : Option Item :=
  if isNegative then if size ≤ maxInteger + 1 then some (.integer (-size)) else none
  else if size ≤ maxInteger then some (.integer size) else none

/-- The number `significand * 10 ^ power`, rounded; none if it is out of range. Far
outside the range the power of ten is not worked out. -/
def rounded? (significand : Nat) (power : Int) : Option Magnitude :=
  let leading := ((toString significand).length : Int) + power
  if significand = 0 ∨ leading < -400 then some Magnitude.zero
  else if 400 < leading then none
  else if 0 ≤ power then Magnitude.ofRatio? (significand * Nat.pow 10 power.toNat) 1
  else Magnitude.ofRatio? significand (Nat.pow 10 (-power).toNat)

/-- A floating point number by its sign, its digits and a power of ten. What is too
large is infinite, and only a negative number may be. -/
def real? (isNegative : Bool) (significand : Nat) (power : Int) : Option Item :=
  match rounded? significand power with
  | some size => some (.real (.finite isNegative size))
  | none => if isNegative then some (.real (.infinite true)) else none

/-- Read the exponent of a number, if there is one. -/
def exponent : Step Int
  | c :: rest =>
      if c = 'e' ∨ c = 'E' then do
        let (isNegative, rest) := sign rest
        let (ds, rest) ← digits isDigit rest
        let size : Int := natOf 10 ds
        some (if isNegative then -size else size, rest)
      else some (0, c :: rest)
  | [] => some (0, [])

/-- Read what follows the whole part of a number. -/
def numberTail (isNegative : Bool) (whole : List Char) : Step Item
  | '.' :: rest => do
      let (ds, rest) ← digits isDigit rest
      let (e, rest) ← exponent rest
      let item ← real? isNegative (natOf 10 (whole ++ ds)) (e - ds.length)
      some (item, rest)
  | c :: rest =>
      if c = 'e' ∨ c = 'E' then do
        let (e, rest) ← exponent (c :: rest)
        let item ← real? isNegative (natOf 10 whole) e
        some (item, rest)
      else do
        let item ← integer? isNegative (natOf 10 whole)
        some (item, c :: rest)
  | [] => do
      let item ← integer? isNegative (natOf 10 whole)
      some (item, [])

/-- Read an integer of another base, from after the zero and the letter. -/
def basedInteger (base : Nat) : Step Item := fun s => do
  let isDigit (c : Char) : Bool := (hexDigit? c).any (· < base)
  let (ds, rest) ← digits isDigit s
  let item ← integer? false (natOf base ds)
  some (item, rest)

/-- Read a number. -/
def number : Step Item
  | '0' :: 'x' :: rest => basedInteger 16 rest
  | '0' :: 'o' :: rest => basedInteger 8 rest
  | '0' :: 'b' :: rest => basedInteger 2 rest
  | s =>
      let (isNegative, s) := sign s
      match s with
      | 'i' :: 'n' :: 'f' :: rest => some (.real (.infinite isNegative), rest)
      | 'n' :: 'a' :: 'n' :: rest => some (.real .nan, rest)
      | s => do
          let (whole, rest) ← wholeDigits s
          numberTail isNegative whole rest

/-- Read a date, a time of day or a number. -/
def numberOrMoment : Step Item := fun s =>
  let moment (rest : Option (List Char)) : Option (Item × List Char) :=
    rest.map fun rest => (.moment (s.take (s.length - rest.length)), rest)
  if beginsDate s then moment (dateTime? s)
  else if beginsTime s then moment (time? s)
  else number s

end MessageExport.Toml
