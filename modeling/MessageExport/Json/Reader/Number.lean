import MessageExport.Json.Fault
import MessageExport.Json.Tree
import MessageExport.Text.Digit
/-!
# MessageExport.Json.Reader.Number

Reading **numbers** of a JSON text.

The digits of a number are gathered into a significand of 64 bits and a power of
ten. A whole number that fits is exact. Every other number is the significand,
rounded, times or over the rounded power of ten, rounded again, so the last place
of a long number need not be the nearest one; digits past the significand only
count towards the power of ten, or are dropped behind the point.
-/

namespace MessageExport.Json

open MessageExport.Text (digit? isDigit)

/-- The greatest significand. -/
def maxSignificand : Nat := 18446744073709551615

/-- The greatest exponent that is told from a greater one. -/
def maxExponent : Nat := 2147483647

/-- The greatest size of a negative integer. -/
def maxNegative : Nat := 9223372036854775808

/-- The rounded power of ten. -/
def powerOfTen? (n : Nat) : Option Magnitude :=
  Magnitude.ofRatio? (Nat.pow 10 n) 1

/-- The significand over a power of ten. Past the greatest power of ten that is a
number, the quotient is taken in two steps; a third step could only give zero. -/
def divided? (significand : Magnitude) (power : Nat) : Option Magnitude :=
  if power ≤ 308 then do significand.div? (← powerOfTen? power)
  else if power ≤ 616 then do
    let first ← significand.div? (← powerOfTen? 308)
    first.div? (← powerOfTen? (power - 308))
  else some Magnitude.zero

/-- The significand times a power of ten, if it is in range. -/
def multiplied? (significand : Magnitude) (power : Nat) : Option Magnitude :=
  if power ≤ 308 then do significand.mul? (← powerOfTen? power)
  else if significand.mantissa = 0 then some Magnitude.zero
  else none

/-- The number made of a significand and a power of ten, if it is in range. -/
def real? (significand : Nat) (power : Int) : Option Magnitude := do
  let rounded ← Magnitude.ofRatio? significand 1
  if 0 ≤ power then multiplied? rounded power.toNat else divided? rounded (-power).toNat

/-- A number with a significand and a power of ten, before the rest of the text. -/
def realNumber (isNegative : Bool) (significand : Nat) (power : Int) : Step Number := fun rest =>
  match real? significand power with
  | some size => .ok (.real isNegative size, rest)
  | none => .error (Fault.numberTooLarge.here rest)

/-- A whole number. Minus zero, and what is below the least signed integer, is a
floating point number. -/
def wholeNumber (isNegative : Bool) (significand : Nat) : Step Number := fun rest =>
  if !isNegative then .ok (.natural (UInt64.ofNat significand), rest)
  else if significand = 0 ∨ maxNegative < significand then
    realNumber isNegative significand 0 rest
  else .ok (.negative significand, rest)

/-- Read the digits of an exponent onto `exponent`. -/
def exponentDigits (isNegative : Bool) (significand : Nat) (power : Int) (down : Bool) :
    (exponent : Nat) → Step Number
  | exponent, [] => realNumber isNegative significand (total exponent) []
  | exponent, c :: rest =>
      match digit? c with
      | none => realNumber isNegative significand (total exponent) (c :: rest)
      | some d =>
          if maxExponent < 10 * exponent + d then
            if significand ≠ 0 ∧ !down then .error (Fault.numberTooLarge.here rest)
            else .ok (.real isNegative Magnitude.zero, rest.dropWhile isDigit)
          else exponentDigits isNegative significand power down (10 * exponent + d) rest
where
  /-- The power of ten once the exponent is counted in. -/
  total (exponent : Nat) : Int := if down then power - exponent else power + exponent

/-- Read an exponent, from after its `e`. -/
def exponentPart (isNegative : Bool) (significand : Nat) (power : Int) : Step Number := fun s =>
  let (down, s) :=
    match s with
    | '+' :: rest => (false, rest)
    | '-' :: rest => (true, rest)
    | s => (false, s)
  match s with
  | [] => .error (Fault.valueCutOff.here [])
  | c :: rest =>
      if isDigit c then exponentDigits isNegative significand power down 0 (c :: rest)
      else .error (Fault.malformedNumber.byteAfter (c :: rest))

/-- Read an exponent, if one follows. -/
def exponentOrEnd (isNegative : Bool) (significand : Nat) (power : Int) : Step Number
  | [] => realNumber isNegative significand power []
  | c :: rest =>
      if c = 'e' ∨ c = 'E' then exponentPart isNegative significand power rest
      else realNumber isNegative significand power (c :: rest)

/-- Read the digits behind a point. Once the significand is full, digits are dropped. -/
def fractionDigits (isNegative : Bool) :
    (significand : Nat) → (power : Int) → (seen : Bool) → Step Number
  | significand, power, seen, [] =>
      if seen then realNumber isNegative significand power []
      else .error (Fault.valueCutOff.here [])
  | significand, power, seen, c :: rest =>
      match digit? c with
      | some d =>
          if maxSignificand < 10 * significand + d then
            exponentOrEnd isNegative significand power (rest.dropWhile isDigit)
          else fractionDigits isNegative (10 * significand + d) (power - 1) true rest
      | none =>
          if seen then exponentOrEnd isNegative significand power (c :: rest)
          else .error (Fault.malformedNumber.byteAfter (c :: rest))

/-- Read the digits of a whole part that overflows the significand: each counts
towards the power of ten. -/
def overflowDigits (isNegative : Bool) (significand : Nat) : (power : Nat) → Step Number
  | power, [] => realNumber isNegative significand power []
  | power, c :: rest =>
      if isDigit c then overflowDigits isNegative significand (power + 1) rest
      else if c = '.' then fractionDigits isNegative significand power false rest
      else exponentOrEnd isNegative significand power (c :: rest)

/-- Read what follows a whole part that fits. -/
def afterWhole (isNegative : Bool) (significand : Nat) : Step Number
  | [] => wholeNumber isNegative significand []
  | c :: rest =>
      if c = '.' then fractionDigits isNegative significand 0 false rest
      else if c = 'e' ∨ c = 'E' then exponentPart isNegative significand 0 rest
      else wholeNumber isNegative significand (c :: rest)

/-- Read the digits of a whole part. -/
def wholeDigits (isNegative : Bool) : (significand : Nat) → Step Number
  | significand, [] => wholeNumber isNegative significand []
  | significand, c :: rest =>
      match digit? c with
      | some d =>
          if maxSignificand < 10 * significand + d then
            overflowDigits isNegative significand 1 rest
          else wholeDigits isNegative (10 * significand + d) rest
      | none => afterWhole isNegative significand (c :: rest)

/-- Read a number, from after its sign. No digit may follow a leading zero. -/
def number (isNegative : Bool) : Step Number
  | [] => .error (Fault.valueCutOff.here [])
  | '0' :: rest =>
      match rest with
      | [] => wholeNumber isNegative 0 []
      | c :: after =>
          if isDigit c then .error (Fault.malformedNumber.byteAfter (c :: after))
          else afterWhole isNegative 0 (c :: after)
  | c :: rest =>
      if isDigit c then wholeDigits isNegative 0 (c :: rest)
      else .error (Fault.malformedNumber.byteAfter (c :: rest))

/-! ### Passing over numbers -/

/-- Pass over an exponent, from after its `e`. -/
def skipExponent (s : List Char) : Except Failure (List Char) :=
  let s :=
    match s with
    | '+' :: rest => rest
    | '-' :: rest => rest
    | s => s
  match s with
  | [] => .error (Fault.malformedNumber.here [])
  | c :: rest =>
      if isDigit c then .ok (rest.dropWhile isDigit)
      else .error (Fault.malformedNumber.byteAfter (c :: rest))

/-- Pass over an exponent, if one follows. -/
def skipExponentOrEnd : List Char → Except Failure (List Char)
  | [] => .ok []
  | c :: rest => if c = 'e' ∨ c = 'E' then skipExponent rest else .ok (c :: rest)

/-- Pass over what follows the whole part of a number. -/
def skipAfterWhole : List Char → Except Failure (List Char)
  | [] => .ok []
  | c :: rest =>
      if c = '.' then
        match rest with
        | [] => .error (Fault.malformedNumber.here [])
        | d :: after =>
            if isDigit d then skipExponentOrEnd (after.dropWhile isDigit)
            else .error (Fault.malformedNumber.byteAfter (d :: after))
      else skipExponentOrEnd (c :: rest)

/-- Pass over a number, from after its sign. Its size does not matter. -/
def skipNumber : List Char → Except Failure (List Char)
  | [] => .error (Fault.malformedNumber.here [])
  | '0' :: rest =>
      match rest with
      | [] => .ok []
      | c :: after =>
          if isDigit c then .error (Fault.malformedNumber.byteAfter (c :: after))
          else skipAfterWhole (c :: after)
  | c :: rest =>
      if isDigit c then skipAfterWhole (rest.dropWhile isDigit)
      else .error (Fault.malformedNumber.byteAfter (c :: rest))

end MessageExport.Json
