/-!
# MessageExport.Number.Binary64

**Binary floating point** numbers of 64 bits, as exact rationals.

A finite number is a sign, a mantissa of at most 53 bits and a power of two.
`Magnitude.ofRatio?` rounds a quotient of natural numbers to the nearest of
them, a tie going to the even mantissa; every operation here is an exact
operation on the rationals followed by that one rounding.
-/

namespace MessageExport

/-- The absolute value `mantissa * 2 ^ exponent`. A mantissa has 53 bits, or
fewer at the least exponent. -/
structure Magnitude where
  mantissa : Nat
  exponent : Int
  deriving DecidableEq, Repr

namespace Magnitude

/-- Mantissas have at most this many bits. -/
def precision : Nat := 53

/-- The least exponent of two. -/
def leastExponent : Int := -1074

/-- The greatest exponent of two. -/
def greatestExponent : Int := 971

def zero : Magnitude := ⟨0, leastExponent⟩

/-- The quotient of two numbers, to the nearest integer, a tie to the even one. -/
def roundedQuotient (num den : Nat) : Nat :=
  let q := num / den
  let r := num % den
  if 2 * r < den then q else if den < 2 * r then q + 1 else q + q % 2

/-- The numerator and denominator of `num / den / 2 ^ exponent`. -/
def scaled (num den : Nat) (exponent : Int) : Nat × Nat :=
  if 0 ≤ exponent then (num, den * Nat.pow 2 exponent.toNat)
  else (num * Nat.pow 2 (-exponent).toNat, den)

/-- The exponent at which `num / den` has a mantissa of full precision, or the
least exponent. -/
def exponentOf (num den : Nat) : Int :=
  let low := (Nat.log2 num : Int) - (Nat.log2 den : Int) - precision
  let (n, d) := scaled num den low
  max leastExponent (if n / d < Nat.pow 2 precision then low else low + 1)

/-- The number nearest to `num / den`, if one is in range. -/
def ofRatio? (num den : Nat) : Option Magnitude :=
  if num = 0 then some zero
  else
    let exponent := exponentOf num den
    let (n, d) := scaled num den exponent
    let mantissa := roundedQuotient n d
    let rounded : Magnitude :=
      if mantissa < Nat.pow 2 precision then ⟨mantissa, exponent⟩ else ⟨mantissa / 2, exponent + 1⟩
    if greatestExponent < rounded.exponent then none else some rounded

/-- A magnitude as a quotient of natural numbers. -/
def ratio (x : Magnitude) : Nat × Nat :=
  if 0 ≤ x.exponent then (x.mantissa * Nat.pow 2 x.exponent.toNat, 1)
  else (x.mantissa, Nat.pow 2 (-x.exponent).toNat)

/-- The rounded product, if it is in range. -/
def mul? (x y : Magnitude) : Option Magnitude :=
  ofRatio? (x.ratio.1 * y.ratio.1) (x.ratio.2 * y.ratio.2)

/-- The rounded quotient; zero over zero is zero. -/
def div? (x y : Magnitude) : Option Magnitude :=
  ofRatio? (x.ratio.1 * y.ratio.2) (x.ratio.2 * y.ratio.1)

end Magnitude

/-- A floating point number of 64 bits. -/
inductive Binary64 where
  | finite (negative : Bool) (magnitude : Magnitude)
  | infinite (negative : Bool)
  | nan
  deriving DecidableEq, Repr

example : Magnitude.ofRatio? 1 1 = some ⟨2 ^ 52, -52⟩ := by decide

example : Magnitude.ofRatio? 1 3 = some ⟨6004799503160661, -54⟩ := by decide +kernel

example : Magnitude.ofRatio? (10 ^ 309) 1 = none := by decide +kernel

end MessageExport
