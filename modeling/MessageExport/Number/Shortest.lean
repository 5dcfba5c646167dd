import MessageExport.Number.Binary64
/-!
# MessageExport.Number.Shortest

The **shortest decimal** of a floating point number: the fewest digits that
still read back as the number, and of those the nearest.

The reals that round to a number form an interval around it. For 1, 2, … digits
in turn, `digitsOf` looks at the two neighbours of the number on that decimal
grid; the first grid with a neighbour inside the interval gives the digits. Of
two neighbours inside the nearer wins; which wins an exact tie, and whether the
digits are written with an exponent, is for a `Format` to say.
-/

namespace MessageExport.Shortest

/-- A decimal: its digits, and the power of ten of the first of them. -/
structure Decimal where
  digits : Nat
  exponent : Int
  deriving DecidableEq, Repr

/-- Which of two decimals wins that are as short and as near as each other. -/
inductive Tie where
  /-- The one whose last digit is even. -/
  | toEven
  /-- The greater one in size. -/
  | awayFromZero
  deriving DecidableEq, Repr

/-- How a notation writes its numbers. -/
structure Format where
  /-- Whether a number is written out in full, by the power of ten of its first digit. -/
  positional : Int → Bool
  tie : Tie

/-- Four times the interval of reals that round to a number, in units of the
number's last place: its ends, and the number itself between them. -/
structure Interval where
  low : Nat
  middle : Nat
  high : Nat
  /-- The ends themselves round to the number. -/
  closed : Bool

/-- The interval of a number. Below a power of two the numbers are twice as dense. -/
def interval (x : Magnitude) : Interval where
  low := if x.mantissa = Nat.pow 2 52 ∧ Magnitude.leastExponent < x.exponent then 4 * x.mantissa - 1
    else 4 * x.mantissa - 2
  middle := 4 * x.mantissa
  high := 4 * x.mantissa + 2
  closed := x.mantissa % 2 == 0

/-- The quarter of a last place, over a power of ten, as a quotient. -/
def unit (x : Magnitude) (power : Int) : Nat × Nat :=
  let (twoNum, twoDen) :=
    if 0 ≤ x.exponent - 2 then (Nat.pow 2 (x.exponent - 2).toNat, 1)
    else (1, Nat.pow 2 (2 - x.exponent).toNat)
  if 0 ≤ power then (twoNum, twoDen * Nat.pow 10 power.toNat)
  else (twoNum * Nat.pow 10 (-power).toNat, twoDen)

/-- Whether the point `n` of a decimal grid rounds to the number. -/
def inside (i : Interval) (num den n : Nat) : Bool :=
  if i.closed then i.low * num ≤ n * den && n * den ≤ i.high * num
  else i.low * num < n * den && n * den < i.high * num

/-- The neighbour on the grid of `10 ^ power` that rounds to the number, if there is one. -/
def neighbour? (tie : Tie) (x : Magnitude) (power : Int) : Option Nat :=
  let i := interval x
  let (num, den) := unit x power
  let below := i.middle * num / den
  let above := below + 1
  match inside i num den below, inside i num den above with
  | false, false => none
  | true, false => some below
  | false, true => some above
  | true, true =>
      let toBelow := i.middle * num - below * den
      let toAbove := above * den - i.middle * num
      if toBelow < toAbove then some below
      else if toAbove < toBelow then some above
      else match tie with
        | .toEven => if below % 2 = 0 then some below else some above
        | .awayFromZero => some above

/-- Move a power of ten down until `10 ^ power` does not exceed the number. -/
def lowerTo (x : Magnitude) : Nat → Int → Int
  | 0, power => power
  | budget + 1, power =>
      let (num, den) := unit x power
      if 4 * x.mantissa * num < den then lowerTo x budget (power - 1) else power

/-- The power of ten of the first digit of a number. -/
def leadingPower (x : Magnitude) : Int :=
  lowerTo x 700 ((Nat.log2 x.mantissa + 1 + x.exponent) * 30103 / 100000 + 1)

/-- Try grids of ever more digits. -/
def search (tie : Tie) (x : Magnitude) (leading : Int) : (budget digits : Nat) → Decimal
  | 0, _ => ⟨0, 0⟩
  | budget + 1, digits =>
      match neighbour? tie x (leading - digits + 1) with
      | some n => ⟨n, leading - digits + 1⟩
      | none => search tie x leading budget (digits + 1)

/-- The shortest decimal of a number, as an integer and a power of ten. -/
def digitsOf (tie : Tie) (x : Magnitude) : Decimal :=
  if x.mantissa = 0 then ⟨0, 0⟩ else search tie x (leadingPower x) 17 1

/-! ### Text -/

/-- The digits without the zeros at their end, and the power of ten of the first. -/
def scientific (d : Decimal) : List Char × Int :=
  let all := (toString d.digits).toList
  let kept := (all.reverse.dropWhile (· == '0')).reverse
  (if kept.isEmpty then ['0'] else kept, d.exponent + all.length - 1)

/-- A decimal with a point, written out in full. -/
def positionalText (digits : List Char) (power : Int) : List Char :=
  if power < 0 then
    '0' :: '.' :: (List.replicate (-power - 1).toNat '0' ++ digits)
  else
    let whole := power.toNat + 1
    if digits.length ≤ whole then
      digits ++ List.replicate (whole - digits.length) '0' ++ ['.', '0']
    else digits.take whole ++ '.' :: digits.drop whole

/-- A decimal with one digit before its point and a signed exponent. -/
def exponentText (digits : List Char) (power : Int) : List Char :=
  digits.take 1 ++ (if digits.length ≤ 1 then [] else '.' :: digits.drop 1) ++
    'e' :: (if power < 0 then '-' else '+') :: (toString power.natAbs).toList

/-- The shortest text of a number in a format. -/
def text (format : Format) (negative : Bool) (x : Magnitude) : List Char :=
  let (digits, power) := scientific (digitsOf format.tie x)
  let body := if x.mantissa = 0 then ['0', '.', '0']
    else if format.positional power then positionalText digits power else exponentText digits power
  if negative then '-' :: body else body

end MessageExport.Shortest
