import KScript.Number.Double

/-!
# Shortest decimals

A `Decimal` is a digit string with the power of ten of its first digit.  `shortest x` is the decimal
with the fewest digits that reads back as `x`; among those of that length it is the nearest to `x`,
and of two that are as near the one with the even last digit.

Only the two neighbours of `x` on each decimal grid are tried: when any point of a grid reads back as
`x`, one of the two does.
-/

namespace KScript

/-- The digits `d₁ d₂ … dₙ` and the exponent `e` of `d₁.d₂…dₙ * 10 ^ e`. -/
structure Decimal where
  digits : List Char
  exponent : Int

namespace Decimal

/-- A power of ten. -/
def tenTo (k : Nat) : Nat := Nat.pow 10 k

/-- `10 ^ e` as a numerator and a denominator. -/
def powerOfTen (e : Int) : Nat × Nat :=
  if e < 0 then (1, tenTo e.natAbs) else (tenTo e.natAbs, 1)

/-- The bit pattern that the decimal `coefficient * 10 ^ e` reads back as. -/
def readBack (coefficient : Nat) (e : Int) : Nat :=
  let power := powerOfTen e
  Double.nearestMagnitude (coefficient * power.1 * Double.scale) power.2

/-- The value of a digit character in any base up to sixteen. -/
def digitValue (c : Char) : Nat :=
  if c.isDigit then c.toNat - '0'.toNat
  else if c.isLower then c.toNat - 'a'.toNat + 10
  else c.toNat - 'A'.toNat + 10

/-- The natural number that a string of digits denotes. -/
def natOfDigits (base : Nat) (digits : List Char) : Nat :=
  digits.foldl (fun n c => n * base + digitValue c) 0

/-- The decimal numeral of a natural number. -/
def digitsOf (n : Nat) : List Char := Nat.toDigits 10 n

/-- The digits without the zeros at their end. -/
def dropTrailingZeros (digits : List Char) : List Char :=
  (digits.reverse.dropWhile (· == '0')).reverse

/--
The power of ten of the first digit of a positive number of units.  Above one it is read off the
digits of the whole part, and below one off those of the reciprocal.
-/
def leadingExponent (units : Nat) : Int :=
  if Double.scale ≤ units then (digitsOf (units / Double.scale)).length - 1
  else -(digitsOf ((Double.scale - 1) / units)).length

/--
Which of two neighbours to take, `below` or the next one, when it is known which of them read back: the
nearer of two, and the even one at equal distance.  `twice` is twice the distance from `below`, where the
two are `step` apart.
-/
def nearer? (lower upper : Bool) (below twice step : Nat) : Option Nat :=
  match lower, upper with
  | true, true =>
    some (if twice < step ∨ (twice = step ∧ below % 2 = 0) then below else below + 1)
  | true, false => some below
  | false, true => some (below + 1)
  | false, false => none

/-- The neighbour of `units` on the grid of multiples of `10 ^ e` that reads back as `bits`, if there is
one. -/
def onGrid? (bits units : Nat) (e : Int) : Option Nat :=
  let power := powerOfTen e
  let num := units * power.2
  let den := Double.scale * power.1
  let below := num / den
  nearer? (readBack below e == bits) (readBack (below + 1) e == bits) below (2 * (num % den)) den

/-- Tries grids of `count`, `count + 1`, … digits and stops at the first hit. -/
def search (bits units : Nat) (leading : Int) : Nat → Nat → Option (Nat × Int)
  | 0, _ => none
  | fuel + 1, count =>
    let e := leading - count + 1
    (onGrid? bits units e).map (·, e) <|> search bits units leading fuel (count + 1)

/-- With this many digits every double is written exactly. -/
def maxDigits : Nat := 1400

/-- The decimal `coefficient * 10 ^ e`, without zeros at its end. -/
def ofCoefficient (coefficient : Nat) (e : Int) : Decimal :=
  let digits := digitsOf coefficient
  ⟨dropTrailingZeros digits, e + digits.length - 1⟩

/-- The shortest decimal of the magnitude of a finite double other than zero. -/
def shortest (x : Float) : Decimal :=
  let units := Double.units x
  let found := search (Double.magnitude x) units (leadingExponent units) maxDigits 1
  found.elim ⟨[], 0⟩ fun (coefficient, e) => ofCoefficient coefficient e

end Decimal

end KScript
