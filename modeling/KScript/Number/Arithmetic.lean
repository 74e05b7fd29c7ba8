import KScript.Number.Decimal

/-!
# Arithmetic of numbers

Addition, subtraction, multiplication and comparison are those of doubles.  The operations here have
rules of their own: division by zero and powers never fail, `div` rounds down, `mod` is exact and
takes the sign of the dividend, and rounding to decimal places is exact on the binary value.
-/

namespace KScript.Arithmetic

open Double

/-- The quotient.  By zero it is infinite with the sign of both operands, or not a number. -/
def divide (a b : Float) : Float := a / b

/-- The quotient rounded down to an integer; infinities and NaN stay as they are. -/
def floorDivide (a b : Float) : Float :=
  let quotient := divide a b
  if quotient.isFinite then ofInt (floor quotient) else quotient

/-- The remainder of division towards zero: exact, with the sign of the dividend. -/
def remainder (a b : Float) : Float :=
  if a.isNaN ∨ b.isNaN ∨ a.isInf ∨ magnitude b = 0 then nan
  else if b.isInf then a
  else ofMagnitude (isNegative a) (nearestMagnitude (units a % units b) 1)

/-- The power.  Where finite operands have no finite power, it is positive infinity. -/
def power (a b : Float) : Float :=
  let result := Float.pow a b
  if a.isFinite ∧ b.isFinite ∧ result.isInf then infinity else result

/-- The square root; of a negative number it is not a number. -/
def squareRoot (x : Float) : Float := if x < 0.0 then nan else x.sqrt

/-- More decimal places than this leave every double as it is. -/
def maxPlaces : Int := 323

/-- Rounding this far to the left of the point leaves nothing. -/
def minPlaces : Int := -308

/--
A finite number rounded to `places` decimal places: half to even on its exact value, then the nearest
double.  The sign stays, also of a zero; there is no answer where the rounded value is too large.
-/
def roundTo? (x : Float) (places : Int) : Option Float :=
  let sign := isNegative x
  if maxPlaces < places then some x
  else if places < minPlaces then some (ofMagnitude sign 0)
  else
    let power := Decimal.tenTo places.natAbs
    let bits :=
      if places < 0 then nearestMagnitude (divideToEven (units x) (scale * power) * power * scale) 1
      else nearestMagnitude (divideToEven (units x * power) scale * scale) power
    if bits = infinityBits then none else some (ofMagnitude sign bits)

end KScript.Arithmetic
