/-!
# Doubles as exact multiples of the smallest one

Every finite double is a whole multiple of `2 ^ -1074`, so its magnitude is a natural number of such
*units*, and every question about rounding is a question about quotients of naturals.

* `units x` is the exact magnitude of a finite double.
* `nearestMagnitude u d` is the bit pattern of the double nearest to `u / d` units, ties to even.

The two are tied together by the layout of the format: the patterns of non-negative doubles are
ordered as their values are, and the pattern of `m * 2 ^ k` units with `2 ^ 52 ≤ m ≤ 2 ^ 53` is
`k * 2 ^ 52 + m`, a carry of the significand into the exponent included.
-/

namespace KScript.Double

/-- A power of two. -/
def twoTo (k : Nat) : Nat := Nat.pow 2 k

/-- The number of units in one: `1 = scale * 2 ^ -1074`. -/
def scale : Nat := twoTo 1074

/-- How many doubles there are from one power of two up to the next. -/
def binade : Nat := twoTo 52

/-- The bit pattern of positive infinity, one past the largest finite magnitude. -/
def infinityBits : Nat := 2047 * binade

/-- The weight of the sign bit. -/
def signWeight : Nat := twoTo 63

/-- The bit pattern without its sign. -/
def magnitude (x : Float) : Nat := x.toBits.toNat % signWeight

/-- Whether the sign bit is set (true of `-0.0` too). -/
def isNegative (x : Float) : Bool := signWeight ≤ x.toBits.toNat

/-- The double with that sign and that bit pattern below it. -/
def ofMagnitude (negative : Bool) (bits : Nat) : Float :=
  Float.ofBits (UInt64.ofNat (if negative then signWeight + bits else bits))

/-- The units in the double with that bit pattern. -/
def unitsOfMagnitude (bits : Nat) : Nat :=
  if bits < binade then bits else (binade + bits % binade) * twoTo (bits / binade - 1)

/-- The exact magnitude of a finite double, in units. -/
def units (x : Float) : Nat := unitsOfMagnitude (magnitude x)

/-- The natural number nearest to `num / den`; of two that are as near, the even one. -/
def divideToEven (num den : Nat) : Nat :=
  let quotient := num / den
  let twice := 2 * (num % den)
  if den < twice ∨ (twice = den ∧ quotient % 2 = 1) then quotient + 1 else quotient

/--
The bit pattern of the double nearest to `num / den` units, ties to even; what lies beyond the finite
range gives infinity.
-/
def nearestMagnitude (num den : Nat) : Nat :=
  let shift := Nat.log2 (num / den) - 52
  let bits := shift * binade + divideToEven num (den * twoTo shift)
  if bits < infinityBits then bits else infinityBits

/-- The double nearest to `num / den`, with the given sign. -/
def ofRatio (negative : Bool) (num den : Nat) : Float :=
  ofMagnitude negative (nearestMagnitude (num * scale) den)

/-- The double nearest to a natural number. -/
def ofNat (n : Nat) : Float := ofRatio false n 1

/-- The double nearest to an integer; zero is positive. -/
def ofInt (n : Int) : Float := ofRatio (n < 0) n.natAbs 1

def infinity : Float := ofMagnitude false infinityBits

def negativeInfinity : Float := ofMagnitude true infinityBits

def nan : Float := ofMagnitude false (infinityBits + twoTo 51)

/-- The integer that a double is, if it is one. -/
def toInt? (x : Float) : Option Int :=
  if x.isFinite ∧ units x % scale = 0 then
    let n : Int := units x / scale
    some (if isNegative x then -n else n)
  else none

/-- The greatest integer not above a finite double. -/
def floor (x : Float) : Int :=
  if isNegative x then -((units x + scale - 1) / scale : Nat) else (units x / scale : Nat)

end KScript.Double
