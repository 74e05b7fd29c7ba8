import KScript.Number.Decimal

/-!
# How numbers are written

A number is written from its shortest decimal in one of two forms, positional (`0.001`, `12.5`) or
scientific (`1.5e-07`).  A `Layout` records the choices that tell one output format from another:
where the positional form ends, how the exponent is marked, whether an integral number keeps its
`.0`, and the words for what is not finite.
-/

namespace KScript

/-- The choices of one way of writing numbers. -/
structure Layout where
  /-- Decimal exponents from here on are written positionally … -/
  positionalFrom : Int
  /-- … up to, and without, this one. -/
  positionalBelow : Int
  /-- Between significand and exponent. -/
  mark : String
  /-- Whether an integral number in positional form ends in `.0`. -/
  pointIfIntegral : Bool
  /-- Whether a significand of one digit is followed by `.0`. -/
  pointInScientific : Bool
  positiveInfinity : String
  negativeInfinity : String
  nan : String

namespace Layout

/-- The sign and at least two digits of an exponent. -/
def exponentText (e : Int) : String :=
  let digits := toString e.natAbs
  (if e < 0 then "-" else "+") ++ (if digits.length < 2 then "0" ++ digits else digits)

/-- The scientific form of a decimal. -/
def scientific (layout : Layout) (d : Decimal) : String :=
  let fraction := d.digits.drop 1
  String.ofList (d.digits.take 1)
    ++ (if fraction.isEmpty then (if layout.pointInScientific then ".0" else "")
        else "." ++ String.ofList fraction)
    ++ layout.mark ++ exponentText d.exponent

/-- The positional form of a decimal. -/
def positional (layout : Layout) (d : Decimal) : String :=
  if d.exponent < 0 then
    "0." ++ String.ofList (List.replicate (d.exponent.natAbs - 1) '0' ++ d.digits)
  else
    let whole := d.exponent.natAbs + 1
    let fraction := d.digits.drop whole
    String.ofList (d.digits.take whole ++ List.replicate (whole - d.digits.length) '0')
      ++ (if fraction.isEmpty then (if layout.pointIfIntegral then ".0" else "")
          else "." ++ String.ofList fraction)

/-- The unsigned text of a finite double. -/
def magnitudeText (layout : Layout) (x : Float) : String :=
  if Double.magnitude x = 0 then layout.positional ⟨['0'], 0⟩
  else
    let d := Decimal.shortest x
    if layout.positionalFrom ≤ d.exponent ∧ d.exponent < layout.positionalBelow then
      layout.positional d
    else layout.scientific d

/-- The text of a double. -/
def text (layout : Layout) (x : Float) : String :=
  if x.isNaN then layout.nan
  else if x.isInf then
    if Double.isNegative x then layout.negativeInfinity else layout.positiveInfinity
  else (if Double.isNegative x then "-" else "") ++ layout.magnitudeText x

/-- How scripts see numbers: integral ones without a point, and exponents from fifteen on. -/
def display : Layout where
  positionalFrom := -4
  positionalBelow := 15
  mark := "E"
  pointIfIntegral := false
  pointInScientific := false
  positiveInfinity := "+inf"
  negativeInfinity := "-inf"
  nan := "NaN"

/-- How tokens and debug lines show numbers: always with a point or an exponent. -/
def detailed : Layout where
  positionalFrom := -4
  positionalBelow := 16
  mark := "e"
  pointIfIntegral := true
  pointInScientific := false
  positiveInfinity := "inf"
  negativeInfinity := "-inf"
  nan := "nan"

end Layout

end KScript
