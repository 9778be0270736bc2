import Abacus.Binary
import Abacus.Enclosure.Elementary
import Abacus.Numeric.Checked

/-!
Trigonometric functions and their inverses, in radians and in degrees.

Sine, cosine and tangent take their argument as a binary number of 169 bits and give 50 significant
digits, which are then rounded into the calculator's format. The inverse functions work in double
precision. Tangents are undefined at odd quarter turns; in radians these are recognised with a
tolerance, since no multiple of π/2 can be written exactly.
-/
namespace Abacus.Numeric

/-- π, rounded to the calculator's format. -/
def pi : Decimal := ⟨false, 3141592653589793238462643383, -27⟩

/-- The quotient of two constants. -/
def constantQuotient (x y : Decimal) : Decimal := (x.div .calculator y).getD .zero

def halfPi : Decimal := constantQuotient pi (.ofNat 2)

def radiansPerDegree : Decimal := constantQuotient pi (.ofNat 180)

def degreesPerRadian : Decimal := constantQuotient (.ofNat 180) pi

def toRadians (degrees : Decimal) : Checked := multiply degrees radiansPerDegree

def toDegrees (radians : Decimal) : Checked := multiply radians degreesPerRadian

/-! ### Poles of the tangent -/

/-- Relative tolerance of the test for odd multiples of π/2. -/
def poleTolerance : Decimal := ⟨false, 1, -26⟩

/-- The tolerance never exceeds this part of the unit. -/
def poleSlackLimit : Decimal := ⟨false, 1, -12⟩

/-- Whether `x` lies within `tolerance · |x|` of an odd multiple of `unit`, in the calculator's
arithmetic; `none` if a step is out of range. -/
def isOddMultiple? (x unit tolerance : Decimal) : Option Bool := do
  let f := Format.calculator
  let magnitude := x.abs
  let quotient := (← magnitude.div f unit).nearestInteger
  let rest := (← magnitude.sub f (← quotient.mul f unit)).abs
  let relative ← magnitude.mul f tolerance
  let most ← unit.mul f poleSlackLimit
  let slack := if most.lt relative then most else relative
  let two := Decimal.ofNat 2
  if f.digits < digitCount (quotient.wholeQuotient two) then none
  let odd := (← quotient.rem f two).eqv .one
  return odd && rest.le slack

def isOddMultiple (x unit tolerance : Decimal) : Bool :=
  (isOddMultiple? x unit tolerance).getD false

/-! ### Sine, cosine and tangent -/

/-- Bits of the argument. -/
def argumentBits : Nat := 169

/-- Significant digits of the value before it is rounded into the calculator's format. -/
def workDigits : Nat := 50

/-- Below this exponent of the leading digit a value is written in scientific notation. -/
def plainLimit : Int := -17

/-- A value as its shortest text with at least one digit after the point denotes it. -/
def withPlace (x : Decimal) : Decimal :=
  let r := x.reduce
  let pad : Nat :=
    if 0 ≤ r.exponent then r.exponent.toNat + 1
    else if r.adjusted < plainLimit ∧ r.coefficient < 10 then 1
    else 0
  ⟨r.negative, r.coefficient * 10 ^ pad, r.exponent - pad⟩

/-- Applies an enclosed function to the binary number nearest to `x`.

The value is the one correctly rounded to `workDigits` digits. A library that computes with so many
digits may err in the last of them; the two agree when they have been rounded to the 28 digits of
the calculator's format, and need not do so digit by digit before. -/
def forward (function : Nat → Int → Nat → Option Enclosure) (x : Decimal) : Checked :=
  let r := x.reduce
  let b := Binary.nearest argumentBits r.negative r.numerator r.denominator
  let n : Int := if b.negative then -(b.numerator : Int) else b.numerator
  let value := Enclosure.settle (.unbounded workDigits) fun places =>
    function (Enclosure.scale places) n b.denominator
  check .math (value.bind fun v => Format.calculator.round (withPlace v))

/-- What the functions give at zero. -/
def zeroWithPlace : Decimal := ⟨false, 0, -1⟩

def sine (x : Decimal) : Checked :=
  if x.isZero then .ok zeroWithPlace else forward (fun s n d => some (.sin s n d)) x

def cosine (x : Decimal) : Checked := forward (fun s n d => some (.cos s n d)) x

def tangentOf (x : Decimal) : Checked :=
  if x.isZero then .ok zeroWithPlace else forward Enclosure.tan? x

def tangent (x : Decimal) : Checked :=
  if isOddMultiple x halfPi poleTolerance then .error .math else tangentOf x

def sineDegrees (x : Decimal) : Checked := do sine (← toRadians x)

def cosineDegrees (x : Decimal) : Checked := do cosine (← toRadians x)

/-- In degrees the poles are exactly the odd multiples of 90. -/
def tangentDegrees (x : Decimal) : Checked := do
  if isOddMultiple x (.ofNat 90) .zero then .error .math
  else tangentOf (← toRadians x)

/-! ### Inverse functions -/

/-- The double nearest to the enclosed value, as an exact decimal. -/
def nearestDouble (approximate : Nat → Option Enclosure) : Decimal :=
  let round (v : Int) (places : Nat) : Decimal :=
    (Binary.nearest Binary.doubleBits (decide (v < 0)) v.natAbs (10 ^ places)).toDecimal
  Enclosure.decideAt approximate round Enclosure.precisions .zero

def toDouble (x : Decimal) : Binary :=
  let r := x.reduce
  Binary.nearest Binary.doubleBits r.negative r.numerator r.denominator

def signedNumerator (b : Binary) : Int := if b.negative then -(b.numerator : Int) else b.numerator

/-- The sign of a zero, without its exponent. -/
def plainZero (x : Decimal) : Decimal := ⟨x.negative, 0, 0⟩

def arcsine (x : Decimal) : Checked :=
  let b := toDouble x
  if x.isZero then .ok (plainZero x)
  else if b.denominator < b.numerator then .error .math
  else
    check .math (Format.calculator.round (nearestDouble fun places =>
      Enclosure.arcsin (Enclosure.scale places) (signedNumerator b) b.denominator))

def arccosine (x : Decimal) : Checked :=
  let b := toDouble x
  if b.denominator < b.numerator then .error .math
  else if b.numerator = b.denominator ∧ b.negative = false then .ok .zero
  else
    check .math (Format.calculator.round (nearestDouble fun places =>
      Enclosure.arccos (Enclosure.scale places) (signedNumerator b) b.denominator))

def arctangent (x : Decimal) : Checked :=
  let b := toDouble x
  if x.isZero then .ok (plainZero x)
  else
    check .math (Format.calculator.round (nearestDouble fun places =>
      let s := Enclosure.scale places
      Enclosure.arctan s (.ofRatio s (signedNumerator b) b.denominator)))

def arcsineDegrees (x : Decimal) : Checked := do toDegrees (← arcsine x)

def arccosineDegrees (x : Decimal) : Checked := do toDegrees (← arccosine x)

def arctangentDegrees (x : Decimal) : Checked := do toDegrees (← arctangent x)

end Abacus.Numeric
