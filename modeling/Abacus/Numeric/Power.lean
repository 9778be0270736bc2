import Abacus.Numeric.Logarithm

/-!
Powers.

Integer exponents are handled by repeated squaring with a few digits more than the result needs;
other exponents through the logarithm and the exponential, again with more digits, each step
rounded once. A power of one keeps as many places as its factors have.
-/
namespace Abacus.Numeric

/-- The integer that an integral decimal stands for, sign apart. -/
def wholeOf (x : Decimal) : Nat := x.numerator / x.denominator

/-- `t ^ n` for `n ≥ 1`, the bits of `n` taken from the leading one down; each product is rounded.
A zero stays as it is. -/
def powNat (f : Format) (t : Decimal) (n : Nat) : Option Decimal :=
  if n < 2 then some t
  else do
    let r ← powNat f t (n / 2)
    if r.isZero then return r
    let square ← r.mul f r
    if n % 2 = 0 then return square
    square.mul f t
termination_by n
decreasing_by omega

/-- The format in which a power with integral exponent `x` is worked out. -/
def powerFormat (x : Decimal) : Format :=
  let guard : Int := digitCount x.coefficient + x.exponent + 2 + (if x.negative then 1 else 0)
  { Format.calculator with digits := Format.calculator.digits + guard.toNat }

/-- `base ^ x` for a positive base and a non-zero integral exponent. -/
def powInteger (base x : Decimal) : Option Decimal := do
  let f := powerFormat x
  let t ← if x.negative then Decimal.one.div f base else some base
  let r ← powNat f t (wholeOf x)
  Format.calculator.round r

/-- `1 ^ x` for a one that is written with decimal places: an integral exponent multiplies them, as
far as the digits go, and any other exponent uses all digits. -/
def powOne (base x : Decimal) : Decimal :=
  let most := Format.calculator.digits - 1
  let places :=
    if !x.isIntegral then most
    else if x.negative then 0
    else min most ((-base.exponent).toNat * wholeOf x)
  ⟨false, 10 ^ places, -(places : Int)⟩

/-- Digits of the steps in between, for a base of any length. -/
def realFormat (base : Decimal) : Format :=
  let digits := max Format.calculator.digits (digitCount base.coefficient)
  { Format.calculator with digits := digits + 23 }

/-- A value written with as many digits as the format has. -/
def fullLength (f : Format) (x : Decimal) : Decimal :=
  let pad := min (f.digits - digitCount x.coefficient : Int) (x.exponent - f.tiny)
  if x.isZero || pad ≤ 0 then x else ⟨x.negative, x.coefficient * 10 ^ pad.toNat, x.exponent - pad⟩

/-- `base ^ x` for a positive base other than one and an exponent that is not an integer. -/
def powReal (base x : Decimal) : Option Decimal := do
  let f := realFormat base
  let l ← lnIn (.unbounded f.digits) base
  let y ← l.mul (.unbounded f.digits) x
  let r ← expIn f y
  return fullLength .calculator (← Format.calculator.round r)

/-- `|base| ^ x` for a non-zero base and exponent. -/
def powMagnitude (base x : Decimal) : Option Decimal :=
  if base.abs.eqv .one then some (powOne base.abs x)
  else if x.isIntegral then powInteger base.abs x
  else powReal base.abs x

/-- Fails for a negative base with a fractional exponent, for zero with a negative exponent, and
when the result is too large. -/
def power (base x : Decimal) : Checked :=
  if base.isZero then
    if x.isZero then .ok .one
    else if x.lt .zero then .error .invalidExponent
    else .ok .zero
  else if base.negative && !x.isIntegral then .error .invalidExponent
  else if x.isZero then .ok .one
  else
    let negative := base.negative && wholeOf x % 2 == 1
    check .invalidExponent ((powMagnitude base x).map ({ · with negative := negative }))

end Abacus.Numeric
