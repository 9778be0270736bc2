import Abacus.Decimal.Numeral
import Abacus.Decimal.Rounding

/-!
The plain form in which values are shown: rounded to a number of decimal places, without an
exponent, without trailing zeros and without a negative zero.
-/
namespace Abacus.Decimal

/-- The multiple of `10 ^ -places` nearest to `x`, ties to even. -/
def quantize (places : Int) (x : Decimal) : Decimal :=
  let e := -places
  if e ≤ x.exponent then ⟨x.negative, x.alignedTo e, e⟩
  else ⟨x.negative, roundDiv x.coefficient (10 ^ (e - x.exponent).toNat), e⟩

/-- Digits that a rounded value may have to be shown with `places` decimal places. -/
def displayDigits (places : Int) : Int := 2 * Format.calculator.digits + places

/-- Positional notation for any exponent. -/
def plainText (x : Decimal) : String :=
  let body :=
    if 0 ≤ x.exponent then digitsOf (x.coefficient * 10 ^ x.exponent.toNat)
    else pointed x.exponent.natAbs x.coefficient
  String.ofList (signText x.negative ++ body)

/-- The text shown for `x`, or `none` if it has too many digits to be rounded.

Any number of places is taken here. Decimal arithmetic with the usual bounds on its exponents, which
are 999999 either way with 28 digits, scales by at most 2000054 places; asked for more of them it
fails, whatever the value. -/
def display? (places : Int) (x : Decimal) : Option String :=
  let r := x.quantize places
  if displayDigits places < digitCount r.coefficient then none
  else if r.isZero then some "0"
  else some r.reduce.plainText

end Abacus.Decimal
