import Abacus.Decimal.Rounding

/-!
The four operations and the remainder in a format.

Each result is the exact one rounded once; `none` is overflow. An exact result keeps the exponent
that its operands suggest: the smaller one for sums and remainders, the sum for products, and as
near as possible to the difference for quotients.
-/
namespace Abacus.Decimal

/-- A sum that is exactly zero is negative only if both operands are. -/
def add (f : Format) (x y : Decimal) : Option Decimal :=
  let e := min x.exponent y.exponent
  let s := x.signedAt e + y.signedAt e
  f.settle (if s = 0 then x.negative && y.negative else decide (s < 0)) s.natAbs 1 e

def sub (f : Format) (x y : Decimal) : Option Decimal := add f x y.neg

def mul (f : Format) (x y : Decimal) : Option Decimal :=
  f.settle (x.negative != y.negative) (x.coefficient * y.coefficient) 1 (x.exponent + y.exponent)

/-- Quotient by a non-zero `y`. The dividend is scaled so that the integer quotient has one or two
digits more than the format; an exact quotient gives those zeros back. -/
def div (f : Format) (x y : Decimal) : Option Decimal :=
  let negative := x.negative != y.negative
  let ideal := x.exponent - y.exponent
  if x.isZero then f.settle negative 0 1 ideal
  else
    let shift : Int := digitCount y.coefficient - digitCount x.coefficient + f.digits + 1
    let n := x.coefficient * 10 ^ shift.toNat
    let d := y.coefficient * 10 ^ (-shift).toNat
    if n % d = 0 then f.round (strip shift.toNat ⟨negative, n / d, ideal - shift⟩)
    else f.settle negative n d (ideal - shift)

/-- The integer part of `|x / y|`. -/
def wholeQuotient (x y : Decimal) : Nat :=
  let e := min x.exponent y.exponent
  x.alignedTo e / y.alignedTo e

/-- What is left of `x` after taking away whole multiples of a non-zero `y`; it has the sign of
`x`, also when it is zero. -/
def rem (f : Format) (x y : Decimal) : Option Decimal :=
  let e := min x.exponent y.exponent
  f.settle x.negative (x.alignedTo e % y.alignedTo e) 1 e

/-- The nearest integer, ties to even; an integer is kept as it is. -/
def nearestInteger (x : Decimal) : Decimal :=
  if 0 ≤ x.exponent then x
  else ⟨x.negative, roundDiv x.coefficient (10 ^ (-x.exponent).toNat), 0⟩

end Abacus.Decimal
