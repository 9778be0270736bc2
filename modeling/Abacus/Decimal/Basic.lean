/-!
Decimal numbers as a sign, a coefficient and a power of ten.

The representation is part of the value: `1.50` and `1.5` are different decimals that compare
equal, and zero has a sign and an exponent. Nothing here rounds.
-/
namespace Abacus

/-- Powers of natural numbers are those of the core library, whatever else is imported. -/
instance (priority := high) powNat : Pow Nat Nat := instPowNat

/-- Number of decimal digits of `n`; zero has one. -/
def digitCount (n : Nat) : Nat :=
  if n < 10 then 1 else digitCount (n / 10) + 1
termination_by n
decreasing_by omega

/-- The decimal `± coefficient · 10 ^ exponent`. -/
structure Decimal where
  negative : Bool
  coefficient : Nat
  exponent : Int
deriving DecidableEq, Repr, Inhabited

namespace Decimal

def zero : Decimal := ⟨false, 0, 0⟩

def one : Decimal := ⟨false, 1, 0⟩

def minusOne : Decimal := ⟨true, 1, 0⟩

def ofNat (n : Nat) : Decimal := ⟨false, n, 0⟩

def ofInt (n : Int) : Decimal := ⟨decide (n < 0), n.natAbs, 0⟩

/-- `1` for true and `0` for false, the results of comparisons and logic. -/
def ofBool (b : Bool) : Decimal := if b then one else zero

def isZero (x : Decimal) : Bool := x.coefficient == 0

/-- Exponent of the leading digit. -/
def adjusted (x : Decimal) : Int := x.exponent + digitCount x.coefficient - 1

def neg (x : Decimal) : Decimal := { x with negative := !x.negative }

def abs (x : Decimal) : Decimal := { x with negative := false }

/-- The coefficient of `|x|` when it is written with exponent `e`, for an `e` that is not above
the exponent of `x`. -/
def alignedTo (x : Decimal) (e : Int) : Nat := x.coefficient * 10 ^ (x.exponent - e).toNat

/-- `alignedTo` with the sign of `x`. -/
def signedAt (x : Decimal) (e : Int) : Int :=
  if x.negative then -(x.alignedTo e : Int) else x.alignedTo e

/-- Exact order; the sign of zero and trailing zeros do not matter. -/
def lt (x y : Decimal) : Bool :=
  let e := min x.exponent y.exponent
  decide (x.signedAt e < y.signedAt e)

/-- Exact equality of values. -/
def eqv (x y : Decimal) : Bool :=
  let e := min x.exponent y.exponent
  decide (x.signedAt e = y.signedAt e)

def le (x y : Decimal) : Bool := !y.lt x

/-- Removes up to `limit` trailing zeros of a non-zero coefficient; the value stays. -/
def strip : Nat → Decimal → Decimal
  | 0, x => x
  | limit + 1, x =>
    if x.coefficient ≠ 0 ∧ x.coefficient % 10 = 0 then
      strip limit ⟨x.negative, x.coefficient / 10, x.exponent + 1⟩
    else x

/-- The shortest representation of the value: no trailing zeros, and one zero. -/
def reduce (x : Decimal) : Decimal :=
  if x.isZero then zero else x.strip (digitCount x.coefficient)

/-- The value as a fraction of natural numbers, sign apart. -/
def numerator (x : Decimal) : Nat := x.coefficient * 10 ^ x.exponent.toNat

@[inherit_doc numerator]
def denominator (x : Decimal) : Nat := 10 ^ (-x.exponent).toNat

def isIntegral (x : Decimal) : Bool := x.numerator % x.denominator == 0

end Decimal

end Abacus
