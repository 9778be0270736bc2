import Abacus.Decimal.Basic

/-!
Rounding into a decimal format.

A format has a number of digits and a range of exponents. Rounding happens once, to the nearest
representable value with ties to the even coefficient; below the least normal exponent the grid
stays fixed, so results lose digits gradually and may become a zero.
-/
namespace Abacus

/-- `n / d` rounded to the nearest integer, ties to even. -/
def roundDiv (n d : Nat) : Nat :=
  let q := n / d
  let r := n % d
  if 2 * r < d then q else if d < 2 * r then q + 1 else q + q % 2

structure Format where
  /-- Significant digits of a normal value. -/
  digits : Nat
  /-- Largest exponent of a leading digit. -/
  maxExponent : Int
  /-- Least exponent of a leading digit of a normal value. -/
  minExponent : Int

namespace Format

/-- The format of every value that the calculator keeps: 28 digits, exponents from -28 to 28. -/
def calculator : Format := ⟨28, 28, -28⟩

/-- `digits` digits and no bound on the exponent that a computation here could meet. -/
def unbounded (digits : Nat) : Format := ⟨digits, 999999, -999999⟩

/-- Exponent of the least positive value. -/
def tiny (f : Format) : Int := f.minExponent + 1 - f.digits

/-- A coefficient that rounding has carried to one digit too many. -/
def carry (f : Format) (x : Decimal) : Decimal :=
  if f.digits < digitCount x.coefficient then
    ⟨x.negative, x.coefficient / 10, x.exponent + 1⟩
  else x

/-- The value `± (n / d) · 10 ^ e` in the format, or `none` if it is too large.

A value that fits is kept as it is, so `d` has to divide `n` unless `n / d` has at least as many
digits as the format. -/
def settle (f : Format) (negative : Bool) (n d : Nat) (e : Int) : Option Decimal :=
  if n = 0 then some ⟨negative, 0, max f.tiny (min e f.maxExponent)⟩
  else
    let drop := max (digitCount (n / d) - f.digits : Int) (f.tiny - e)
    let x : Decimal :=
      if drop ≤ 0 then ⟨negative, n / d, e⟩
      else f.carry ⟨negative, roundDiv n (d * 10 ^ drop.toNat), e + drop⟩
    if f.maxExponent < x.adjusted then none else some x

/-- Rounds a decimal into the format. -/
def round (f : Format) (x : Decimal) : Option Decimal :=
  f.settle x.negative x.coefficient 1 x.exponent

/-- Rounds the integer multiple `v · 10 ^ e`. -/
def settleInt (f : Format) (v : Int) (e : Int) : Option Decimal :=
  f.settle (decide (v < 0)) v.natAbs 1 e

end Format

end Abacus
