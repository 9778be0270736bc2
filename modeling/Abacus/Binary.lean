import Abacus.Decimal.Rounding

/-!
Binary numbers `± m · 2 ^ q` with a fixed number of significant bits, their exact decimals and the
shortest decimals that read back as the same number.
-/
namespace Abacus

structure Binary where
  negative : Bool
  mantissa : Nat
  exponent : Int
deriving DecidableEq, Repr

namespace Binary

/-- Significant bits of a double-precision number. -/
def doubleBits : Nat := 53

/-- The number with `bits` significant bits nearest to `± n / d`, ties to even. -/
def nearest (bits : Nat) (negative : Bool) (n d : Nat) : Binary :=
  if n = 0 then ⟨negative, 0, 0⟩
  else
    let guess : Int := (n.log2 : Int) - d.log2 - bits
    let q := if n * 2 ^ (-guess).toNat / (d * 2 ^ guess.toNat) < 2 ^ bits then guess else guess + 1
    ⟨negative, roundDiv (n * 2 ^ (-q).toNat) (d * 2 ^ q.toNat), q⟩

def numerator (x : Binary) : Nat := x.mantissa * 2 ^ x.exponent.toNat

def denominator (x : Binary) : Nat := 2 ^ (-x.exponent).toNat

/-- Halves an even mantissa up to `limit` times; the value stays. -/
def halve : Nat → Nat → Nat × Nat
  | 0, m => (m, 0)
  | limit + 1, m => if m % 2 = 0 then halve limit (m / 2) else (m, limit + 1)

/-- The exact value as a decimal with as few places as it needs: `m / 2 ^ j` is
`m · 5 ^ j / 10 ^ j`. -/
def toDecimal (x : Binary) : Decimal :=
  let (m, j) := halve (-x.exponent).toNat x.numerator
  if x.mantissa = 0 then ⟨x.negative, 0, 0⟩ else ⟨x.negative, m * 5 ^ j, -(j : Int)⟩

/-- Whether the decimal `± c · 10 ^ e` reads back as `x`. -/
def readsBack (bits : Nat) (x : Binary) (c : Decimal) : Bool :=
  let y := nearest bits c.negative c.numerator c.denominator
  y.numerator * x.denominator == x.numerator * y.denominator

/-- The decimals with at most `digits` digits on either side of `x`, the nearer one first. -/
def neighbours (digits : Nat) (x : Decimal) : List Decimal :=
  let drop := digitCount x.coefficient - digits
  let unit := 10 ^ drop
  let low : Decimal := ⟨x.negative, x.coefficient / unit, x.exponent + drop⟩
  let high : Decimal := ⟨x.negative, x.coefficient / unit + 1, x.exponent + drop⟩
  if 2 * (x.coefficient % unit) ≤ unit then [low, high] else [high, low]

/-- The first decimal that reads back as `x`, trying `n` digits more than `digits`. -/
def shortestFrom (bits : Nat) (x : Binary) : Nat → Nat → Decimal
  | 0, _ => x.toDecimal
  | n + 1, digits =>
    match (neighbours digits x.toDecimal).find? (readsBack bits x) with
    | some c => c
    | none => shortestFrom bits x n (digits + 1)

/-- The decimal with the fewest digits that reads back as `x`, of two the nearer. -/
def shortest (bits : Nat) (x : Binary) : Decimal := (shortestFrom bits x 17 1).reduce

end Binary

end Abacus
