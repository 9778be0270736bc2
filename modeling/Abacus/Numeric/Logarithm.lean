import Abacus.Enclosure.Elementary
import Abacus.Numeric.Checked

/-!
Logarithms and the exponential function, correctly rounded.

Apart from the logarithm of one and the decimal logarithms of powers of ten, no value of these
functions lies on the boundary between two roundings.
-/
namespace Abacus.Numeric

/-- `ln x` in a format, for `x > 0`. -/
def lnIn (f : Format) (x : Decimal) : Option Decimal :=
  if x.eqv .one then some .zero
  else
    let r := x.reduce
    Enclosure.settle f fun places => some (.ln (Enclosure.scale places) r.numerator r.denominator)

/-- `log₁₀ x` in a format, for `x > 0`; a power of ten gives its exponent. -/
def log10In (f : Format) (x : Decimal) : Option Decimal :=
  let r := x.reduce
  if r.coefficient = 1 then some (.ofInt r.exponent)
  else
    Enclosure.settle f fun places =>
      let s := Enclosure.scale places
      Enclosure.div? s (.ln s r.numerator r.denominator) (.ln s 10 1)

/-- `e ^ y` in a format. From 1000 on it is beyond every format in use, one way or the other. -/
def expIn (f : Format) (y : Decimal) : Option Decimal :=
  if y.isZero then some .one
  else
    let r := y.reduce
    if 3 ≤ r.adjusted then
      if r.negative then some ⟨false, 0, f.tiny⟩ else none
    else
      let n : Int := if r.negative then -(r.numerator : Int) else r.numerator
      Enclosure.settle f fun places => some (.exp (Enclosure.scale places) n r.denominator)

def naturalLog (x : Decimal) : Checked :=
  if Decimal.zero.lt x then check .math (lnIn .calculator x) else .error .math

def decimalLog (x : Decimal) : Checked :=
  if Decimal.zero.lt x then check .math (log10In .calculator x) else .error .math

end Abacus.Numeric
