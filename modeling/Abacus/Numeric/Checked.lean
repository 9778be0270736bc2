import Abacus.Decimal.Arithmetic
import Abacus.Decimal.Numeral
import Abacus.Diagnostic

/-!
Checked arithmetic on the calculator's numbers.

An operation either returns a value of the calculator's format or names the error to report; there
are no infinities and no undefined values.
-/
namespace Abacus.Numeric

abbrev Checked := Except ErrorKind Decimal

/-- A result that does not exist is reported as `kind`. -/
def check (kind : ErrorKind) : Option Decimal → Checked
  | some x => .ok x
  | none => .error kind

/-- A number literal `digits[.digits]`, rounded into the format. -/
def literal (whole fraction : List Char) : Checked :=
  check .invalidNumber (Format.calculator.round (Decimal.ofDigits whole fraction))

/-- A number literal in the text form that decimals are read from. -/
def ofText (text : String) : Checked :=
  check .invalidNumber ((Decimal.ofText? text).bind Format.calculator.round)

/-- Every value but zero counts as true. -/
def isTrue (x : Decimal) : Bool := !x.isZero

def add (x y : Decimal) : Checked := check .math (x.add .calculator y)

def subtract (x y : Decimal) : Checked := check .math (x.sub .calculator y)

def multiply (x y : Decimal) : Checked := check .math (x.mul .calculator y)

def divide (x y : Decimal) : Checked :=
  if y.isZero then .error .zeroDivision else check .math (x.div .calculator y)

/-- Wide enough for the integer quotient of any two of the calculator's numbers. -/
def wide : Format := .unbounded (4 * Format.calculator.digits)

/-- Rounds into the calculator's format; a zero loses its sign. -/
def narrow (x : Decimal) : Option Decimal :=
  Format.calculator.round (if x.isZero then x.abs else x)

/-- Remainder of the division that truncates toward zero; it has the sign of `x`. An integer
quotient that is too long for the calculator's format is worked out in the wide one. -/
def remainder (x y : Decimal) : Checked :=
  if y.isZero then .error .zeroDivision
  else
    let length := digitCount (x.wholeQuotient y)
    if length ≤ Format.calculator.digits then check .math (x.rem .calculator y)
    else if length ≤ wide.digits then check .math ((x.rem wide y).bind narrow)
    else .error .math

def negate (x : Decimal) : Checked := multiply x .minusOne

def absolute (x : Decimal) : Decimal := x.abs

/-! ### Logic and comparison: the results are `1` and `0` -/

def both (x y : Decimal) : Decimal := .ofBool (isTrue x && isTrue y)

def either (x y : Decimal) : Decimal := .ofBool (isTrue x || isTrue y)

def complement (x : Decimal) : Decimal := .ofBool x.isZero

def less (x y : Decimal) : Decimal := .ofBool (x.lt y)

def greater (x y : Decimal) : Decimal := .ofBool (y.lt x)

def equal (x y : Decimal) : Decimal := .ofBool (x.eqv y)

def unequal (x y : Decimal) : Decimal := .ofBool (!x.eqv y)

end Abacus.Numeric
