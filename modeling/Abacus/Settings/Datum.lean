import Abacus.Binary
import Abacus.Decimal.Numeral
import Abacus.Text.Quoted

/-!
The plain data that settings are given as, and the text by which messages show them.
-/
namespace Abacus

inductive Datum where
  | null
  | bool (b : Bool)
  | integer (n : Int)
  /-- A number with a fractional part, of double precision. -/
  | real (x : Decimal)
  | text (s : String)
  | list (items : List Datum)
  | mapping (entries : List (Datum × Datum))
deriving Inhabited

namespace Datum

/-- Exponents of the leading digit for which reals are written positionally. -/
def positionalFrom : Int := -4

@[inherit_doc positionalFrom]
def positionalBelow : Int := 16

/-- The fewest digits that read back as the same double; a point always shows. -/
def realText (x : Decimal) : String :=
  let b := Binary.nearest Binary.doubleBits x.negative x.numerator x.denominator
  let d := b.shortest Binary.doubleBits
  let digits := Decimal.digitsOf d.coefficient
  let body :=
    if d.isZero then "0.0".toList
    else if positionalFrom ≤ d.adjusted ∧ d.adjusted < positionalBelow then
      if 0 ≤ d.exponent then Decimal.digitsOf d.numerator ++ ['.', '0']
      else Decimal.pointed d.exponent.natAbs d.coefficient
    else
      Decimal.pointed (digits.length - 1) d.coefficient
        ++ 'e' :: (if d.adjusted < 0 then '-' else '+') :: Decimal.padded 2 d.adjusted.natAbs
  String.ofList (Decimal.signText x.negative ++ body)

mutual

/-- How a message shows a datum. -/
def render : Datum → String
  | null => "None"
  | bool b => if b then "True" else "False"
  | integer n => toString n
  | real x => realText x
  | text s => Text.quoted s
  | list items => "[" ++ ", ".intercalate (renderAll items) ++ "]"
  | mapping entries => "\x7b" ++ ", ".intercalate (renderEntries entries) ++ "\x7d"

def renderAll : List Datum → List String
  | [] => []
  | d :: rest => d.render :: renderAll rest

def renderEntries : List (Datum × Datum) → List String
  | [] => []
  | (key, value) :: rest => (key.render ++ ": " ++ value.render) :: renderEntries rest

end

/-- A key of a mapping as plain text. -/
def keyText : Datum → String
  | text s => s
  | d => d.render

/-- Adds an entry to a mapping, or replaces the value of an equal key. -/
def putEntry (key value : Datum) : List (Datum × Datum) → List (Datum × Datum)
  | [] => [(key, value)]
  | (k, v) :: rest =>
    if k.render = key.render then (k, value) :: rest else (k, v) :: putEntry key value rest

end Datum

end Abacus
