import Abacus.Decimal.Numeral
import Abacus.Script.Operator

/-!
Terms: the parts of an expression, with their places in it.

The same terms stand in source order, with parentheses, before an expression is put into postfix
order, and without parentheses afterwards.
-/
namespace Abacus

inductive Side where
  | left | right
deriving DecidableEq, Repr

/-- A stretch of source with the parts it was made into. -/
structure Phrase (α : Type) where
  context : String
  terms : List α

/-- A part of an expression; its position is an offset into the expression's own text. -/
inductive Term where
  | number (position : Int) (value : Decimal)
  | name (position : Int) (name : String)
  | call (position : Int) (name text : String) (arguments : List (Phrase Term))
  | operator (position : Int) (op : Operator)
  | parenthesis (position : Int) (side : Side)

/-- An expression's terms in the order in which they are evaluated. -/
abbrev Expression := Phrase Term

namespace Term

def position : Term → Int
  | number p _ => p
  | name p _ => p
  | call p _ _ _ => p
  | operator p _ => p
  | parenthesis p _ => p

def isParenthesis : Term → Bool
  | parenthesis _ _ => true
  | _ => false

def operator? : Term → Option Operator
  | operator _ op => some op
  | _ => none

/-- One-line description of a term that is not a call. -/
def describe? : Term → Option String
  | number p value => some (line "value" value.toText p)
  | name p n => some (line "identifier" n p)
  | operator p op => some (line "operator" op.symbol p)
  | parenthesis p side => some (line "parenthesis" (if side = .left then "(" else ")") p)
  | call _ _ _ _ => none
where
  line (kind content : String) (p : Int) : String :=
    kind ++ "(" ++ content ++ ") @ " ++ toString p

end Term

end Abacus
