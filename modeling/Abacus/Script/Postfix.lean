import Abacus.Script.Term

/-!
Expressions in postfix order.

Operands go straight to the output. An operator waits on a stack until one of lower precedence
comes, or one of the same precedence that associates to the left; of waiting operators with the
same precedence as the incoming one at most the topmost is let go, since there is never another.
Parentheses group, and a left parenthesis on the stack shields what is below it.
-/
namespace Abacus.Postfix

/-- Whether a waiting term is an operator that binds more tightly than `op`. -/
def bindsTighter (op : Operator) (t : Term) : Bool :=
  match t.operator? with
  | some top => op.precedence < top.precedence
  | none => false

/-- Whether a waiting term is an operator that binds as tightly as `op`. -/
def bindsEqually (op : Operator) (t : Term) : Bool :=
  match t.operator? with
  | some top => top.precedence == op.precedence
  | none => false

/-- Splits the stack for an incoming operator: what is let go, and what keeps waiting. -/
def release (op : Operator) (stack : List Term) : List Term × List Term :=
  let tighter := stack.takeWhile (bindsTighter op)
  match stack.dropWhile (bindsTighter op) with
  | top :: below =>
    if bindsEqually op top && op.leftAssociative then (tighter ++ [top], below)
    else (tighter, top :: below)
  | [] => (tighter, [])

/-- The output for terms in source order, given the stack of waiting terms, topmost first. Anything
may come in: what is unbalanced is closed at the end. -/
def reorder : List Term → List Term → List Term
  | [], stack => stack.filter (!·.isParenthesis)
  | .operator p op :: ts, stack =>
    let (out, waiting) := release op stack
    out ++ reorder ts (.operator p op :: waiting)
  | .parenthesis p .left :: ts, stack => reorder ts (.parenthesis p .left :: stack)
  | .parenthesis _ .right :: ts, stack =>
    stack.takeWhile (!·.isParenthesis)
      ++ reorder ts ((stack.dropWhile (!·.isParenthesis)).drop 1)
  | t :: ts, stack => t :: reorder ts stack

/-- The expression of the given text. -/
def compile (context : String) (terms : List Term) : Expression := ⟨context, reorder terms []⟩

end Abacus.Postfix
