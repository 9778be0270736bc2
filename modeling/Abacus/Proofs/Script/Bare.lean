import Abacus.Proofs.Script.ShuntingYard
import Abacus.Script.Program

/-!
Programs without their texts and positions.

Expressions, calls, loops and functions carry the stretch of source that they were made from, and
terms carry an offset into it. The rest of a program is what it means. Putting terms into postfix
order does not look at texts and positions, so it can be done before or after they are taken away.
-/
namespace Abacus

mutual

/-- The term without its position and its text. -/
def Term.bare : Term → Term
  | .number _ x => .number 0 x
  | .name _ n => .name 0 n
  | .call _ n _ arguments => .call 0 n "" (bareArguments arguments)
  | .operator _ op => .operator 0 op
  | .parenthesis _ side => .parenthesis 0 side

def Term.bareArguments : List (Phrase Term) → List (Phrase Term)
  | [] => []
  | ⟨_, terms⟩ :: arguments => ⟨"", bareTerms terms⟩ :: bareArguments arguments

def Term.bareTerms : List Term → List Term
  | [] => []
  | t :: ts => t.bare :: bareTerms ts

end

def Expression.bare (e : Expression) : Expression := ⟨"", e.terms.map Term.bare⟩

mutual

def Statement.bare : Statement → Statement
  | .expression e => .expression (Expression.bare e)
  | .branch condition body otherwise =>
    .branch (Expression.bare condition) (bareStatements body) (bareOtherwise otherwise)
  | .loop _ condition body => .loop "" (Expression.bare condition) (bareStatements body)
  | .returning e => .returning (Expression.bare e)
  | .printing e => .printing (Expression.bare e)
  | .breaking => .breaking

def Statement.bareStatements : List Statement → List Statement
  | [] => []
  | s :: ss => s.bare :: bareStatements ss

def Statement.bareOtherwise : Option (List Statement) → Option (List Statement)
  | none => none
  | some ss => some (bareStatements ss)

end

def Function.bare (f : Function) : Function :=
  ⟨f.name, "", f.parameters, Statement.bareStatements f.body⟩

def Program.bare (p : Program) : Program :=
  ⟨Statement.bareStatements p.statements, p.functions.map Function.bare⟩

namespace Term

theorem bareTerms_eq (ts : List Term) : bareTerms ts = ts.map bare := by
  induction ts with
  | nil => rfl
  | cons t ts ih => rw [bareTerms, List.map_cons, ih]

theorem bareArguments_eq (es : List Expression) : bareArguments es = es.map Expression.bare := by
  induction es with
  | nil => rfl
  | cons e es ih =>
    obtain ⟨context, terms⟩ := e
    rw [bareArguments, List.map_cons, ih, Expression.bare, bareTerms_eq]

theorem operator?_bare (t : Term) : t.bare.operator? = t.operator? := by
  cases t <;> rfl

theorem not_isParenthesis_comp_bare :
    (!·.isParenthesis) ∘ bare = fun t : Term => !t.isParenthesis := by
  funext t
  cases t <;> rfl

end Term

namespace Postfix

open Term (bare)

theorem release_bare (op : Operator) (stack : List Term) :
    release op (stack.map bare)
      = ((release op stack).1.map bare, (release op stack).2.map bare) := by
  have htighter : bindsTighter op ∘ bare = bindsTighter op := by
    funext t
    simp only [Function.comp, bindsTighter, Term.operator?_bare]
  have hequally : ∀ t : Term, bindsEqually op t.bare = bindsEqually op t := by
    intro t
    simp only [bindsEqually, Term.operator?_bare]
  simp only [release, List.takeWhile_map, List.dropWhile_map, htighter]
  cases stack.dropWhile (bindsTighter op) with
  | nil => rfl
  | cons top below =>
    simp only [List.map_cons, hequally]
    split
    · simp
    · rfl

theorem putOut_bare (stack : List Term) (t : Term) :
    putOut (stack.map bare) t.bare = (putOut stack t).map bare := by
  match t with
  | .operator p op => simp only [bare, putOut, release_bare]
  | .parenthesis p .left => rfl
  | .parenthesis p .right =>
    simp only [bare, putOut, List.takeWhile_map, Term.not_isParenthesis_comp_bare]
  | .number p x => rfl
  | .name p n => rfl
  | .call p n text arguments => rfl

theorem stackAfter_bare (stack : List Term) (t : Term) :
    stackAfter (stack.map bare) t.bare = (stackAfter stack t).map bare := by
  match t with
  | .operator p op => simp only [bare, stackAfter, release_bare, List.map_cons]
  | .parenthesis p .left => rfl
  | .parenthesis p .right =>
    simp only [bare, stackAfter, List.dropWhile_map, Term.not_isParenthesis_comp_bare,
      List.map_drop]
  | .number p x => rfl
  | .name p n => rfl
  | .call p n text arguments => rfl

theorem reorder_bare (ts stack : List Term) :
    (reorder ts stack).map bare = reorder (ts.map bare) (stack.map bare) := by
  induction ts generalizing stack with
  | nil =>
    simp only [List.map_nil, reorder, List.filter_map, Term.not_isParenthesis_comp_bare]
  | cons t ts ih =>
    rw [reorder_cons, List.map_append, ih, List.map_cons, reorder_cons, putOut_bare,
      stackAfter_bare]

theorem compile_bare (context : String) (ts : List Term) :
    Expression.bare (compile context ts) = compile "" (ts.map bare) := by
  rw [Expression.bare, compile, compile, reorder_bare]
  rfl

end Postfix

end Abacus
