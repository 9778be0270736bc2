import Abacus.Script.Term

/-!
Expressions as trees, and the order in which a tree lists its terms.

A tree has no parentheses; an operator stands above its operands. Listed in postorder, every
operator follows the terms of its operands. The listing determines the tree, since the number of
operands of an operator is fixed.
-/
namespace Abacus

inductive Tree where
  | number (position : Int) (value : Decimal)
  | name (position : Int) (name : String)
  /-- Each argument has a text of its own. -/
  | call (position : Int) (name text : String) (arguments : List (String × Tree))
  | unary (position : Int) (op : Operator) (isUnary : op.isUnary = true) (operand : Tree)
  /-- The operators of two operands are those that associate to the left, and assignment. -/
  | binary (position : Int) (op : Operator) (isLeft : op.leftAssociative = true)
      (left right : Tree)
  | assignment (position : Int) (target value : Tree)

namespace Operator

theorem not_isUnary_of_leftAssociative {op : Operator} (h : op.leftAssociative = true) :
    op.isUnary = false := by
  cases op <;> simp_all [leftAssociative, isUnary, precedence]

end Operator

namespace Tree

mutual

/-- The terms of a tree, operands first. -/
def postorder : Tree → List Term
  | number p x => [.number p x]
  | name p n => [.name p n]
  | call p n text arguments => [.call p n text (expressions arguments)]
  | unary p op _ t => t.postorder ++ [.operator p op]
  | binary p op _ l r => l.postorder ++ r.postorder ++ [.operator p op]
  | assignment p l r => l.postorder ++ r.postorder ++ [.operator p .assign]

def expressions : List (String × Tree) → List Expression
  | [] => []
  | (context, t) :: rest => ⟨context, t.postorder⟩ :: expressions rest

end

theorem length_expressions (arguments : List (String × Tree)) :
    (expressions arguments).length = arguments.length := by
  induction arguments with
  | nil => rfl
  | cons a rest ih => simp [expressions, ih]

/-! ### The listing determines the tree -/

/-- The last term of the listing. -/
def root : Tree → Term
  | number p x => .number p x
  | name p n => .name p n
  | call p n text arguments => .call p n text (expressions arguments)
  | unary p op _ _ => .operator p op
  | binary p op _ _ _ => .operator p op
  | assignment p _ _ => .operator p .assign

/-- The terms of the operands. -/
def branches : Tree → List Term
  | unary _ _ _ t => t.postorder
  | binary _ _ _ l r => l.postorder ++ r.postorder
  | assignment _ l r => l.postorder ++ r.postorder
  | _ => []

theorem postorder_eq (t : Tree) : t.postorder = t.branches ++ [t.root] := by
  cases t <;> simp [postorder, branches, root]

theorem branches_root_of_append {t u : Tree} {xs ys : List Term}
    (h : xs ++ t.postorder = ys ++ u.postorder) :
    xs ++ t.branches = ys ++ u.branches ∧ t.root = u.root := by
  rw [postorder_eq, postorder_eq, ← List.append_assoc, ← List.append_assoc] at h
  obtain ⟨hb, hr⟩ := List.append_inj' h rfl
  exact ⟨hb, by simpa using hr⟩

mutual

/-- A listing can be read off from its end, whatever stands before it. -/
theorem append_postorder_inj (t u : Tree) (xs ys : List Term)
    (h : xs ++ t.postorder = ys ++ u.postorder) : xs = ys ∧ t = u := by
  obtain ⟨hb, hr⟩ := branches_root_of_append h
  match t, u with
  | number .., u => cases u <;> simp_all [root, branches]
  | name .., u => cases u <;> simp_all [root, branches]
  | call _ _ _ as, u =>
    cases u with
    | call q m s bs =>
      simp only [root, Term.call.injEq] at hr
      obtain ⟨rfl, rfl, rfl, ha⟩ := hr
      rw [expressions_inj ha]
      simpa [branches] using hb
    | _ => simp [root] at hr
  | unary _ _ hu t, u =>
    cases u with
    | unary q op hu' u =>
      simp only [root, Term.operator.injEq] at hr
      obtain ⟨rfl, rfl⟩ := hr
      obtain ⟨rfl, rfl⟩ := append_postorder_inj t u xs ys hb
      exact ⟨rfl, rfl⟩
    | binary q op hl =>
      simp only [root, Term.operator.injEq] at hr
      simp [hr.2, Operator.not_isUnary_of_leftAssociative hl] at hu
    | assignment =>
      simp only [root, Term.operator.injEq] at hr
      simp [hr.2, Operator.isUnary, Operator.precedence] at hu
    | _ => simp [root] at hr
  | binary _ _ hl l r, u =>
    cases u with
    | unary q op hu =>
      simp only [root, Term.operator.injEq] at hr
      simp [← hr.2, Operator.not_isUnary_of_leftAssociative hl] at hu
    | binary q op hl' l' r' =>
      simp only [root, Term.operator.injEq] at hr
      obtain ⟨rfl, rfl⟩ := hr
      simp only [branches, ← List.append_assoc] at hb
      obtain ⟨hl, rfl⟩ := append_postorder_inj r r' _ _ hb
      obtain ⟨rfl, rfl⟩ := append_postorder_inj l l' _ _ hl
      exact ⟨rfl, rfl⟩
    | assignment =>
      simp only [root, Term.operator.injEq] at hr
      simp [hr.2, Operator.leftAssociative, Operator.precedence] at hl
    | _ => simp [root] at hr
  | assignment _ l r, u =>
    cases u with
    | unary q op hu =>
      simp only [root, Term.operator.injEq] at hr
      simp [← hr.2, Operator.isUnary, Operator.precedence] at hu
    | binary q op hl =>
      simp only [root, Term.operator.injEq] at hr
      simp [← hr.2, Operator.leftAssociative, Operator.precedence] at hl
    | assignment q l' r' =>
      simp only [root, Term.operator.injEq] at hr
      obtain ⟨rfl, -⟩ := hr
      simp only [branches, ← List.append_assoc] at hb
      obtain ⟨hl, rfl⟩ := append_postorder_inj r r' _ _ hb
      obtain ⟨rfl, rfl⟩ := append_postorder_inj l l' _ _ hl
      exact ⟨rfl, rfl⟩
    | _ => simp [root] at hr

theorem expressions_inj {as bs : List (String × Tree)} (h : expressions as = expressions bs) :
    as = bs := by
  match as, bs with
  | [], [] => rfl
  | [], _ :: _ => simp [expressions] at h
  | _ :: _, [] => simp [expressions] at h
  | (c, t) :: as, (d, u) :: bs =>
    simp only [expressions, List.cons.injEq, Phrase.mk.injEq] at h
    obtain ⟨⟨rfl, ht⟩, hr⟩ := h
    obtain ⟨-, rfl⟩ := append_postorder_inj t u [] [] ht
    rw [expressions_inj hr]

end

theorem postorder_injective : Function.Injective postorder := fun t u h =>
  (append_postorder_inj t u [] [] h).2

end Tree

end Abacus
