import Abacus.Proofs.Script.Tree
import Abacus.Run.Evaluate

/-!
Evaluation of trees.

A tree is evaluated by recursion: its operands from left to right, each to a value or to a name that
is still unresolved, and then the operator at its root. No stack is needed. What a call does after
its arguments have been evaluated is left open here. Evaluating the postorder of a tree on a stack
comes to the same, effects and failures included, if calls run the bodies of the functions.
-/
namespace Abacus

namespace Operator

theorem meaning_ne_binary {op : Operator} (h : op.isUnary = true)
    (compute : Decimal → Decimal → Numeric.Checked) : op.meaning ≠ .binary compute := by
  cases op <;> simp_all [meaning, isUnary, precedence]

theorem meaning_ne_unary {op : Operator} (h : op.leftAssociative = true)
    (compute : Decimal → Numeric.Checked) : op.meaning ≠ .unary compute := by
  cases op <;> simp_all [meaning, leftAssociative, precedence]

theorem meaning_ne_assignment {op : Operator} (h : op ≠ .assign) : op.meaning ≠ .assignment := by
  cases op <;> simp_all [meaning]

theorem ne_assign_of_isUnary {op : Operator} (h : op.isUnary = true) : op ≠ .assign := by
  rintro rfl
  simp [isUnary, precedence] at h

theorem ne_assign_of_leftAssociative {op : Operator} (h : op.leftAssociative = true) :
    op ≠ .assign := by
  rintro rfl
  simp [leftAssociative, precedence] at h

/-- What an operator of one operand computes. -/
def unaryValue (op : Operator) (h : op.isUnary = true) : Decimal → Numeric.Checked :=
  match hm : op.meaning with
  | .unary compute => compute
  | .binary compute => absurd hm (meaning_ne_binary h compute)
  | .assignment => absurd hm (meaning_ne_assignment (ne_assign_of_isUnary h))

/-- What an operator of two operands computes; assignment is none of these. -/
def binaryValue (op : Operator) (h : op.leftAssociative = true) :
    Decimal → Decimal → Numeric.Checked :=
  match hm : op.meaning with
  | .binary compute => compute
  | .unary compute => absurd hm (meaning_ne_unary h compute)
  | .assignment => absurd hm (meaning_ne_assignment (ne_assign_of_leftAssociative h))

theorem meaning_eq_unary {op : Operator} (h : op.isUnary = true) :
    op.meaning = .unary (op.unaryValue h) := by
  unfold unaryValue
  split
  · next hm => exact hm
  · next hm => exact absurd hm (meaning_ne_binary h _)
  · next hm => exact absurd hm (meaning_ne_assignment (ne_assign_of_isUnary h))

theorem meaning_eq_binary {op : Operator} (h : op.leftAssociative = true) :
    op.meaning = .binary (op.binaryValue h) := by
  unfold binaryValue
  split
  · next hm => exact hm
  · next hm => exact absurd hm (meaning_ne_unary h _)
  · next hm => exact absurd hm (meaning_ne_assignment (ne_assign_of_leftAssociative h))

end Operator

/-- What a function does, given the text of a call and the values of its arguments. -/
structure Callee where
  arity : Nat
  run : String → List Decimal → Run (Option Decimal)

/-- Runs a body one call deeper, with the parameters as its only variables, unless that is too
deep. -/
def Callee.entering (limit depth : Nat) (parameters : List String)
    (body : depth < limit → Run Ending) : Callee where
  arity := parameters.length
  run text xs :=
    if h : depth < limit then
      Run.inFrame (Table.ofEntries (parameters.zip xs)) do
        Run.record (.calling text (depth + 1))
        match ← body h with
        | .finished last => pure last
        | .broke last => pure last
        | .returned x => pure (some x)
    else do
      Run.record (.callLimit limit)
      throw .limit

/-- The functions of a session, as they are called at the given depth. -/
def Rules.callee? (rules : Rules) (depth : Nat) (name : String) : Option Callee :=
  (rules.functions.find? name).map fun f =>
    .entering rules.settings.callLimit depth f.parameters fun _ =>
      Run.statements rules (depth + 1) none f.body

namespace Tree

open Run (resolve arithmetic fail)

section Evaluation

variable (callee? : String → Option Callee)

/-- Calls a function with `count` arguments that `values` evaluates. They are evaluated only if
there is such a function. -/
def invoke (context : String) (position : Int) (name text : String) (count : Nat)
    (values : Run (List Decimal)) : Run (Option Decimal) :=
  match callee? name with
  | none => fail context position .unknownName
  | some f =>
    if f.arity ≠ count then fail context position .argumentCount
    else do
      let xs ← values
      f.run text xs

mutual

/-- Evaluates a tree up to the resolution of a name that it consists of or assigns to. -/
def operand (context : String) : Tree → Run Operand
  | number _ x => pure (.value x)
  | name p n => pure (.reference n p)
  | call p n text arguments => do
    let result ← invoke callee? context p n text arguments.length (values arguments)
    match result with
    | some x => pure (.value x)
    | none => fail context p .missingValue
  | unary p op h t => do
    let a ← operand context t
    let x ← resolve context a
    return .value (← arithmetic context p (op.unaryValue h x))
  | binary p op h l r => do
    let a ← operand context l
    let b ← operand context r
    -- both sides have run; only now are their names looked up, the right one first
    let y ← resolve context b
    let x ← resolve context a
    return .value (← arithmetic context p (op.binaryValue h x y))
  | assignment p l r => do
    let a ← operand context l
    let b ← operand context r
    let x ← resolve context b
    match a with
    | .reference n q => do
      modify fun s => { s with store := s.store.set n x }
      return .reference n q
    | .value _ => fail context p .invalidAssignment

/-- Evaluates the arguments of a call from left to right. -/
def values : List (String × Tree) → Run (List Decimal)
  | [] => pure []
  | (context, t) :: rest => do
    let a ← operand context t
    let x ← resolve context a
    let xs ← values rest
    return x :: xs

end

/-- The value of a tree over its text. -/
def evaluate (context : String) (t : Tree) : Run Decimal := do
  let a ← t.operand callee? context
  resolve context a

/-- The value of a tree that stands as a statement: a call need not have one. -/
def evaluateStatement (context : String) : Tree → Run (Option Decimal)
  | call p n text arguments =>
    invoke callee? context p n text arguments.length (values callee? arguments)
  | t => do return some (← t.evaluate callee? context)

end Evaluation

/-! ### On a stack -/

theorem call_eq_invoke (rules : Rules) (depth : Nat) (context : String) (p : Int) (n text : String)
    (es : List Expression) :
    Run.call rules depth context p n text es
      = invoke (rules.callee? depth) context p n text es.length
          (Run.evaluateAll rules depth es) := by
  rw [Run.call, invoke, Rules.callee?]
  cases rules.functions.find? n with
  | none => rfl
  | some f => rfl

theorem fail_bind {α β : Type} (context : String) (p : Int) (kind : ErrorKind) (f : α → Run β) :
    (fail context p kind >>= f) = fail context p kind := rfl

/-- A stack that holds one operand stands for its value. -/
theorem evaluate_of_terms {rules : Rules} {depth : Nat} {context : String} {t : Tree}
    (h : Run.terms rules depth context (t.postorder ++ []) [] = (do
      let a ← t.operand (rules.callee? depth) context
      Run.terms rules depth context [] [a])) :
    Run.evaluate rules depth ⟨context, t.postorder⟩ = t.evaluate (rules.callee? depth) context := by
  rw [List.append_nil] at h
  rw [Run.evaluate, h, evaluate]
  simp only [Run.terms, Run.conclude, bind_assoc, pure_bind]

mutual

/-- The terms of a tree put one operand on the stack and leave the rest of it alone. -/
theorem terms_postorder (rules : Rules) (depth : Nat) (context : String) (rest : List Term)
    (stack : List Operand) (t : Tree) :
    Run.terms rules depth context (t.postorder ++ rest) stack = (do
      let a ← t.operand (rules.callee? depth) context
      Run.terms rules depth context rest (a :: stack)) := by
  match t with
  | number p x =>
    rw [postorder, operand, pure_bind, List.singleton_append, Run.terms]
  | name p n =>
    rw [postorder, operand, pure_bind, List.singleton_append, Run.terms]
  | call p n text arguments =>
    rw [postorder, operand, List.singleton_append, Run.terms, call_eq_invoke,
      evaluateAll_expressions, length_expressions, bind_assoc]
    refine bind_congr fun result => ?_
    cases result with
    | none => rw [fail_bind]
    | some x => rw [pure_bind]
  | unary p op h t =>
    rw [postorder, operand, List.append_assoc, terms_postorder, bind_assoc]
    refine bind_congr fun a => ?_
    rw [List.singleton_append, Run.terms, Run.apply, Operator.meaning_eq_unary h]
    simp [Run.pop]
  | binary p op h l r =>
    rw [postorder, operand, List.append_assoc, List.append_assoc, terms_postorder, bind_assoc]
    refine bind_congr fun a => ?_
    rw [terms_postorder, bind_assoc]
    refine bind_congr fun b => ?_
    rw [List.singleton_append, Run.terms, Run.apply, Operator.meaning_eq_binary h]
    simp [Run.pop]
  | assignment p l r =>
    rw [postorder, operand, List.append_assoc, List.append_assoc, terms_postorder, bind_assoc]
    refine bind_congr fun a => ?_
    rw [terms_postorder, bind_assoc]
    refine bind_congr fun b => ?_
    have hassign : Operator.meaning .assign = .assignment := rfl
    rw [List.singleton_append, Run.terms, Run.apply, hassign]
    simp only [Run.pop, pure_bind, bind_assoc]
    refine bind_congr fun x => ?_
    cases a with
    | value _ => simp only [Run.assign, fail_bind]
    | reference n q => simp only [Run.assign, bind_assoc, pure_bind]

theorem evaluateAll_expressions (rules : Rules) (depth : Nat) (arguments : List (String × Tree)) :
    Run.evaluateAll rules depth (expressions arguments)
      = values (rules.callee? depth) arguments := by
  match arguments with
  | [] => rw [expressions, Run.evaluateAll, values]
  | (context, t) :: rest =>
    have hfirst := evaluate_of_terms (terms_postorder rules depth context [] [] t)
    rw [expressions, Run.evaluateAll, values, hfirst, evaluateAll_expressions rules depth rest,
      evaluate, bind_assoc]

end

theorem evaluate_postorder (rules : Rules) (depth : Nat) (context : String) (t : Tree) :
    Run.evaluate rules depth ⟨context, t.postorder⟩ = t.evaluate (rules.callee? depth) context :=
  evaluate_of_terms (terms_postorder rules depth context [] [] t)

/-- Only a call lists a single call. -/
theorem root_of_postorder_eq {t : Tree} {x : Term} (h : t.postorder = [x]) : t.root = x := by
  rw [postorder_eq] at h
  have hbranches : t.branches = [] := by
    simpa using congrArg List.length h
  simpa [hbranches] using h

theorem evaluateStatement_postorder (rules : Rules) (depth : Nat) (context : String) (t : Tree) :
    Run.evaluateStatement rules depth ⟨context, t.postorder⟩
      = t.evaluateStatement (rules.callee? depth) context := by
  cases t with
  | call p n text arguments =>
    rw [postorder, Run.evaluateStatement, call_eq_invoke, evaluateAll_expressions,
      length_expressions, evaluateStatement]
  | _ =>
    rw [Run.evaluateStatement, evaluate_postorder, evaluateStatement]
    · intros
      contradiction
    · intro context' p n text arguments he
      cases root_of_postorder_eq (congrArg Phrase.terms he)

end Tree

end Abacus
