import Abacus.Run.Evaluate

/-!
What holds of every computation of the interpreter.

The interpreter is put together from a few steps: it reads the state, assigns to a name, records an
event, prints a text, stops with a failure, or runs a function's body in a frame of its own, one
call deeper. A property of computations that these steps have, and that sequences inherit, is a
property of every evaluation and execution.
-/
namespace Abacus.Run

/-- The properties, for each depth of active calls, that the steps of the interpreter have. -/
structure Compositional (rules : Rules) (holds : ∀ {α : Type}, Nat → Run α → Prop) : Prop where
  pure : ∀ {α : Type} (depth : Nat) (a : α), holds depth (pure a)
  bind : ∀ {α β : Type} {depth : Nat} {m : Run α} {f : α → Run β}, holds depth m →
    (∀ a, holds depth (f a)) → holds depth (m >>= f)
  throw : ∀ {α : Type} (depth : Nat) (e : Failure), holds depth (throw e : Run α)
  get : ∀ depth : Nat, holds depth (get : Run State)
  assign : ∀ (depth : Nat) (name : String) (x : Decimal),
    holds depth (modify fun s => { s with store := s.store.set name x } : Run PUnit)
  record : ∀ (depth : Nat) (e : Event), holds depth (record e)
  print : ∀ (depth : Nat) (text : String), holds depth (print text)
  inFrame : ∀ {α : Type} {depth : Nat} (frame : Table Decimal) {m : Run α},
    depth < rules.settings.callLimit → holds (depth + 1) m → holds depth (inFrame frame m)

namespace Compositional

variable {rules : Rules} {holds : ∀ {α : Type}, Nat → Run α → Prop}

section Steps

variable (C : Compositional rules holds)
include C

theorem fail {α : Type} (depth : Nat) (context : String) (p : Int) (kind : ErrorKind) :
    holds depth (Run.fail context p kind : Run α) := C.throw depth _

theorem resolve (depth : Nat) (context : String) (a : Operand) :
    holds depth (Run.resolve context a) := by
  cases a with
  | value x => exact C.pure depth x
  | reference name p =>
    refine C.bind (C.get depth) fun s => ?_
    split
    · exact C.pure depth _
    · exact C.fail depth context p _

theorem pop (depth : Nat) (stack : List Operand) : holds depth (Run.pop stack) := by
  cases stack with
  | nil => exact C.throw depth _
  | cons a stack => exact C.pure depth _

theorem arithmetic (depth : Nat) (context : String) (p : Int) (r : Numeric.Checked) :
    holds depth (Run.arithmetic context p r) := by
  cases r with
  | ok x => exact C.pure depth x
  | error kind => exact C.fail depth context p kind

theorem assignTo (depth : Nat) (context : String) (p : Int) (x : Decimal) (a : Operand) :
    holds depth (Run.assign context p x a) := by
  cases a with
  | value _ => exact C.fail depth context p _
  | reference name q => exact C.bind (C.assign depth name x) fun _ => C.pure depth _

theorem apply (depth : Nat) (context : String) (p : Int) (op : Operator) (stack : List Operand) :
    holds depth (Run.apply context p op stack) := by
  unfold Run.apply
  split
  · refine C.bind (C.pop depth stack) fun (right, stack) => ?_
    refine C.bind (C.resolve depth context right) fun x => ?_
    refine C.bind (C.pop depth stack) fun (left, stack) => ?_
    exact C.bind (C.assignTo depth context p x left) fun target => C.pure depth _
  · refine C.bind (C.pop depth stack) fun (operand, stack) => ?_
    refine C.bind (C.resolve depth context operand) fun x => ?_
    exact C.bind (C.arithmetic depth context p _) fun result => C.pure depth _
  · refine C.bind (C.pop depth stack) fun (right, stack) => ?_
    refine C.bind (C.resolve depth context right) fun y => ?_
    refine C.bind (C.pop depth stack) fun (left, stack) => ?_
    refine C.bind (C.resolve depth context left) fun x => ?_
    exact C.bind (C.arithmetic depth context p _) fun result => C.pure depth _

theorem conclude (depth : Nat) (context : String) (stack : List Operand) :
    holds depth (Run.conclude context stack) := by
  unfold Run.conclude
  split
  · exact C.resolve depth context _
  · exact C.throw depth _

theorem display (depth : Nat) (settings : Settings) (x : Decimal) :
    holds depth (Run.display settings x) := by
  unfold Run.display
  split
  · exact C.pure depth _
  · exact C.throw depth _

end Steps

mutual

theorem terms (C : Compositional rules holds) (depth : Nat) (context : String) (ts : List Term)
    (stack : List Operand) : holds depth (Run.terms rules depth context ts stack) := by
  match ts with
  | [] =>
    rw [Run.terms]
    exact C.pure depth _
  | .number p x :: rest =>
    rw [Run.terms]
    exact terms C depth context rest _
  | .name p n :: rest =>
    rw [Run.terms]
    exact terms C depth context rest _
  | .call p n text arguments :: rest =>
    rw [Run.terms]
    refine C.bind (call C depth context p n text arguments) fun result => ?_
    split
    · exact terms C depth context rest _
    · exact C.fail depth context p _
  | .operator p op :: rest =>
    rw [Run.terms]
    exact C.bind (C.apply depth context p op stack) fun stack => terms C depth context rest stack
  | .parenthesis p side :: rest =>
    rw [Run.terms]
    exact C.throw depth _
termination_by (rules.settings.callLimit - depth, sizeOf ts, 0)

theorem evaluate (C : Compositional rules holds) (depth : Nat) (e : Expression) :
    holds depth (Run.evaluate rules depth e) := by
  match e with
  | ⟨context, ts⟩ =>
    rw [Run.evaluate]
    exact C.bind (terms C depth context ts []) fun stack => C.conclude depth context stack
termination_by (rules.settings.callLimit - depth, sizeOf e, 0)

theorem evaluateStatement (C : Compositional rules holds) (depth : Nat) (e : Expression) :
    holds depth (Run.evaluateStatement rules depth e) := by
  rw [Run.evaluateStatement.eq_def]
  split
  · exact call C depth _ _ _ _ _
  · exact C.bind (evaluate C depth e) fun x => C.pure depth _
termination_by (rules.settings.callLimit - depth, sizeOf e, 1)

theorem evaluateAll (C : Compositional rules holds) (depth : Nat) (es : List Expression) :
    holds depth (Run.evaluateAll rules depth es) := by
  match es with
  | [] =>
    rw [Run.evaluateAll]
    exact C.pure depth _
  | e :: rest =>
    rw [Run.evaluateAll]
    refine C.bind (evaluate C depth e) fun x => ?_
    exact C.bind (evaluateAll C depth rest) fun xs => C.pure depth _
termination_by (rules.settings.callLimit - depth, sizeOf es, 0)

theorem call (C : Compositional rules holds) (depth : Nat) (context : String) (p : Int)
    (n text : String) (arguments : List Expression) :
    holds depth (Run.call rules depth context p n text arguments) := by
  rw [Run.call]
  split
  · exact C.fail depth context p _
  · next f hf =>
    split
    · exact C.fail depth context p _
    · refine C.bind (evaluateAll C depth arguments) fun xs => ?_
      split
      · next hdepth =>
        refine C.inFrame _ hdepth (C.bind (C.record (depth + 1) _) fun _ => ?_)
        refine C.bind (statements C (depth + 1) none f.body) fun ending => ?_
        cases ending with
        | finished last => exact C.pure _ _
        | broke last => exact C.pure _ _
        | returned x => exact C.pure _ _
      · exact C.bind (C.record depth _) fun _ => C.throw depth _
termination_by (rules.settings.callLimit - depth, sizeOf arguments, 1)

theorem statement (C : Compositional rules holds) (depth : Nat) (s : Statement) :
    holds depth (Run.statement rules depth s) := by
  match s with
  | .expression e =>
    rw [Run.statement]
    exact C.bind (evaluateStatement C depth e) fun x => C.pure depth _
  | .branch condition body none =>
    rw [Run.statement]
    refine C.bind (evaluate C depth condition) fun x => ?_
    split
    · exact block C depth body
    · exact C.pure depth _
  | .branch condition body (some other) =>
    rw [Run.statement]
    refine C.bind (evaluate C depth condition) fun x => ?_
    split
    · exact block C depth body
    · exact block C depth other
  | .loop text condition body =>
    rw [Run.statement]
    exact loop C depth text condition body _ none
  | .returning e =>
    rw [Run.statement]
    exact C.bind (evaluate C depth e) fun x => C.pure depth _
  | .printing e =>
    rw [Run.statement]
    refine C.bind (evaluate C depth e) fun x => ?_
    refine C.bind (C.display depth rules.settings x) fun text => ?_
    exact C.bind (C.print depth _) fun _ => C.pure depth _
  | .breaking =>
    rw [Run.statement]
    exact C.pure depth _
termination_by (rules.settings.callLimit - depth, sizeOf s, 0)

theorem statements (C : Compositional rules holds) (depth : Nat) (last : Option Decimal)
    (ss : List Statement) : holds depth (Run.statements rules depth last ss) := by
  match ss with
  | [] =>
    rw [Run.statements]
    exact C.pure depth _
  | s :: rest =>
    rw [Run.statements]
    refine C.bind (statement C depth s) fun signal => ?_
    cases signal with
    | value x => exact statements C depth (some x) rest
    | nothing => exact statements C depth last rest
    | returned x => exact C.pure depth _
    | broke => exact C.pure depth _
termination_by (rules.settings.callLimit - depth, sizeOf ss, 0)

theorem block (C : Compositional rules holds) (depth : Nat) (body : List Statement) :
    holds depth (Run.block rules depth body) := by
  rw [Run.block]
  refine C.bind (statements C depth none body) fun ending => ?_
  cases ending with
  | finished last => exact C.pure depth _
  | returned x => exact C.pure depth _
  | broke last => exact C.pure depth _
termination_by (rules.settings.callLimit - depth, sizeOf body, 1)

theorem loop (C : Compositional rules holds) (depth : Nat) (text : String) (condition : Expression)
    (body : List Statement) (remaining : Nat) (last : Option Decimal) :
    holds depth (Run.loop rules depth text condition body remaining last) := by
  have := sizeOf_statements_pos body
  have := sizeOf_expression_pos condition
  match remaining with
  | 0 =>
    rw [Run.loop]
    refine C.bind (evaluate C depth condition) fun x => ?_
    split
    · exact C.bind (C.record depth _) fun _ => C.throw depth _
    · exact C.pure depth _
  | remaining + 1 =>
    rw [Run.loop]
    refine C.bind (evaluate C depth condition) fun x => ?_
    split
    · refine C.bind (statements C depth last body) fun ending => ?_
      cases ending with
      | finished last => exact loop C depth text condition body remaining last
      | returned x => exact C.pure depth _
      | broke last => exact C.pure depth _
    · exact C.pure depth _
termination_by (rules.settings.callLimit - depth, sizeOf condition + sizeOf body, remaining)

end

end Compositional

end Abacus.Run
