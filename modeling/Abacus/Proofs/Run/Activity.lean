import Abacus.Proofs.Run.Induction
import Abacus.Proofs.Run.Sessions
import Mathlib.Logic.Relation

/-!
The activities of the interpreter.

An activity is a function of the interpreter at work: a task, the depth of active calls and the
state it starts from. While it runs it begins further activities, each in the state that the ones
before it have left. The activities that can be reached from a first one are all the moments at
which the interpreter takes up something, from there to the end of the run.
-/
namespace Abacus.Run

/-- What the interpreter can be asked to do. -/
inductive Task where
  | terms (context : String) (ts : List Term) (stack : List Operand)
  | evaluate (e : Expression)
  | evaluateStatement (e : Expression)
  | evaluateAll (es : List Expression)
  | call (context : String) (position : Int) (name text : String) (arguments : List Expression)
  | statement (s : Statement)
  | statements (last : Option Decimal) (ss : List Statement)
  | block (body : List Statement)
  | loop (text : String) (condition : Expression) (body : List Statement) (remaining : Nat)
      (last : Option Decimal)

namespace Task

/-- What a task results in if it does not fail. -/
def Result : Task → Type
  | terms _ _ _ => List Operand
  | evaluate _ => Decimal
  | evaluateStatement _ => Option Decimal
  | evaluateAll _ => List Decimal
  | call _ _ _ _ _ => Option Decimal
  | statement _ => Signal
  | statements _ _ => Ending
  | block _ => Signal
  | loop _ _ _ _ _ => Signal

/-- Carries out a task at the given depth of active calls. -/
def run (rules : Rules) (depth : Nat) : (t : Task) → Run t.Result
  | terms context ts stack => Run.terms rules depth context ts stack
  | evaluate e => Run.evaluate rules depth e
  | evaluateStatement e => Run.evaluateStatement rules depth e
  | evaluateAll es => Run.evaluateAll rules depth es
  | call context p n text arguments => Run.call rules depth context p n text arguments
  | statement s => Run.statement rules depth s
  | statements last ss => Run.statements rules depth last ss
  | block body => Run.block rules depth body
  | loop text condition body remaining last =>
    Run.loop rules depth text condition body remaining last

end Task

theorem Compositional.task {rules : Rules} {holds : ∀ {α : Type}, Nat → Run α → Prop}
    (C : Compositional rules holds) (depth : Nat) (t : Task) : holds depth (t.run rules depth) := by
  cases t with
  | terms context ts stack => exact C.terms depth context ts stack
  | evaluate e => exact C.evaluate depth e
  | evaluateStatement e => exact C.evaluateStatement depth e
  | evaluateAll es => exact C.evaluateAll depth es
  | call context p n text arguments => exact C.call depth context p n text arguments
  | statement s => exact C.statement depth s
  | statements last ss => exact C.statements depth last ss
  | block body => exact C.block depth body
  | loop text condition body remaining last =>
    exact C.loop depth text condition body remaining last

structure Activity where
  depth : Nat
  task : Task
  /-- The state at the start. -/
  state : State

namespace Activity

/-- The state at the end. -/
def final (rules : Rules) (a : Activity) : State := Run.final (a.task.run rules a.depth) a.state

/-- The state in which a function's body starts, `text` being the text of the call. -/
def entered (depth : Nat) (text : String) (frame : Table Decimal) (s : State) : State :=
  { s with store := s.store.push frame, events := .calling text (depth + 1) :: s.events }

/-- The first activity begins the second one itself. -/
inductive Begins (rules : Rules) : Activity → Activity → Prop
  | afterNumber (d : Nat) (c : String) (p : Int) (x : Decimal) (rest : List Term)
      (stack : List Operand) (s : State) :
      Begins rules ⟨d, .terms c (.number p x :: rest) stack, s⟩
        ⟨d, .terms c rest (.value x :: stack), s⟩
  | afterName (d : Nat) (c : String) (p : Int) (n : String) (rest : List Term)
      (stack : List Operand) (s : State) :
      Begins rules ⟨d, .terms c (.name p n :: rest) stack, s⟩
        ⟨d, .terms c rest (.reference n p :: stack), s⟩
  | callee (d : Nat) (c : String) (p : Int) (n text : String) (es : List Expression)
      (rest : List Term) (stack : List Operand) (s : State) :
      Begins rules ⟨d, .terms c (.call p n text es :: rest) stack, s⟩ ⟨d, .call c p n text es, s⟩
  | afterCall (d : Nat) (c : String) (p : Int) (n text : String) (es : List Expression)
      (rest : List Term) (stack : List Operand) {s s' : State} {x : Decimal}
      (h : Run.call rules d c p n text es s = .ok (some x) s') :
      Begins rules ⟨d, .terms c (.call p n text es :: rest) stack, s⟩
        ⟨d, .terms c rest (.value x :: stack), s'⟩
  | afterOperator (d : Nat) (c : String) (p : Int) (op : Operator) (rest : List Term)
      {stack stack' : List Operand} {s s' : State} (h : apply c p op stack s = .ok stack' s') :
      Begins rules ⟨d, .terms c (.operator p op :: rest) stack, s⟩ ⟨d, .terms c rest stack', s'⟩
  | expressionTerms (d : Nat) (e : Expression) (s : State) :
      Begins rules ⟨d, .evaluate e, s⟩ ⟨d, .terms e.context e.terms [], s⟩
  | singleCall (d : Nat) (c : String) (p : Int) (n text : String) (es : List Expression)
      (s : State) :
      Begins rules ⟨d, .evaluateStatement ⟨c, [.call p n text es]⟩, s⟩ ⟨d, .call c p n text es, s⟩
  | statementValue (d : Nat) {e : Expression} (s : State)
      (h : ∀ c p n text es, e ≠ ⟨c, [.call p n text es]⟩) :
      Begins rules ⟨d, .evaluateStatement e, s⟩ ⟨d, .evaluate e, s⟩
  | firstValue (d : Nat) (e : Expression) (rest : List Expression) (s : State) :
      Begins rules ⟨d, .evaluateAll (e :: rest), s⟩ ⟨d, .evaluate e, s⟩
  | otherValues (d : Nat) (e : Expression) (rest : List Expression) {s s' : State} {x : Decimal}
      (h : Run.evaluate rules d e s = .ok x s') :
      Begins rules ⟨d, .evaluateAll (e :: rest), s⟩ ⟨d, .evaluateAll rest, s'⟩
  | arguments (d : Nat) (c : String) (p : Int) {n : String} (text : String)
      {es : List Expression} {f : Function} (s : State) (hf : rules.functions.find? n = some f)
      (harity : f.arity = es.length) :
      Begins rules ⟨d, .call c p n text es, s⟩ ⟨d, .evaluateAll es, s⟩
  | body {d : Nat} (c : String) (p : Int) {n : String} (text : String) {es : List Expression}
      {f : Function} {s s' : State} {xs : List Decimal} (hf : rules.functions.find? n = some f)
      (harity : f.arity = es.length) (h : Run.evaluateAll rules d es s = .ok xs s')
      (hlimit : d < rules.settings.callLimit) :
      Begins rules ⟨d, .call c p n text es, s⟩
        ⟨d + 1, .statements none f.body,
          entered d text (Table.ofEntries (f.parameters.zip xs)) s'⟩
  | expression (d : Nat) (e : Expression) (s : State) :
      Begins rules ⟨d, .statement (.expression e), s⟩ ⟨d, .evaluateStatement e, s⟩
  | branchCondition (d : Nat) (e : Expression) (body : List Statement)
      (otherwise : Option (List Statement)) (s : State) :
      Begins rules ⟨d, .statement (.branch e body otherwise), s⟩ ⟨d, .evaluate e, s⟩
  | branchBody (d : Nat) (e : Expression) (body : List Statement)
      (otherwise : Option (List Statement)) {s s' : State} {x : Decimal}
      (h : Run.evaluate rules d e s = .ok x s') (hx : Numeric.isTrue x = true) :
      Begins rules ⟨d, .statement (.branch e body otherwise), s⟩ ⟨d, .block body, s'⟩
  | branchOther (d : Nat) (e : Expression) (body other : List Statement) {s s' : State}
      {x : Decimal} (h : Run.evaluate rules d e s = .ok x s') (hx : Numeric.isTrue x = false) :
      Begins rules ⟨d, .statement (.branch e body (some other)), s⟩ ⟨d, .block other, s'⟩
  | firstRound (d : Nat) (text : String) (e : Expression) (body : List Statement) (s : State) :
      Begins rules ⟨d, .statement (.loop text e body), s⟩
        ⟨d, .loop text e body rules.settings.loopLimit none, s⟩
  | returned (d : Nat) (e : Expression) (s : State) :
      Begins rules ⟨d, .statement (.returning e), s⟩ ⟨d, .evaluate e, s⟩
  | printed (d : Nat) (e : Expression) (s : State) :
      Begins rules ⟨d, .statement (.printing e), s⟩ ⟨d, .evaluate e, s⟩
  | firstStatement (d : Nat) (last : Option Decimal) (t : Statement) (rest : List Statement)
      (s : State) : Begins rules ⟨d, .statements last (t :: rest), s⟩ ⟨d, .statement t, s⟩
  | afterValue (d : Nat) (last : Option Decimal) (t : Statement) (rest : List Statement)
      {s s' : State} {x : Decimal} (h : Run.statement rules d t s = .ok (.value x) s') :
      Begins rules ⟨d, .statements last (t :: rest), s⟩ ⟨d, .statements (some x) rest, s'⟩
  | afterNothing (d : Nat) (last : Option Decimal) (t : Statement) (rest : List Statement)
      {s s' : State} (h : Run.statement rules d t s = .ok .nothing s') :
      Begins rules ⟨d, .statements last (t :: rest), s⟩ ⟨d, .statements last rest, s'⟩
  | blockStatements (d : Nat) (body : List Statement) (s : State) :
      Begins rules ⟨d, .block body, s⟩ ⟨d, .statements none body, s⟩
  | loopCondition (d : Nat) (text : String) (e : Expression) (body : List Statement)
      (remaining : Nat) (last : Option Decimal) (s : State) :
      Begins rules ⟨d, .loop text e body remaining last, s⟩ ⟨d, .evaluate e, s⟩
  | round (d : Nat) (text : String) (e : Expression) (body : List Statement) (remaining : Nat)
      (last : Option Decimal) {s s' : State} {x : Decimal}
      (h : Run.evaluate rules d e s = .ok x s') (hx : Numeric.isTrue x = true) :
      Begins rules ⟨d, .loop text e body (remaining + 1) last, s⟩ ⟨d, .statements last body, s'⟩
  | nextRound (d : Nat) (text : String) (e : Expression) (body : List Statement)
      (remaining : Nat) (last : Option Decimal) {last' : Option Decimal} {s s' s'' : State}
      {x : Decimal} (h : Run.evaluate rules d e s = .ok x s') (hx : Numeric.isTrue x = true)
      (hbody : Run.statements rules d last body s' = .ok (.finished last') s'') :
      Begins rules ⟨d, .loop text e body (remaining + 1) last, s⟩
        ⟨d, .loop text e body remaining last', s''⟩

/-- The first activity begins the second one, itself or through others in between. -/
def Leads (rules : Rules) : Activity → Activity → Prop := Relation.ReflTransGen (Begins rules)

end Activity

end Abacus.Run
