import Abacus.Decimal.Display
import Abacus.Run.Meaning
import Abacus.Run.Store
import Abacus.Script.Program
import Abacus.Settings.Basic

/-!
Evaluation of expressions and execution of statements.

Expressions run on a stack of operands. A name is put there unresolved, so that an assignment can
receive it, and is looked up when an operator takes it off again. Calls nest at most as deep as the
call limit allows and a run of a loop takes at most as many rounds as the loop limit allows; this is
also why the functions below terminate.
-/
namespace Abacus

inductive Operand where
  | value (x : Decimal)
  | reference (name : String) (position : Int)

/-- What executing a statement results in. -/
inductive Signal where
  | value (x : Decimal)
  | returned (x : Decimal)
  | broke
  | nothing

def Signal.ofLast : Option Decimal → Signal
  | some x => .value x
  | none => .nothing

/-- How a list of statements ends, with the last value it produced. -/
inductive Ending where
  | finished (last : Option Decimal)
  | returned (x : Decimal)
  | broke (last : Option Decimal)

/-- What stays the same during an evaluation. -/
structure Rules where
  settings : Settings
  functions : Table Function

namespace Run

/-- The value of an operand of the expression with the given text. -/
def resolve (context : String) : Operand → Run Decimal
  | .value x => pure x
  | .reference name position => do
    match (← get).store.get? name with
    | some x => pure x
    | none => fail context position .unknownName

def pop : List Operand → Run (Operand × List Operand)
  | [] => throw (.defect .missingOperand)
  | x :: stack => pure (x, stack)

/-- Reports an arithmetic error at the operator. -/
def arithmetic (context : String) (position : Int) : Numeric.Checked → Run Decimal
  | .ok x => pure x
  | .error kind => fail context position kind

/-- Assigns to the name that an operand refers to. -/
def assign (context : String) (position : Int) (x : Decimal) : Operand → Run Operand
  | .reference name p => do
    modify fun s => { s with store := s.store.set name x }
    pure (.reference name p)
  | .value _ => fail context position .invalidAssignment

/-- Applies an operator to the operands on the stack. The right operand is resolved first; an
assignment leaves the name it assigned to. -/
def apply (context : String) (position : Int) (op : Operator) (stack : List Operand) :
    Run (List Operand) :=
  match op.meaning with
  | .assignment => do
    let (right, stack) ← pop stack
    let x ← resolve context right
    let (left, stack) ← pop stack
    let target ← assign context position x left
    pure (target :: stack)
  | .unary compute => do
    let (operand, stack) ← pop stack
    let x ← resolve context operand
    let result ← arithmetic context position (compute x)
    pure (.value result :: stack)
  | .binary compute => do
    let (right, stack) ← pop stack
    let y ← resolve context right
    let (left, stack) ← pop stack
    let x ← resolve context left
    let result ← arithmetic context position (compute x y)
    pure (.value result :: stack)

/-- The value that a finished stack stands for. -/
def conclude (context : String) : List Operand → Run Decimal
  | [x] => resolve context x
  | _ => throw (.defect (.malformedExpression context))

/-- The text that a value is shown by. -/
def display (settings : Settings) (x : Decimal) : Run String :=
  match x.display? settings.displayPlaces with
  | some text => pure text
  | none => throw (.defect .tooManyDigits)

theorem sizeOf_statements_pos (body : List Statement) : 0 < sizeOf body := by
  cases body with
  | nil => decide
  | cons s rest => simp only [List.cons.sizeOf_spec]; omega

theorem sizeOf_expression_pos (e : Expression) : 0 < sizeOf e := by
  cases e with
  | mk context ts => simp only [Phrase.mk.sizeOf_spec]; omega

mutual

/-- Runs the terms of an expression, at the given depth of active calls. -/
def terms (rules : Rules) (depth : Nat) (context : String) :
    List Term → List Operand → Run (List Operand)
  | [], stack => pure stack
  | .number _ x :: rest, stack => terms rules depth context rest (.value x :: stack)
  | .name p n :: rest, stack => terms rules depth context rest (.reference n p :: stack)
  | .call p name text arguments :: rest, stack => do
    match ← call rules depth context p name text arguments with
    | some x => terms rules depth context rest (.value x :: stack)
    | none => fail context p .missingValue
  | .operator p op :: rest, stack => do
    let stack ← apply context p op stack
    terms rules depth context rest stack
  | .parenthesis _ _ :: _, _ => throw (.defect .strayParenthesis)
termination_by ts => (rules.settings.callLimit - depth, sizeOf ts, 0)

def evaluate (rules : Rules) (depth : Nat) : Expression → Run Decimal
  | ⟨context, ts⟩ => do
    let stack ← terms rules depth context ts []
    conclude context stack
termination_by e => (rules.settings.callLimit - depth, sizeOf e, 0)

/-- Evaluates an expression that stands as a statement: if it is a single call, the call need not
have a value. -/
def evaluateStatement (rules : Rules) (depth : Nat) : Expression → Run (Option Decimal)
  | ⟨context, [.call p name text arguments]⟩ => call rules depth context p name text arguments
  | e => do return some (← evaluate rules depth e)
termination_by e => (rules.settings.callLimit - depth, sizeOf e, 1)

/-- Evaluates expressions from left to right. -/
def evaluateAll (rules : Rules) (depth : Nat) : List Expression → Run (List Decimal)
  | [] => pure []
  | e :: rest => do
    let x ← evaluate rules depth e
    let xs ← evaluateAll rules depth rest
    pure (x :: xs)
termination_by es => (rules.settings.callLimit - depth, sizeOf es, 0)

/-- Calls a function. The arguments are evaluated among the caller's variables; the call then has
the parameters as its only variables. -/
def call (rules : Rules) (depth : Nat) (context : String) (position : Int) (name text : String)
    (arguments : List Expression) : Run (Option Decimal) := do
  match rules.functions.find? name with
  | none => fail context position .unknownName
  | some f =>
    if f.arity ≠ arguments.length then fail context position .argumentCount
    else do
      let xs ← evaluateAll rules depth arguments
      if depth < rules.settings.callLimit then
        inFrame (Table.ofEntries (f.parameters.zip xs)) do
          record (.calling text (depth + 1))
          match ← statements rules (depth + 1) none f.body with
          | .finished last => pure last
          | .broke last => pure last
          | .returned x => pure (some x)
      else do
        record (.callLimit rules.settings.callLimit)
        throw .limit
termination_by (rules.settings.callLimit - depth, sizeOf arguments, 1)

/-- Executes one statement. -/
def statement (rules : Rules) (depth : Nat) : Statement → Run Signal
  | .expression e => do return .ofLast (← evaluateStatement rules depth e)
  | .branch condition body otherwise => do
    if Numeric.isTrue (← evaluate rules depth condition) then block rules depth body
    else
      match otherwise with
      | some other => block rules depth other
      | none => pure .nothing
  | .loop text condition body =>
    loop rules depth text condition body rules.settings.loopLimit none
  | .returning e => do return .returned (← evaluate rules depth e)
  | .printing e => do
    let x ← evaluate rules depth e
    let text ← display rules.settings x
    print (text ++ "\n")
    pure .nothing
  | .breaking => pure .broke
termination_by s => (rules.settings.callLimit - depth, sizeOf s, 0)

/-- Executes statements in order until one of them ends the list; `last` is the last value so
far. -/
def statements (rules : Rules) (depth : Nat) (last : Option Decimal) : List Statement → Run Ending
  | [] => pure (.finished last)
  | s :: rest => do
    match ← statement rules depth s with
    | .value x => statements rules depth (some x) rest
    | .nothing => statements rules depth last rest
    | .returned x => pure (.returned x)
    | .broke => pure (.broke last)
termination_by ss => (rules.settings.callLimit - depth, sizeOf ss, 0)

/-- Executes a block; a `return` or `break` in it goes on to whatever the block stands in. -/
def block (rules : Rules) (depth : Nat) (body : List Statement) : Run Signal := do
  match ← statements rules depth none body with
  | .finished last => pure (.ofLast last)
  | .returned x => pure (.returned x)
  | .broke _ => pure .broke
termination_by (rules.settings.callLimit - depth, sizeOf body, 1)

/-- Runs a loop that may take `remaining` rounds more. The condition is evaluated once more than
the body. -/
def loop (rules : Rules) (depth : Nat) (text : String) (condition : Expression)
    (body : List Statement) (remaining : Nat) (last : Option Decimal) : Run Signal := do
  have := sizeOf_statements_pos body
  have := sizeOf_expression_pos condition
  if Numeric.isTrue (← evaluate rules depth condition) then
    match remaining with
    | 0 => do
      record (.loopLimit rules.settings.loopLimit text)
      throw .limit
    | remaining + 1 => do
      match ← statements rules depth last body with
      | .finished last => loop rules depth text condition body remaining last
      | .returned x => pure (.returned x)
      | .broke last => pure (.ofLast last)
  else pure (.ofLast last)
termination_by (rules.settings.callLimit - depth, sizeOf condition + sizeOf body, remaining)

end

end Run

end Abacus
