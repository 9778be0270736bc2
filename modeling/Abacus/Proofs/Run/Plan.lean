import Abacus.Proofs.Run.Interpretation

/-!
Programs without a stack.

A plan is a statement whose expressions are trees. Plans are executed by recursion, the bodies of
the functions they call included, and nothing is ever listed in postorder. A plan compiles to a
statement, by listing its trees; executing the two comes to the same.
-/
namespace Abacus

inductive Plan where
  | expression (context : String) (t : Tree)
  | branch (context : String) (condition : Tree) (body : List Plan)
      (otherwise : Option (List Plan))
  | loop (text context : String) (condition : Tree) (body : List Plan)
  | returning (context : String) (t : Tree)
  | printing (context : String) (t : Tree)
  | breaking

structure PlannedFunction where
  name : String
  text : String
  parameters : List String
  body : List Plan

structure PlannedRules where
  settings : Settings
  functions : Table PlannedFunction

/-! ### Compilation -/

namespace Plan

mutual

def compile : Plan → Statement
  | expression context t => .expression ⟨context, t.postorder⟩
  | branch context t body otherwise =>
    .branch ⟨context, t.postorder⟩ (compileAll body) (compileOther otherwise)
  | loop text context t body => .loop text ⟨context, t.postorder⟩ (compileAll body)
  | returning context t => .returning ⟨context, t.postorder⟩
  | printing context t => .printing ⟨context, t.postorder⟩
  | breaking => .breaking

def compileAll : List Plan → List Statement
  | [] => []
  | s :: rest => s.compile :: compileAll rest

def compileOther : Option (List Plan) → Option (List Statement)
  | none => none
  | some other => some (compileAll other)

end

end Plan

def PlannedFunction.compile (f : PlannedFunction) : Function :=
  ⟨f.name, f.text, f.parameters, Plan.compileAll f.body⟩

def PlannedRules.compile (rules : PlannedRules) : Rules :=
  ⟨rules.settings, rules.functions.map fun (name, f) => (name, f.compile)⟩

theorem find?_map {α β : Type} (f : α → β) (name : String) (t : Table α) :
    Table.find? name (t.map fun (n, a) => (n, f a)) = (t.find? name).map f := by
  induction t with
  | nil => rfl
  | cons e rest ih =>
    simp only [List.map_cons, Table.find?]
    split
    · rfl
    · exact ih

/-! ### Execution -/

namespace Plan

open Run (display print record)

mutual

/-- The functions of planned rules, as they are called at the given depth. -/
def callee? (rules : PlannedRules) (depth : Nat) (name : String) : Option Callee :=
  (rules.functions.find? name).map fun f =>
    .entering rules.settings.callLimit depth f.parameters fun _ =>
      statements rules (depth + 1) none f.body
termination_by (rules.settings.callLimit - depth, 0, 0)

def statement (rules : PlannedRules) (depth : Nat) : Plan → Run Signal
  | expression context t => do
    return .ofLast (← t.evaluateStatement (callee? rules depth) context)
  | branch context t body otherwise => do
    if Numeric.isTrue (← t.evaluate (callee? rules depth) context) then
      block rules depth body
    else
      match otherwise with
      | some other => block rules depth other
      | none => pure .nothing
  | loop text context t body => rounds rules depth text context t body rules.settings.loopLimit none
  | returning context t => do
    return .returned (← t.evaluate (callee? rules depth) context)
  | printing context t => do
    let x ← t.evaluate (callee? rules depth) context
    let text ← display rules.settings x
    print (text ++ "\n")
    pure .nothing
  | breaking => pure .broke
termination_by s => (rules.settings.callLimit - depth, sizeOf s + 1, 0)

def statements (rules : PlannedRules) (depth : Nat) (last : Option Decimal) :
    List Plan → Run Ending
  | [] => pure (.finished last)
  | s :: rest => do
    match ← statement rules depth s with
    | .value x => statements rules depth (some x) rest
    | .nothing => statements rules depth last rest
    | .returned x => pure (.returned x)
    | .broke => pure (.broke last)
termination_by ss => (rules.settings.callLimit - depth, sizeOf ss + 1, 0)

def block (rules : PlannedRules) (depth : Nat) (body : List Plan) : Run Signal := do
  match ← statements rules depth none body with
  | .finished last => pure (.ofLast last)
  | .returned x => pure (.returned x)
  | .broke _ => pure .broke
termination_by (rules.settings.callLimit - depth, sizeOf body + 1, 1)

/-- Runs a loop that may take `remaining` rounds more. -/
def rounds (rules : PlannedRules) (depth : Nat) (text context : String) (condition : Tree)
    (body : List Plan) (remaining : Nat) (last : Option Decimal) : Run Signal := do
  if Numeric.isTrue (← condition.evaluate (callee? rules depth) context) then
    match remaining with
    | 0 => do
      record (.loopLimit rules.settings.loopLimit text)
      throw .limit
    | remaining + 1 => do
      match ← statements rules depth last body with
      | .finished last => rounds rules depth text context condition body remaining last
      | .returned x => pure (.returned x)
      | .broke last => pure (.ofLast last)
  else pure (.ofLast last)
termination_by (rules.settings.callLimit - depth, sizeOf body + 1, remaining + 1)

end

/-! ### Execution of what a plan compiles to -/

mutual

theorem statement_compile {rules : PlannedRules} {depth : Nat}
    (hcallee : rules.compile.callee? depth = callee? rules depth) (s : Plan) :
    Run.statement rules.compile depth s.compile = statement rules depth s := by
  match s with
  | expression context t =>
    rw [compile, Run.statement, statement, Tree.evaluateStatement_postorder, hcallee]
  | branch context t body none =>
    rw [compile, compileOther, Run.statement, statement, Tree.evaluate_postorder, hcallee,
      block_compile hcallee body]
  | branch context t body (some other) =>
    rw [compile, compileOther, Run.statement, statement, Tree.evaluate_postorder, hcallee,
      block_compile hcallee body, block_compile hcallee other]
  | loop text context t body =>
    rw [compile, Run.statement, statement, rounds_compile hcallee text context t body _ none]
    rfl
  | returning context t =>
    rw [compile, Run.statement, statement, Tree.evaluate_postorder, hcallee]
  | printing context t =>
    rw [compile, Run.statement, statement, Tree.evaluate_postorder, hcallee]
    rfl
  | breaking => rw [compile, Run.statement, statement]
termination_by (sizeOf s, 0)

theorem statements_compile {rules : PlannedRules} {depth : Nat}
    (hcallee : rules.compile.callee? depth = callee? rules depth) (last : Option Decimal)
    (ss : List Plan) :
    Run.statements rules.compile depth last (compileAll ss) = statements rules depth last ss := by
  match ss with
  | [] => rw [compileAll, Run.statements, statements]
  | s :: rest =>
    rw [compileAll, Run.statements, statements, statement_compile hcallee s]
    refine bind_congr fun signal => ?_
    cases signal with
    | value x => exact statements_compile hcallee (some x) rest
    | nothing => exact statements_compile hcallee last rest
    | returned x => rfl
    | broke => rfl
termination_by (sizeOf ss, 0)

theorem block_compile {rules : PlannedRules} {depth : Nat}
    (hcallee : rules.compile.callee? depth = callee? rules depth) (body : List Plan) :
    Run.block rules.compile depth (compileAll body) = block rules depth body := by
  rw [Run.block, block]
  exact congrArg (· >>= _) (statements_compile hcallee none body)
termination_by (sizeOf body, 1)

theorem rounds_compile {rules : PlannedRules} {depth : Nat}
    (hcallee : rules.compile.callee? depth = callee? rules depth) (text context : String)
    (t : Tree) (body : List Plan) (remaining : Nat) (last : Option Decimal) :
    Run.loop rules.compile depth text ⟨context, t.postorder⟩ (compileAll body) remaining last
      = rounds rules depth text context t body remaining last := by
  match remaining with
  | 0 =>
    rw [Run.loop, rounds, Tree.evaluate_postorder, hcallee]
    rfl
  | remaining + 1 =>
    rw [Run.loop, rounds, Tree.evaluate_postorder, hcallee, statements_compile hcallee last body]
    refine bind_congr fun x => ?_
    split
    · refine bind_congr fun ending => ?_
      cases ending with
      | finished last => exact rounds_compile hcallee text context t body remaining last
      | returned x => rfl
      | broke last => rfl
    · rfl
termination_by (sizeOf body, remaining + 1)

end

/-- A function compiled from a plan does, when it is called, what the plan says. -/
theorem callee_compile (rules : PlannedRules) (depth : Nat) :
    rules.compile.callee? depth = callee? rules depth := by
  funext name
  -- bodies run one call deeper, where fewer calls are left
  rw [Rules.callee?, callee?, PlannedRules.compile, find?_map, Option.map_map]
  refine congrArg (Option.map · _) (funext fun f => ?_)
  refine congrArg (Callee.entering _ depth f.parameters) (funext fun hlimit => ?_)
  have hdepth : depth < rules.settings.callLimit := hlimit
  exact statements_compile (callee_compile rules (depth + 1)) none f.body
termination_by rules.settings.callLimit - depth

end Plan

/-- Running the postorder of a tree on the stack is the same computation as evaluating the tree:
from every state it ends with the same value, or lack of one, or failure, and in the same state.
Calls may run the bodies of the functions as they are, or, if these are compiled from plans, the
plans. -/
theorem Tree.stack_follows_tree :
    (∀ (rules : Rules) (depth : Nat) (context : String) (t : Tree),
      Run.evaluate rules depth ⟨context, t.postorder⟩
        = t.evaluate (rules.callee? depth) context ∧
      Run.evaluateStatement rules depth ⟨context, t.postorder⟩
        = t.evaluateStatement (rules.callee? depth) context) ∧
    ∀ (rules : PlannedRules) (depth : Nat) (context : String) (t : Tree),
      Run.evaluate rules.compile depth ⟨context, t.postorder⟩
        = t.evaluate (Plan.callee? rules depth) context ∧
      Run.evaluateStatement rules.compile depth ⟨context, t.postorder⟩
        = t.evaluateStatement (Plan.callee? rules depth) context := by
  refine ⟨fun rules depth context t => ?_, fun rules depth context t => ?_⟩
  · exact ⟨evaluate_postorder rules depth context t,
      evaluateStatement_postorder rules depth context t⟩
  · rw [← Plan.callee_compile]
    exact ⟨evaluate_postorder rules.compile depth context t,
      evaluateStatement_postorder rules.compile depth context t⟩

end Abacus
