import Abacus.Run.Environment
import Abacus.Script.Nesting
import Abacus.Script.Parse

/-!
Sessions: inputs go in, the text to display comes out.

An input's functions are defined first and its statements are then executed in order. What is
displayed is, for a `return`, its value; otherwise what was printed, or the last value if nothing
was. An error takes the place of the output, but what the input changed before the error stays.
-/
namespace Abacus

/-- The answer to an input. -/
structure Reply where
  text : Except Defect String
  environment : Environment
  events : List Event

namespace Session

/-- A text without the line feed at its end. -/
def dropLastBreak (text : String) : String :=
  match text.toList.reverse with
  | '\n' :: rest => String.ofList rest.reverse
  | _ => text

/-- The text for a value, in the session's number of places. -/
def format (env : Environment) (x : Decimal) : Except Defect String :=
  match x.display? env.settings.displayPlaces with
  | some text => .ok text
  | none => .error .tooManyDigits

def formatLast (env : Environment) : Option Decimal → Except Defect String
  | some x => format env x
  | none => .ok ""

/-- The text for an input whose statements ended in the given way and printed `out`. -/
def conclude (env : Environment) (out : String) : Ending → Except Defect String
  | .returned x => format env x
  | .broke last => do return dropLastBreak (out ++ (← formatLast env last))
  | .finished last => if out.isEmpty then formatLast env last else .ok (dropLastBreak out)

/-- The reply to an input that failed. -/
def failed (env : Environment) (events : List Event) : Failure → Reply
  | .diagnosed d => ⟨.ok d.render, env, events ++ [.failed d.record]⟩
  | .limit => ⟨.ok Diagnostic.ofLimit.render, env, events ++ [.failed Diagnostic.limitRecord]⟩
  | .defect d => ⟨.error d, env, events⟩

def parsedEvent (p : Program) : Event := .parsed p.statements.length p.functions.length

/-- Defines a program's functions and executes its statements. -/
def execute (env : Environment) (p : Program) : Reply :=
  let (env, defined) := env.defineAll p.functions
  let ran := env.run fun rules depth => Run.statements rules depth none p.statements
  let events := parsedEvent p :: defined ++ ran.events
  match ran.result with
  | .ok ending => ⟨conclude ran.environment ran.out ending, ran.environment, events⟩
  | .error e => failed ran.environment events e

/-- Answers one input.

Before that the host is asked for a stack of `Nesting.allowance` levels, so that the calls that the
settings permit fit on it. The request always succeeds here; for call limits from 89478444 on it
would be for more than `2 ^ 31 - 1` levels, which a host cannot grant. -/
def process (env : Environment) (source : String) : Reply :=
  match tokenize source with
  | .error d => failed env [] (.diagnosed d)
  | .ok ts =>
    if Nesting.isTooDeep env.settings ts then
      ⟨.ok Diagnostic.ofLimit.render, env, [.nestedTooDeeply]⟩
    else
      match parseTokens source ts with
      | .error d => failed env [] (.diagnosed d)
      | .ok p => execute env p

end Session

end Abacus
