import Abacus.Diagnostic
import Abacus.Text.Lines

/-!
Events that a session records while it works, and the lines they are reported by.
-/
namespace Abacus

inductive Level where
  | debug | warning
deriving DecidableEq, Repr

def Level.label : Level → String
  | debug => "DEBUG"
  | warning => "WARNING"

inductive Event where
  | parsed (statements functions : Nat)
  | defined (replaced : Bool) (name : String) (arity : Nat) (text : String)
  | calling (text : String) (depth : Nat)
  | callLimit (limit : Nat)
  | loopLimit (limit : Nat) (text : String)
  | reset
  | failed (record : String)
  | nestedTooDeeply

namespace Event

def level : Event → Level
  | callLimit _ | loopLimit _ _ | nestedTooDeeply => .warning
  | _ => .debug

/-- The part of the program that reports the event. -/
def channel : Event → String
  | parsed _ _ => "fncalc.parser"
  | loopLimit _ _ => "fncalc.runtime.executor"
  | failed _ | nestedTooDeeply => "fncalc.engine"
  | _ => "fncalc.runtime.environment"

def message : Event → String
  | parsed statements functions =>
    "Parsed " ++ toString statements ++ " instruction(s) and " ++ toString functions
      ++ " function(s)"
  | defined replaced name arity text =>
    (if replaced then "Redefined" else "Defined") ++ " function " ++ name ++ "/" ++ toString arity
      ++ ": " ++ Text.firstLine text
  | calling text depth => "Calling " ++ text ++ " at depth " ++ toString depth
  | callLimit limit => "Call depth limit (" ++ toString limit ++ ") reached"
  | loopLimit limit text => "Loop iteration limit (" ++ toString limit ++ ") reached: " ++ text
  | reset => "Environment reset"
  | failed record => "Evaluation failed: " ++ record
  | nestedTooDeeply => "Interpreter recursion limit reached"

def line (e : Event) : String := e.level.label ++ " " ++ e.channel ++ ": " ++ e.message

end Event

end Abacus
