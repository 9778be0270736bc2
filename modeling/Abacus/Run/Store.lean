import Abacus.Decimal.Basic
import Abacus.Run.Event
import Abacus.Run.Table

/-!
The variables of a session and the state that evaluation works on.

A name always means the variable of the innermost active call, or the global one if no call is
active; callers' variables are out of reach.
-/
namespace Abacus

structure Store where
  globals : Table Decimal := []
  /-- Variables of the active calls, the innermost first. -/
  frames : List (Table Decimal) := []

namespace Store

/-- The variables that names refer to. -/
def active (s : Store) : Table Decimal := s.frames.headD s.globals

def get? (s : Store) (name : String) : Option Decimal := s.active.find? name

def set (s : Store) (name : String) (x : Decimal) : Store :=
  match s.frames with
  | [] => { s with globals := s.globals.put name x }
  | frame :: rest => { s with frames := frame.put name x :: rest }

def push (s : Store) (frame : Table Decimal) : Store := { s with frames := frame :: s.frames }

def pop (s : Store) : Store := { s with frames := s.frames.tail }

end Store

/-- A defect of the program itself; no script can bring one about. -/
inductive Defect where
  | missingOperand
  | malformedExpression (context : String)
  | strayParenthesis
  | tooManyDigits
deriving DecidableEq, Repr

def Defect.message : Defect → String
  | missingOperand => "An operator has too few operands"
  | malformedExpression context => "Malformed expression: " ++ Text.quoted context
  | strayParenthesis => "Unexpected parenthesis token in compiled expression"
  | tooManyDigits => "A value has too many digits to be shown"

/-- Why an evaluation stopped. -/
inductive Failure where
  | diagnosed (d : Diagnostic)
  | limit
  | defect (d : Defect)
deriving DecidableEq, Repr

/-- What an evaluation reads and changes. -/
structure State where
  store : Store
  /-- Text printed so far. -/
  out : String := ""
  /-- Events so far, the latest first. -/
  events : List Event := []

/-- An evaluation; what it did before a failure stays done. -/
abbrev Run := EStateM Failure State

namespace Run

def record (e : Event) : Run Unit := modify fun s => { s with events := e :: s.events }

def print (text : String) : Run Unit := modify fun s => { s with out := s.out ++ text }

def fail {α : Type} (context : String) (position : Int) (kind : ErrorKind) : Run α :=
  throw (.diagnosed ⟨context, position, kind⟩)

/-- Runs `m` with a frame of its own, which is gone afterwards however `m` ends. -/
def inFrame {α : Type} (frame : Table Decimal) (m : Run α) : Run α := fun s =>
  match m { s with store := s.store.push frame } with
  | .ok a s => .ok a { s with store := s.store.pop }
  | .error e s => .error e { s with store := s.store.pop }

end Run

end Abacus
