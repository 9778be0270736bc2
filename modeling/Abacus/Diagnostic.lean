import Abacus.Text.Quoted

/-!
What can go wrong with an input, and how it is shown.

A diagnostic carries the stretch of source it was raised against and an offset into it; it is shown
as that stretch on one line, a caret under the offset and the message. Reaching a limit has no
place in the source and is shown by its message alone.
-/
namespace Abacus

inductive ErrorKind where
  | malformed
  | invalidNumber
  | zeroDivision
  | math
  | invalidExponent
  | unknownName
  | invalidAssignment
  | missingValue
  | argumentCount
  | limitReached
deriving DecidableEq, Repr

namespace ErrorKind

def message : ErrorKind → String
  | malformed => "Syntax error"
  | invalidNumber => "Invalid number"
  | zeroDivision => "Division by zero"
  | math => "Math error"
  | invalidExponent => "Invalid exponent"
  | unknownName => "Identifier not found"
  | invalidAssignment => "Invalid assignment"
  | missingValue => "Function did not return a value"
  | argumentCount => "Invalid number of arguments passed to function"
  | limitReached => "Maximum iteration count reached"

/-- The name of the kind in records. -/
def label : ErrorKind → String
  | malformed => "SYNTAX_ERROR"
  | invalidNumber => "INVALID_NUMBER_LITERAL"
  | zeroDivision => "ZERO_DIVISION"
  | math => "MATH_ERROR"
  | invalidExponent => "INVALID_EXPONENT"
  | unknownName => "IDENTIFIER_NOT_FOUND"
  | invalidAssignment => "INVALID_ASSIGNMENT"
  | missingValue => "MISSING_RETURN_VALUE"
  | argumentCount => "INVALID_NUMBER_OF_ARGUMENT"
  | limitReached => "ITERATION_LIMIT_REACHED"

def all : List ErrorKind :=
  [malformed, invalidNumber, zeroDivision, math, invalidExponent, unknownName, invalidAssignment,
   missingValue, argumentCount, limitReached]

def ofLabel? (label : String) : Option ErrorKind := all.find? (·.label == label)

/-- Reaching a limit ends the whole evaluation. -/
def isFatal (k : ErrorKind) : Bool := k == limitReached

end ErrorKind

structure Diagnostic where
  context : String
  /-- Offset into `context`, in code points. -/
  position : Int
  kind : ErrorKind
deriving DecidableEq, Repr

namespace Diagnostic

/-- Line feeds become spaces, so every offset keeps its column. -/
def oneLine (text : String) : String := text.map fun c => if c = '\n' then ' ' else c

def summary (d : Diagnostic) : String := "Error: " ++ d.kind.message

def render (d : Diagnostic) : String :=
  if d.kind.isFatal then d.summary
  else
    let caret := String.ofList (List.replicate d.position.toNat ' ') ++ "^"
    oneLine d.context ++ "\n" ++ caret ++ "\n" ++ d.summary

/-- The arguments of the record form. -/
def fields (d : Diagnostic) : String :=
  "(" ++ Text.quoted d.context ++ ", " ++ toString d.position ++ ", " ++ d.kind.label ++ ")"

/-- One line that shows every field. -/
def record (d : Diagnostic) : String := "CalcError" ++ d.fields

/-- The diagnostic of a loop or call limit, which no source position belongs to. -/
def ofLimit : Diagnostic := ⟨"", 0, .limitReached⟩

/-- The one line that records a limit. -/
def limitRecord : String := "GuardLimitError" ++ ofLimit.fields

end Diagnostic

end Abacus
