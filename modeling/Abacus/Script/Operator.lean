/-!
The operators of the language, with the strength and direction in which they bind.
-/
namespace Abacus

inductive Operator where
  | assign
  | less | greater | equal | unequal
  | both | either
  | add | subtract
  | multiply | divide | remainder
  | power
  | negate | complement
  | sin | sind | asin | asind
  | cos | cosd | acos | acosd
  | tan | tand | atan | atand
  | ln | log | abs
deriving DecidableEq, Repr

namespace Operator

/-- How the operator is written; negation and subtraction share a sign. -/
def symbol : Operator → String
  | assign => "="
  | less => "<"
  | greater => ">"
  | equal => "=="
  | unequal => "!="
  | both => "and"
  | either => "or"
  | add => "+"
  | subtract => "-"
  | multiply => "*"
  | divide => "/"
  | remainder => "%"
  | power => "^"
  | negate => "-"
  | complement => "not"
  | sin => "sin"
  | sind => "sind"
  | asin => "asin"
  | asind => "asind"
  | cos => "cos"
  | cosd => "cosd"
  | acos => "acos"
  | acosd => "acosd"
  | tan => "tan"
  | tand => "tand"
  | atan => "atan"
  | atand => "atand"
  | ln => "ln"
  | log => "log"
  | abs => "abs"

/-- The name of the operator in listings, where each has its own. -/
def label : Operator → String
  | assign => "ASSIGN"
  | less => "LESS_THAN"
  | greater => "GREATER_THAN"
  | equal => "EQUAL"
  | unequal => "NOT_EQUAL"
  | both => "AND"
  | either => "OR"
  | add => "ADD"
  | subtract => "SUB"
  | multiply => "MULT"
  | divide => "DIV"
  | remainder => "MOD"
  | power => "POW"
  | negate => "NEG"
  | complement => "NOT"
  | sin => "SIN"
  | sind => "SIND"
  | asin => "ASIN"
  | asind => "ASIND"
  | cos => "COS"
  | cosd => "COSD"
  | acos => "ACOS"
  | acosd => "ACOSD"
  | tan => "TAN"
  | tand => "TAND"
  | atan => "ATAN"
  | atand => "ATAND"
  | ln => "LN"
  | log => "LOG"
  | abs => "ABS"

/-- Functions that are written as words before their operand and cannot be redefined. -/
def builtins : List Operator :=
  [sin, sind, asin, asind, cos, cosd, acos, acosd, tan, tand, atan, atand, ln, log, abs]

def all : List Operator :=
  [assign, less, greater, equal, unequal, both, either, add, subtract, multiply, divide, remainder,
   power, negate, complement] ++ builtins

def ofLabel? (label : String) : Option Operator := all.find? (·.label == label)

/-- The built-in function of the given name. -/
def builtin? (name : String) : Option Operator := builtins.find? (·.symbol == name)

/-- Operators of greater precedence bind more tightly. -/
def precedence : Operator → Nat
  | assign => 0
  | less | greater | equal | unequal => 1
  | both | either => 2
  | add | subtract => 3
  | multiply | divide | remainder => 4
  | power => 5
  | _ => 6

/-- Of two equal left-associative operators the first is applied first. -/
def leftAssociative (op : Operator) : Bool := 1 ≤ op.precedence && op.precedence ≤ 5

def isUnary (op : Operator) : Bool := op.precedence == 6

def arity (op : Operator) : Nat := if op.isUnary then 1 else 2

end Operator

end Abacus
