import Abacus.Script.Term

/-!
Programs: statements to be carried out and functions to be defined.
-/
namespace Abacus

inductive Statement where
  | expression (value : Expression)
  /-- An `else if` is a single branch in `otherwise`. -/
  | branch (condition : Expression) (body : List Statement) (otherwise : Option (List Statement))
  | loop (text : String) (condition : Expression) (body : List Statement)
  | returning (value : Expression)
  | printing (value : Expression)
  | breaking

structure Function where
  name : String
  text : String
  parameters : List String
  body : List Statement

namespace Function

def arity (f : Function) : Nat := f.parameters.length

end Function

/-- The statements and the functions of an input, each in source order. -/
structure Program where
  statements : List Statement
  functions : List Function

end Abacus
