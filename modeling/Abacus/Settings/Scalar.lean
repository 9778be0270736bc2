import Abacus.Settings.Datum

/-!
Plain scalars of a settings document: words without quotes that stand for null, truth values,
integers, reals or themselves.
-/
namespace Abacus.Scalar

def nullWords : List String := ["", "~", "null", "Null", "NULL"]

def trueWords : List String := ["yes", "Yes", "YES", "true", "True", "TRUE", "on", "On", "ON"]

def falseWords : List String := ["no", "No", "NO", "false", "False", "FALSE", "off", "Off", "OFF"]

/-- The value of a digit in any base up to sixteen. -/
def digitValue (c : Char) : Nat :=
  if c.isDigit then c.toNat - '0'.toNat
  else if c.toLower.isAlpha then c.toLower.toNat - 'a'.toNat + 10
  else 255

/-- Digits in a base, underscores apart; at least one digit. -/
def natIn? (base : Nat) (cs : List Char) : Option Nat :=
  let ds := cs.filter (· ≠ '_')
  if ds.isEmpty || !ds.all (digitValue · < base) then none
  else some (ds.foldl (fun n c => base * n + digitValue c) 0)

/-- The parts of a text between colons. -/
def splitColons : List Char → List (List Char)
  | [] => [[]]
  | c :: cs =>
    match splitColons cs with
    | [] => [[c]]
    | part :: rest => if c = ':' then [] :: part :: rest else (c :: part) :: rest

/-- One or two digits below sixty. -/
def sixtieth? (cs : List Char) : Option Nat :=
  if cs.length ≤ 2 && cs.all Char.isDigit then (natIn? 10 cs).filter (· < 60) else none

/-- Digits before colons, each part sixty times the next. -/
def sexagesimal? (cs : List Char) : Option Nat :=
  match splitColons cs with
  | whole :: part :: parts => do
    let start ← natIn? 10 whole
    let rest ← (part :: parts).mapM sixtieth?
    return rest.foldl (fun n p => 60 * n + p) start
  | _ => none

/-- An integer without its sign: binary after `0b`, hexadecimal after `0x`, octal after `0`. -/
def magnitude? : List Char → Option Nat
  | '0' :: 'b' :: cs => natIn? 2 cs
  | '0' :: 'x' :: cs => natIn? 16 cs
  | ['0'] => some 0
  | '0' :: cs =>
    if cs.all (fun c => c == '_' || digitValue c < 8) then natIn? 8 ('0' :: cs) else none
  | c :: cs => if !c.isDigit then none else (natIn? 10 (c :: cs)).or (sexagesimal? (c :: cs))
  | [] => none

def signed (cs : List Char) : Bool × List Char :=
  match cs with
  | '-' :: rest => (true, rest)
  | '+' :: rest => (false, rest)
  | rest => (false, rest)

def integer? (cs : List Char) : Option Int :=
  let (negative, rest) := signed cs
  (magnitude? rest).map fun n => if negative then -(n : Int) else n

/-- A sign and digits behind an exponent mark, or nothing. -/
def exponent? : List Char → Option Int
  | [] => some 0
  | e :: sign :: ds =>
    if (e = 'e' ∨ e = 'E') ∧ (sign = '+' ∨ sign = '-') ∧ ds ≠ [] ∧ ds.all Char.isDigit then
      some (if sign = '-' then -(Decimal.natOfDigits ds : Int) else Decimal.natOfDigits ds)
    else none
  | _ => none

def isRealDigit (c : Char) : Bool := c.isDigit || c == '_'

/-- A real has a point, and digits before it or right behind it. -/
def real? (cs : List Char) : Option Decimal :=
  let (negative, body) := signed cs
  let whole := body.takeWhile isRealDigit
  match body.dropWhile isRealDigit with
  | '.' :: rest =>
    let fraction := rest.takeWhile isRealDigit
    let startsWithDigit :=
      match whole, fraction with
      | c :: _, _ => c.isDigit
      | [], c :: _ => c.isDigit && body.length == cs.length
      | [], [] => false
    if !startsWithDigit then none
    else do
      let e ← exponent? (rest.dropWhile isRealDigit)
      let x := Decimal.ofDigits (whole.filter Char.isDigit) (fraction.filter Char.isDigit)
      return ⟨negative, x.coefficient, x.exponent + e⟩
  | _ => none

/-- What a plain scalar stands for. -/
def resolve (word : String) : Datum :=
  if nullWords.contains word then .null
  else if trueWords.contains word then .bool true
  else if falseWords.contains word then .bool false
  else
    match integer? word.toList with
    | some n => .integer n
    | none =>
      match real? word.toList with
      | some x => .real x
      | none => .text word

end Abacus.Scalar
