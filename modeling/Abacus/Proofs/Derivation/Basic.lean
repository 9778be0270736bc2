import Abacus.Proofs.Script.Derivation

/-!
Derivations of scripts.

    script     := statements end
    statements := separator* [simple]
                | separator* simple separator statements
                | separator* compound statements
                | separator* function statements
    simple     := expression | 'return' expression | 'print' expression | 'break'
    compound   := 'if' branch | 'while' expression block
    branch     := expression block [newline* 'else' (block | 'if' branch)]
    block      := '{' statements '}'
    function   := 'fn' name '(' [name (',' name)*] ')' block
    expression := operand (binary-operator operand)*
    operand    := prefix-operator* primary
    primary    := number | 'pi' | name | name '(' [expression (',' expression)*] ')'
                | '(' expression ')'

A separator is a line feed or a semicolon, and a simple statement that is not the last one takes
the separator behind it. Functions stand at the top only, and `break` only in the blocks of branches
and loops.
-/
namespace Abacus

namespace Token

def number? (t : Token) : Option Decimal :=
  match t.kind with
  | .number x => some x
  | _ => none

def identifier? (t : Token) : Option String :=
  match t.kind with
  | .identifier name => some name
  | _ => none

end Token

namespace Derivation

open Parse (positionIn startOffset)
open Grammar (textOf)

/-- A token with what it stands for. -/
structure Leaf {α : Type} (read : Token → Option α) where
  token : Token
  value : α
  reads : read token = some value

abbrev Marked (m : Mark) := { t : Token // t.isMark m = true }

abbrev Word (k : Keyword) := { t : Token // t.isKeyword k = true }

abbrev Separator := { t : Token // t.isSeparator = true }

abbrev Newline := { t : Token // t.isNewline = true }

mutual

inductive Primary where
  | number (t : Leaf Token.number?)
  | pi (t : Word .piWord)
  | name (t : Leaf Token.identifier?)
  | emptyCall (t : Leaf Token.identifier?) (opening : Marked .leftParen)
      (closing : Marked .rightParen)
  | call (t : Leaf Token.identifier?) (opening : Marked .leftParen) (arguments : Arguments)
      (closing : Marked .rightParen)
  | parens (opening : Marked .leftParen) (inner : Chain) (closing : Marked .rightParen)

inductive Operand where
  | primary (p : Primary)
  | prefixed (t : Leaf Token.prefixOperator?) (isUnary : t.value.isUnary = true)
      (operand : Operand)

/-- An expression: operands with binary operators between them. -/
inductive Chain where
  | operand (o : Operand)
  | link (o : Operand) (t : Leaf Token.binaryOperator?) (rest : Chain)

inductive Arguments where
  | one (c : Chain)
  | more (c : Chain) (comma : Marked .comma) (rest : Arguments)

end

inductive Parameters where
  | one (name : Leaf Token.identifier?)
  | more (name : Leaf Token.identifier?) (comma : Marked .comma) (rest : Parameters)

/-- Where statements stand: at the top of a script, directly in the body of a function, or in a
block of a branch or a loop. -/
inductive Place where
  | top | body | block
deriving DecidableEq

def Place.allowsBreak (place : Place) : Bool := place == .block

inductive Simple (place : Place) where
  | expression (c : Chain)
  | returning (word : Word .returnWord) (c : Chain)
  | printing (word : Word .printWord) (c : Chain)
  | breaking (word : Word .breakWord) (allowed : place = .block)

mutual

/-- A branch from its condition on. -/
inductive Branch where
  | mk (condition : Chain) (body : Block .block) (otherwise : Otherwise)

inductive Otherwise where
  | none
  | block (newlines : List Newline) (word : Word .elseWord) (body : Block .block)
  | branch (newlines : List Newline) (word : Word .elseWord) (start : Word .ifWord)
      (other : Branch)

inductive Compound where
  | branch (start : Word .ifWord) (b : Branch)
  | loop (start : Word .whileWord) (condition : Chain) (body : Block .block)

inductive Block : Place → Type where
  | mk {place : Place} (opening : Marked .leftBrace) (body : Statements place)
      (closing : Marked .rightBrace) : Block place

inductive Statements : Place → Type where
  | done {place : Place} (separators : List Separator) : Statements place
  | last {place : Place} (separators : List Separator) (s : Simple place) : Statements place
  | simple {place : Place} (separators : List Separator) (s : Simple place)
      (separator : Separator) (rest : Statements place) : Statements place
  | compound {place : Place} (separators : List Separator) (c : Compound)
      (rest : Statements place) : Statements place
  | function (separators : List Separator) (f : Definition) (rest : Statements .top) :
      Statements .top

inductive Definition where
  | mk (start : Word .fnWord) (name : Leaf Token.identifier?) (opening : Marked .leftParen)
      (parameters : Option Parameters) (closing : Marked .rightParen) (body : Block .body)

end

structure Script where
  statements : Statements .top
  ending : { t : Token // t.isEnd = true }

/-! ### Tokens -/

mutual

def Primary.tokens : Primary → List Token
  | .number t => [t.token]
  | .pi t => [t.val]
  | .name t => [t.token]
  | .emptyCall t opening closing => [t.token, opening.val, closing.val]
  | .call t opening arguments closing =>
    t.token :: opening.val :: arguments.tokens ++ [closing.val]
  | .parens opening inner closing => opening.val :: inner.tokens ++ [closing.val]

def Operand.tokens : Operand → List Token
  | .primary p => p.tokens
  | .prefixed t _ operand => t.token :: operand.tokens

def Chain.tokens : Chain → List Token
  | .operand o => o.tokens
  | .link o t rest => o.tokens ++ t.token :: rest.tokens

def Arguments.tokens : Arguments → List Token
  | .one c => c.tokens
  | .more c comma rest => c.tokens ++ comma.val :: rest.tokens

end

def Parameters.tokens : Parameters → List Token
  | .one name => [name.token]
  | .more name comma rest => name.token :: comma.val :: rest.tokens

def Simple.tokens {place : Place} : Simple place → List Token
  | .expression c => c.tokens
  | .returning word c => word.val :: c.tokens
  | .printing word c => word.val :: c.tokens
  | .breaking word _ => [word.val]

def parameterTokens : Option Parameters → List Token
  | none => []
  | some ps => ps.tokens

mutual

def Branch.tokens : Branch → List Token
  | .mk condition body otherwise => condition.tokens ++ body.tokens ++ otherwise.tokens

def Otherwise.tokens : Otherwise → List Token
  | .none => []
  | .block newlines word body => newlines.unattach ++ word.val :: body.tokens
  | .branch newlines word start other =>
    newlines.unattach ++ word.val :: start.val :: other.tokens

def Compound.tokens : Compound → List Token
  | .branch start b => start.val :: b.tokens
  | .loop start condition body => start.val :: condition.tokens ++ body.tokens

def Block.tokens {place : Place} : Block place → List Token
  | .mk opening body closing => opening.val :: body.tokens ++ [closing.val]

def Statements.tokens {place : Place} : Statements place → List Token
  | .done separators => separators.unattach
  | .last separators s => separators.unattach ++ s.tokens
  | .simple separators s separator rest =>
    separators.unattach ++ s.tokens ++ separator.val :: rest.tokens
  | .compound separators c rest => separators.unattach ++ c.tokens ++ rest.tokens
  | .function separators f rest => separators.unattach ++ f.tokens ++ rest.tokens

def Definition.tokens : Definition → List Token
  | .mk start name opening parameters closing body =>
    start.val :: name.token :: opening.val :: parameterTokens parameters ++ closing.val
      :: body.tokens

end

def Script.tokens (d : Script) : List Token := d.statements.tokens ++ [d.ending.val]

/-! ### Programs -/

mutual

/-- The terms in source order, with positions that count from the offset `base`. -/
def Primary.terms (source : List Char) (base : Nat) : Primary → List Term
  | .number t => [.number (positionIn base t.token) t.value]
  | .pi t => [.number (positionIn base t.val) Numeric.pi]
  | .name t => [.name (positionIn base t.token) t.value]
  | .emptyCall t opening closing =>
    [.call (positionIn base t.token) t.value
      (textOf source (Primary.emptyCall t opening closing).tokens) []]
  | .call t opening arguments closing =>
    [.call (positionIn base t.token) t.value
      (textOf source (Primary.call t opening arguments closing).tokens)
      (arguments.expressions source)]
  | .parens opening inner closing =>
    .parenthesis (positionIn base opening.val) .left :: inner.terms source base
      ++ [.parenthesis (positionIn base closing.val) .right]

def Operand.terms (source : List Char) (base : Nat) : Operand → List Term
  | .primary p => p.terms source base
  | .prefixed t _ operand =>
    .operator (positionIn base t.token) t.value :: operand.terms source base

def Chain.terms (source : List Char) (base : Nat) : Chain → List Term
  | .operand o => o.terms source base
  | .link o t rest =>
    o.terms source base ++ .operator (positionIn base t.token) t.value :: rest.terms source base

def Arguments.expressions (source : List Char) : Arguments → List Expression
  | .one c => [Postfix.compile (textOf source c.tokens) (c.terms source (startOffset c.tokens))]
  | .more c _ rest =>
    Postfix.compile (textOf source c.tokens) (c.terms source (startOffset c.tokens))
      :: rest.expressions source

end

/-- The expression over the text from the first to the last of its tokens. -/
def Chain.expression (source : List Char) (c : Chain) : Expression :=
  Postfix.compile (textOf source c.tokens) (c.terms source (startOffset c.tokens))

def Parameters.names : Parameters → List String
  | .one name => [name.value]
  | .more name _ rest => name.value :: rest.names

def parameterNames : Option Parameters → List String
  | none => []
  | some ps => ps.names

def Simple.statement (source : List Char) {place : Place} : Simple place → Statement
  | .expression c => .expression (c.expression source)
  | .returning _ c => .returning (c.expression source)
  | .printing _ c => .printing (c.expression source)
  | .breaking _ _ => .breaking

mutual

def Branch.statement (source : List Char) : Branch → Statement
  | .mk condition body otherwise =>
    .branch (condition.expression source) (body.statements source) (otherwise.statements source)

/-- An `else if` is a single statement. -/
def Otherwise.statements (source : List Char) : Otherwise → Option (List Statement)
  | .none => Option.none
  | .block _ _ body => some (body.statements source)
  | .branch _ _ _ other => some [other.statement source]

def Compound.statement (source : List Char) : Compound → Statement
  | .branch _ b => b.statement source
  | .loop start condition body =>
    .loop (textOf source (Compound.loop start condition body).tokens)
      (condition.expression source) (body.statements source)

def Block.statements (source : List Char) {place : Place} : Block place → List Statement
  | .mk _ body _ => body.statements source

def Statements.statements (source : List Char) {place : Place} :
    Statements place → List Statement
  | .done _ => []
  | .last _ s => [s.statement source]
  | .simple _ s _ rest => s.statement source :: rest.statements source
  | .compound _ c rest => c.statement source :: rest.statements source
  | .function _ _ rest => rest.statements source

end

def Definition.function (source : List Char) : Definition → Function
  | .mk start name opening parameters closing body =>
    ⟨name.value, textOf source (Definition.mk start name opening parameters closing body).tokens,
      parameterNames parameters, body.statements source⟩

def Statements.functions (source : List Char) {place : Place} : Statements place → List Function
  | .done _ => []
  | .last _ _ => []
  | .simple _ _ _ rest => rest.functions source
  | .compound _ _ rest => rest.functions source
  | .function _ f rest => f.function source :: rest.functions source

def Script.program (source : List Char) (d : Script) : Program :=
  ⟨d.statements.statements source, d.statements.functions source⟩

end Derivation

end Abacus
