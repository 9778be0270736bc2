import Abacus.Decimal.Numeral
import Abacus.Script.Operator
import Abacus.Text.Quoted

/-!
Tokens of a script and their places in it.
-/
namespace Abacus

/-- A place between two characters. Lines and columns count from one, offsets from zero; lines end
at line feeds only. -/
structure Location where
  line : Nat
  column : Nat
  offset : Nat
deriving DecidableEq, Repr

namespace Location

def start : Location := ⟨1, 1, 0⟩

/-- The place behind the character `c`. -/
def next (l : Location) (c : Char) : Location :=
  if c = '\n' then ⟨l.line + 1, 1, l.offset + 1⟩ else ⟨l.line, l.column + 1, l.offset + 1⟩

/-- The place behind the characters `cs`. -/
def after (l : Location) (cs : List Char) : Location := cs.foldl next l

def text (l : Location) : String := toString l.line ++ ":" ++ toString l.column

end Location

inductive Keyword where
  | fnWord | ifWord | elseWord | whileWord | breakWord | returnWord | printWord
  | andWord | orWord | notWord | piWord
deriving DecidableEq, Repr

namespace Keyword

def all : List Keyword :=
  [fnWord, ifWord, elseWord, whileWord, breakWord, returnWord, printWord, andWord, orWord, notWord,
   piWord]

def word : Keyword → String
  | fnWord => "fn"
  | ifWord => "if"
  | elseWord => "else"
  | whileWord => "while"
  | breakWord => "break"
  | returnWord => "return"
  | printWord => "print"
  | andWord => "and"
  | orWord => "or"
  | notWord => "not"
  | piWord => "pi"

def ofWord? (word : String) : Option Keyword := all.find? (·.word == word)

def label : Keyword → String
  | fnWord => "FN"
  | ifWord => "IF"
  | elseWord => "ELSE"
  | whileWord => "WHILE"
  | breakWord => "BREAK"
  | returnWord => "RETURN"
  | printWord => "PRINT"
  | andWord => "AND"
  | orWord => "OR"
  | notWord => "NOT"
  | piWord => "PI"

end Keyword

inductive Mark where
  | plus | minus | star | slash | percent | caret
  | less | greater | equal | unequal | assign
  | leftParen | rightParen | leftBrace | rightBrace | comma | semicolon
deriving DecidableEq, Repr

namespace Mark

def label : Mark → String
  | plus => "PLUS"
  | minus => "MINUS"
  | star => "STAR"
  | slash => "SLASH"
  | percent => "PERCENT"
  | caret => "CARET"
  | less => "LT"
  | greater => "GT"
  | equal => "EQ"
  | unequal => "NE"
  | assign => "ASSIGN"
  | leftParen => "LPAREN"
  | rightParen => "RPAREN"
  | leftBrace => "LBRACE"
  | rightBrace => "RBRACE"
  | comma => "COMMA"
  | semicolon => "SEMICOLON"

/-- Marks of a single character. -/
def ofChar? : Char → Option Mark
  | '+' => some plus
  | '-' => some minus
  | '*' => some star
  | '/' => some slash
  | '%' => some percent
  | '^' => some caret
  | '<' => some less
  | '>' => some greater
  | '=' => some assign
  | '(' => some leftParen
  | ')' => some rightParen
  | '{' => some leftBrace
  | '}' => some rightBrace
  | ',' => some comma
  | ';' => some semicolon
  | _ => none

end Mark

inductive TokenKind where
  | number (value : Decimal)
  | identifier (name : String)
  | builtin (op : Operator)
  | keyword (k : Keyword)
  | mark (m : Mark)
  | newline
  | endOfInput
deriving DecidableEq, Repr

/-- A token with the source text it was read from. -/
structure Token where
  kind : TokenKind
  lexeme : String
  start : Location
  stop : Location
deriving DecidableEq, Repr

namespace Token

def label (t : Token) : String :=
  match t.kind with
  | .number _ => "NUMBER"
  | .identifier _ => "IDENTIFIER"
  | .builtin _ => "BUILTIN"
  | .keyword k => k.label
  | .mark m => m.label
  | .newline => "NEWLINE"
  | .endOfInput => "EOF"

/-- From where to where the token goes, the end excluded. -/
def span (t : Token) : String := t.start.text ++ "-" ++ t.stop.text

/-- One-line description: the kind, and what it holds where that is not fixed by the kind. -/
def describe (t : Token) : String :=
  match t.kind with
  | .number value => t.label ++ "(Decimal(" ++ Text.quoted value.toText ++ "))"
  | .identifier name => t.label ++ "(" ++ Text.quoted name ++ ")"
  | .builtin op => t.label ++ "(" ++ Text.quoted op.symbol ++ ")"
  | _ => t.label

def isMark (m : Mark) (t : Token) : Bool := t.kind == .mark m

def isKeyword (k : Keyword) (t : Token) : Bool := t.kind == .keyword k

def isNewline (t : Token) : Bool := t.kind == .newline

/-- Statements are kept apart by line breaks and semicolons. -/
def isSeparator (t : Token) : Bool := t.isNewline || t.isMark .semicolon

def isEnd (t : Token) : Bool := t.kind == .endOfInput

/-- The operator that the token stands for before an operand. -/
def prefixOperator? (t : Token) : Option Operator :=
  match t.kind with
  | .mark .minus => some .negate
  | .keyword .notWord => some .complement
  | .builtin op => some op
  | _ => none

/-- The operator that the token stands for between two operands. -/
def binaryOperator? (t : Token) : Option Operator :=
  match t.kind with
  | .mark .plus => some .add
  | .mark .minus => some .subtract
  | .mark .star => some .multiply
  | .mark .slash => some .divide
  | .mark .percent => some .remainder
  | .mark .caret => some .power
  | .mark .less => some .less
  | .mark .greater => some .greater
  | .mark .equal => some .equal
  | .mark .unequal => some .unequal
  | .mark .assign => some .assign
  | .keyword .andWord => some .both
  | .keyword .orWord => some .either
  | _ => none

end Token

end Abacus
