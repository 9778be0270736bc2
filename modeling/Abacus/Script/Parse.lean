import Abacus.Script.Postfix
import Abacus.Script.Program
import Abacus.Numeric.Trigonometry
import Abacus.Script.Scan

/-!
From tokens to programs, by recursive descent.

    program    := (statement | function)*
    function   := 'fn' name '(' [name (',' name)*] ')' block
    statement  := 'if' expression block ['else' (block | if-statement)]
                | 'while' expression block
                | 'return' expression | 'print' expression | 'break' | expression
    block      := '{' statement* '}'
    expression := operand (binary operand)*
    operand    := prefix* primary
    primary    := number | 'pi' | name | name '(' [expression (',' expression)*] ')'
                | '(' expression ')'

Every parser returns the tokens it leaves together with a proof that they are fewer, and fails with
the tokens from the offending one on. Expressions are put into postfix order as soon as they are
read, with positions that count from the start of their own text.
-/
namespace Abacus.Parse

/-- What reading from `ts` gives: a value, the offset behind the last token read, and the tokens
that are left. -/
structure Parsed (ts : List Token) (α : Type) where
  value : α
  stop : Nat
  rest : List Token
  shorter : rest.length < ts.length

/-- Failure is the tokens from the first one that does not fit. -/
abbrev Outcome := Except (List Token)

namespace Parsed

def map {ts : List Token} {α β : Type} (f : α → β) (p : Parsed ts α) : Parsed ts β :=
  ⟨f p.value, p.stop, p.rest, p.shorter⟩

/-- The same reading from a longer list of tokens. -/
def weaken {ts us : List Token} {α : Type} (p : Parsed ts α) (h : ts.length ≤ us.length) :
    Parsed us α :=
  ⟨p.value, p.stop, p.rest, Nat.lt_of_lt_of_le p.shorter h⟩

end Parsed

theorem dropWhile_length_le (q : Token → Bool) (ts : List Token) :
    (ts.dropWhile q).length ≤ ts.length :=
  (List.dropWhile_suffix _).length_le

theorem dropWhile_eq_cons {q : Token → Bool} {ts rest : List Token} {t : Token}
    (h : ts.dropWhile q = t :: rest) : q t = false ∧ rest.length + 1 ≤ ts.length := by
  have hhead := List.head?_dropWhile_not q ts
  have hlength := dropWhile_length_le q ts
  rw [h] at hhead hlength
  exact ⟨by simpa using hhead, hlength⟩

/-- Reads one token with the given property. -/
def accept (q : Token → Bool) (ts : List Token) : Outcome (Parsed ts Token) :=
  match ts with
  | [] => .error []
  | t :: rest => if q t then .ok ⟨t, t.stop.offset, rest, by simp⟩ else .error (t :: rest)

def identifier (ts : List Token) : Outcome (Parsed ts String) :=
  match ts with
  | [] => .error []
  | t :: rest =>
    match t.kind with
    | .identifier name => .ok ⟨name, t.stop.offset, rest, by simp⟩
    | _ => .error (t :: rest)

/-- Position of a token in the expression that starts at offset `base`. -/
def positionIn (base : Nat) (t : Token) : Int := (t.start.offset : Int) - base

/-- The prefix operators in a list of tokens. -/
def prefixTerms (base : Nat) (ts : List Token) : List Term :=
  ts.filterMap fun t => t.prefixOperator?.map (.operator (positionIn base t))

def isPrefixOperator (t : Token) : Bool := t.prefixOperator?.isSome

def startOffset : List Token → Nat
  | [] => 0
  | t :: _ => t.start.offset

mutual

/-- A number, `pi`, a name, a call or an expression in parentheses. -/
def primary (source : List Char) (base : Nat) (ts : List Token) : Outcome (Parsed ts (List Term)) :=
  match ts with
  | [] => .error []
  | t :: rest =>
    match t.kind with
    | .number value =>
      .ok ⟨[.number (positionIn base t) value], t.stop.offset, rest, by simp⟩
    | .keyword .piWord =>
      .ok ⟨[.number (positionIn base t) Numeric.pi], t.stop.offset, rest, by simp⟩
    | .identifier name =>
      match rest with
      | [] => .ok ⟨[.name (positionIn base t) name], t.stop.offset, [], by simp⟩
      | u :: more =>
        if u.isMark .leftParen then do
          let p ← arguments source more
          have := p.shorter
          let text := Text.slice source t.start.offset p.stop
          .ok ⟨[.call (positionIn base t) name text p.value], p.stop, p.rest, by grind⟩
        else .ok ⟨[.name (positionIn base t) name], t.stop.offset, u :: more, by simp⟩
    | .mark .leftParen => do
      let p ← terms source base rest
      have := p.shorter
      let q ← accept (·.isMark .rightParen) p.rest
      have := q.shorter
      let left := Term.parenthesis (positionIn base t) .left
      let right := Term.parenthesis (positionIn base q.value) .right
      .ok ⟨left :: p.value ++ [right], q.stop, q.rest, by grind⟩
    | _ => .error (t :: rest)
termination_by 6 * ts.length + 0

/-- Any number of prefix operators and a primary. -/
def operand (source : List Char) (base : Nat) (ts : List Token) :
    Outcome (Parsed ts (List Term)) := do
  have := dropWhile_length_le isPrefixOperator ts
  let p ← primary source base (ts.dropWhile isPrefixOperator)
  let operators := prefixTerms base (ts.takeWhile isPrefixOperator)
  .ok ((p.map (operators ++ ·)).weaken this)
termination_by 6 * ts.length + 1

/-- The terms of an expression in source order. -/
def terms (source : List Char) (base : Nat) (ts : List Token) :
    Outcome (Parsed ts (List Term)) := do
  let p ← operand source base ts
  have := p.shorter
  match hr : p.rest with
  | [] => .ok p
  | t :: more =>
    match t.binaryOperator? with
    | none => .ok p
    | some op => do
      have : more.length < ts.length := by grind
      let q ← terms source base more
      .ok ((q.map (p.value ++ .operator (positionIn base t) op :: ·)).weaken (by omega))
termination_by 6 * ts.length + 2

/-- An expression over its own stretch of the source. -/
def expression (source : List Char) (ts : List Token) : Outcome (Parsed ts Expression) := do
  let base := startOffset ts
  let p ← terms source base ts
  .ok (p.map (Postfix.compile (Text.slice source base p.stop)))
termination_by 6 * ts.length + 3

/-- The arguments of a call, up to the closing parenthesis. -/
def arguments (source : List Char) (ts : List Token) : Outcome (Parsed ts (List Expression)) :=
  match ts with
  | [] => .error []
  | t :: rest =>
    if t.isMark .rightParen then .ok ⟨[], t.stop.offset, rest, by simp⟩
    else someArguments source (t :: rest)
termination_by 6 * ts.length + 5

/-- At least one argument, up to the closing parenthesis. -/
def someArguments (source : List Char) (ts : List Token) :
    Outcome (Parsed ts (List Expression)) := do
  let p ← expression source ts
  have := p.shorter
  match hr : p.rest with
  | [] => .error []
  | t :: more =>
    have : more.length < ts.length := by grind
    if t.isMark .rightParen then .ok ⟨[p.value], t.stop.offset, more, this⟩
    else if t.isMark .comma then do
      let q ← someArguments source more
      .ok ((q.map (p.value :: ·)).weaken (by omega))
    else .error (t :: more)
termination_by 6 * ts.length + 4

end

/-- A simple statement is followed by a separator, which it takes, or by a closing brace or the end
of the input. -/
def finish (ts : List Token) : Outcome { rest : List Token // rest.length ≤ ts.length } :=
  match ts with
  | [] => .ok ⟨[], Nat.le_refl _⟩
  | t :: rest =>
    if t.isSeparator then .ok ⟨rest, by simp⟩
    else if t.isMark .rightBrace || t.isEnd then .ok ⟨t :: rest, Nat.le_refl _⟩
    else .error (t :: rest)

/-- An expression as a simple statement, behind the token `t` where there is one. -/
def simple (source : List Char) (make : Expression → Statement) (ts : List Token) :
    Outcome (Parsed ts Statement) := do
  let p ← expression source ts
  have := p.shorter
  let ⟨rest, h⟩ ← finish p.rest
  .ok ⟨make p.value, p.stop, rest, by omega⟩

/-- `break`, where it is allowed. -/
def breakStatement (allowBreak : Bool) (ts : List Token) : Outcome (Parsed ts Statement) := do
  if !allowBreak then .error ts
  else
    let p ← accept (·.isKeyword .breakWord) ts
    have := p.shorter
    let ⟨rest, h⟩ ← finish p.rest
    .ok ⟨.breaking, p.stop, rest, by omega⟩

mutual

/-- One statement; `break` is allowed directly inside the blocks of branches and loops. -/
def statement (source : List Char) (allowBreak : Bool) (ts : List Token) :
    Outcome (Parsed ts Statement) :=
  match ts with
  | [] => .error []
  | t :: rest =>
    match t.kind with
    | .keyword .ifWord => do .ok ((← branch source rest).weaken (by simp))
    | .keyword .whileWord => do
      let condition ← expression source rest
      have := condition.shorter
      let body ← block source true condition.rest
      have := body.shorter
      let text := Text.slice source t.start.offset body.stop
      .ok ⟨.loop text condition.value body.value, body.stop, body.rest, by grind⟩
    | .keyword .returnWord => do .ok ((← simple source .returning rest).weaken (by simp))
    | .keyword .printWord => do .ok ((← simple source .printing rest).weaken (by simp))
    | .keyword .breakWord => breakStatement allowBreak (t :: rest)
    | .keyword .fnWord => .error (t :: rest)
    | _ => simple source .expression (t :: rest)
termination_by 6 * ts.length + 1

/-- A branch from its condition on. Only line breaks may stand before its `else`. -/
def branch (source : List Char) (ts : List Token) : Outcome (Parsed ts Statement) := do
  let condition ← expression source ts
  have := condition.shorter
  let body ← block source true condition.rest
  have := body.shorter
  have := dropWhile_length_le Token.isNewline body.rest
  match hr : body.rest.dropWhile Token.isNewline with
  | [] => .ok ⟨.branch condition.value body.value none, body.stop, body.rest, by omega⟩
  | t :: more =>
    have : more.length < ts.length := by grind
    if t.isKeyword .elseWord then
      match hm : more with
      | [] => .error []
      | u :: inner =>
        if u.isKeyword .ifWord then do
          have : inner.length < ts.length := by grind
          let other ← branch source inner
          .ok ((other.map fun s => .branch condition.value body.value (some [s])).weaken (by omega))
        else do
          have : (u :: inner).length < ts.length := by grind
          let other ← block source true (u :: inner)
          .ok ((other.map fun ss => .branch condition.value body.value (some ss)).weaken (by omega))
    else .ok ⟨.branch condition.value body.value none, body.stop, body.rest, by omega⟩
termination_by 6 * ts.length + 0

/-- Statements in braces. -/
def block (source : List Char) (allowBreak : Bool) (ts : List Token) :
    Outcome (Parsed ts (List Statement)) := do
  let p ← accept (·.isMark .leftBrace) ts
  have := p.shorter
  let body ← statements source allowBreak p.rest
  .ok (body.weaken (by omega))
termination_by 6 * ts.length + 0

/-- Statements up to the closing brace. -/
def statements (source : List Char) (allowBreak : Bool) (ts : List Token) :
    Outcome (Parsed ts (List Statement)) := do
  have := dropWhile_length_le Token.isSeparator ts
  match hd : ts.dropWhile Token.isSeparator with
  | [] => .error []
  | t :: rest =>
    have : rest.length + 1 ≤ ts.length := by grind
    if t.isMark .rightBrace then .ok ⟨[], t.stop.offset, rest, by grind⟩
    else if t.isEnd then .error (t :: rest)
    else do
      let p ← statement source allowBreak (t :: rest)
      have := p.shorter
      have : p.rest.length < ts.length := by grind
      let q ← statements source allowBreak p.rest
      .ok ((q.map (p.value :: ·)).weaken (by omega))
termination_by 6 * ts.length + 2

end

/-- Parameter names up to the closing parenthesis, at least one. -/
def someParameters (ts : List Token) : Outcome (Parsed ts (List String)) := do
  let p ← identifier ts
  have := p.shorter
  match hr : p.rest with
  | [] => .error []
  | t :: more =>
    have : more.length < ts.length := by grind
    if t.isMark .rightParen then .ok ⟨[p.value], t.stop.offset, more, this⟩
    else if t.isMark .comma then do
      let q ← someParameters more
      .ok ((q.map (p.value :: ·)).weaken (by omega))
    else .error (t :: more)
termination_by ts.length

def parameters (ts : List Token) : Outcome (Parsed ts (List String)) :=
  match ts with
  | [] => .error []
  | t :: rest =>
    if t.isMark .rightParen then .ok ⟨[], t.stop.offset, rest, by simp⟩
    else someParameters (t :: rest)

def function (source : List Char) (ts : List Token) : Outcome (Parsed ts Function) := do
  let start ← accept (·.isKeyword .fnWord) ts
  have := start.shorter
  let name ← identifier start.rest
  have := name.shorter
  let opening ← accept (·.isMark .leftParen) name.rest
  have := opening.shorter
  let names ← parameters opening.rest
  have := names.shorter
  let body ← block source false names.rest
  have := body.shorter
  let text := Text.slice source start.value.start.offset body.stop
  .ok ⟨⟨name.value, text, names.value, body.value⟩, body.stop, body.rest, by omega⟩

/-- Statements and functions up to the end of the input. -/
def program (source : List Char) (ts : List Token) : Outcome Program := do
  have := dropWhile_length_le Token.isSeparator ts
  match hd : ts.dropWhile Token.isSeparator with
  | [] => .ok ⟨[], []⟩
  | t :: rest =>
    if t.isEnd then .ok ⟨[], []⟩
    else if t.isKeyword .fnWord then do
      let p ← function source (t :: rest)
      have : p.rest.length < ts.length := by have := p.shorter; grind
      let tail ← program source p.rest
      .ok { tail with functions := p.value :: tail.functions }
    else do
      let p ← statement source false (t :: rest)
      have : p.rest.length < ts.length := by have := p.shorter; grind
      let tail ← program source p.rest
      .ok { tail with statements := p.value :: tail.statements }
termination_by ts.length

/-- The place of the first of some tokens, or the end of the source. -/
def placeOf (source : List Char) : List Token → Location
  | [] => Location.start.after source
  | t :: _ => t.start

end Abacus.Parse

namespace Abacus

/-- Parses tokens of the given source. -/
def parseTokens (source : String) (ts : List Token) : Except Diagnostic Program :=
  let cs := source.toList
  match Parse.program cs ts with
  | .ok p => .ok p
  | .error rest => .error (Scan.faultAt cs (Parse.placeOf cs rest) .malformed)

/-- The program of a source text. -/
def parse (source : String) : Except Diagnostic Program := do
  parseTokens source (← tokenize source)

end Abacus
