import Abacus.Script.Token
import Abacus.Settings.Basic

/-!
How deeply a source is nested.

A session refuses sources that are nested far more deeply than its call limit suggests. The
allowance grows with the call limit. Each open parenthesis takes three units of it, and line breaks
that are dropped inside parentheses take one each until the next token comes.
-/
namespace Abacus.Nesting

/-- Open parentheses behind a token. -/
def openAfter (depth : Nat) (t : Token) : Nat :=
  if t.isMark .leftParen then depth + 1 else if t.isMark .rightParen then depth - 1 else depth

/-- The greatest number of parentheses open at once, from `depth` open ones on. -/
def deepest (depth : Nat) : List Token → Nat
  | [] => depth
  | t :: ts => max depth (deepest (openAfter depth t) ts)

/-- The greatest number of line breaks between two neighbouring tokens, the first token following
one that ends on the given line. -/
def widestGap (line : Nat) : List Token → Nat
  | [] => 0
  | t :: ts => max (t.start.line - line) (widestGap t.stop.line ts)

/-- Levels of the host's stack: 24 for each call that may be active, and 1000 for the rest. -/
def allowance (settings : Settings) : Nat := 24 * settings.callLimit + 1000

/-- Whether the tokens are nested more deeply than the allowance.

This approximates the limit of the host's stack on which sources are read. Open parentheses and
dropped line breaks are counted. Blocks inside blocks and chains of `else if` take up that stack as
well, but are not counted; sources in between may be accepted here and not there. -/
def isTooDeep (settings : Settings) (ts : List Token) : Bool :=
  allowance settings < 3 * deepest 0 ts || allowance settings < widestGap 1 ts

end Abacus.Nesting
