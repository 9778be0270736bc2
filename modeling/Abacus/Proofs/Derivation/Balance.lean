import Abacus.Proofs.Derivation.Lookahead
import Abacus.Proofs.Script.Scanning

/-!
In what the grammar derives, every parenthesis that is opened is closed again, and the end of the
input stands behind everything else.
-/
namespace Abacus.Derivation

open Scan (depthBehind)

structure Balanced (ts : List Token) : Prop where
  depth : ∀ n, depthBehind n ts = n
  notEnd : ∀ t ∈ ts, t.isEnd = false

theorem balanced_nil : Balanced [] := ⟨fun _ => rfl, by simp⟩

theorem Balanced.append {ts us : List Token} (ht : Balanced ts) (hu : Balanced us) :
    Balanced (ts ++ us) where
  depth n := by rw [Scan.depthBehind_append, ht.depth, hu.depth]
  notEnd t h := (List.mem_append.mp h).elim (ht.notEnd t) (hu.notEnd t)

/-- Tokens other than parentheses and the end. -/
def Plain (t : Token) : Prop :=
  t.kind ≠ .mark .leftParen ∧ t.kind ≠ .mark .rightParen ∧ t.kind ≠ .endOfInput

theorem plain_of_kind {t : Token} {k : TokenKind} (h : t.kind = k)
    (hk : k ≠ .mark .leftParen ∧ k ≠ .mark .rightParen ∧ k ≠ .endOfInput) : Plain t := by
  rwa [Plain, h]

theorem Plain.depthAfter {t : Token} (h : Plain t) (n : Nat) : Scan.depthAfter n t.kind = n := by
  unfold Scan.depthAfter
  split
  · next hk => exact absurd hk h.1
  · next hk => exact absurd hk h.2.1
  · rfl

theorem Plain.balanced {t : Token} (h : Plain t) : Balanced [t] where
  depth := h.depthAfter
  notEnd u hu := by
    obtain rfl := List.mem_singleton.mp hu
    simpa [Token.isEnd] using h.2.2

theorem Balanced.cons {t : Token} {ts : List Token} (ht : Plain t) (hts : Balanced ts) :
    Balanced (t :: ts) := ht.balanced.append hts

theorem Balanced.parens {t u : Token} {ts : List Token} (ht : t.isMark .leftParen = true)
    (h : Balanced ts) (hu : u.isMark .rightParen = true) : Balanced (t :: ts ++ [u]) where
  depth n := by
    have hopen : Scan.depthAfter n t.kind = n + 1 := by rw [Grammar.kind_of_isMark ht]; rfl
    have hclose : Scan.depthAfter (n + 1) u.kind = n := by rw [Grammar.kind_of_isMark hu]; rfl
    simp only [Scan.depthBehind_append, Scan.depthBehind_cons, Scan.depthBehind_nil, hopen,
      h.depth, hclose]
  notEnd v hv := by
    rw [List.cons_append, List.mem_cons, List.mem_append, List.mem_singleton] at hv
    rcases hv with rfl | hv | rfl
    · simp [Token.isEnd, Grammar.kind_of_isMark ht]
    · exact h.notEnd v hv
    · simp [Token.isEnd, Grammar.kind_of_isMark hu]

/-! ### Leaves -/

theorem plain_mark {m : Mark} (t : Marked m) (hleft : m ≠ .leftParen) (hright : m ≠ .rightParen) :
    Plain t.val :=
  plain_of_kind (Grammar.kind_of_isMark t.property) (by simp [hleft, hright])

theorem plain_word {k : Keyword} (t : Word k) : Plain t.val :=
  plain_of_kind (kind_of_word t) (by simp)

theorem plain_name (t : Leaf Token.identifier?) : Plain t.token :=
  plain_of_kind (Token.identifier?_eq_some.mp t.reads) (by simp)

theorem plain_separator {t : Token} (h : t.isSeparator = true) : Plain t := by
  rcases kind_of_isSeparator h with hk | hk <;> exact plain_of_kind hk (by simp)

theorem plain_leading (t : Leaf Token.prefixOperator?) : Plain t.token := by
  have hread := t.reads
  unfold Token.prefixOperator? at hread
  split at hread
  · next hk => exact plain_of_kind hk (by simp)
  · next hk => exact plain_of_kind hk (by simp)
  · next hk => exact plain_of_kind hk (by simp)
  · cases hread

theorem plain_binary (t : Leaf Token.binaryOperator?) : Plain t.token := by
  have hread := t.reads
  refine ⟨fun hk => ?_, fun hk => ?_, fun hk => ?_⟩ <;> simp [Token.binaryOperator?, hk] at hread

theorem balanced_separators (separators : List Separator) : Balanced separators.unattach := by
  induction separators with
  | nil => exact balanced_nil
  | cons s separators ih => exact .cons (plain_separator s.property) ih

theorem balanced_newlines (newlines : List Newline) : Balanced newlines.unattach := by
  induction newlines with
  | nil => exact balanced_nil
  | cons t newlines ih =>
    have ht : t.val.isSeparator = true := by simp [Token.isSeparator, t.property]
    exact .cons (plain_separator ht) ih

/-! ### Derivations -/

mutual

theorem Primary.balanced (p : Primary) : Balanced p.tokens := by
  match p with
  | .number t => exact (plain_of_kind (Token.number?_eq_some.mp t.reads) (by simp)).balanced
  | .pi t => exact (plain_word t).balanced
  | .name t => exact (plain_name t).balanced
  | .emptyCall t opening closing =>
    exact .cons (plain_name t) (.parens opening.property balanced_nil closing.property)
  | .call t opening arguments closing =>
    exact .cons (plain_name t) (.parens opening.property arguments.balanced closing.property)
  | .parens opening inner closing =>
    exact .parens opening.property inner.balanced closing.property

theorem Operand.balanced (o : Operand) : Balanced o.tokens := by
  match o with
  | .primary p => exact p.balanced
  | .prefixed t _ operand => exact .cons (plain_leading t) operand.balanced

theorem Chain.balanced (c : Chain) : Balanced c.tokens := by
  match c with
  | .operand o => exact o.balanced
  | .link o t rest => exact o.balanced.append (.cons (plain_binary t) rest.balanced)

theorem Arguments.balanced (a : Arguments) : Balanced a.tokens := by
  match a with
  | .one c => exact c.balanced
  | .more c comma rest =>
    exact c.balanced.append (.cons (plain_mark comma (by simp) (by simp)) rest.balanced)

end

theorem Parameters.balanced (ps : Parameters) : Balanced ps.tokens := by
  induction ps with
  | one name => exact (plain_name name).balanced
  | more name comma rest ih =>
    exact .cons (plain_name name) (.cons (plain_mark comma (by simp) (by simp)) ih)

theorem balanced_parameters (parameters : Option Parameters) :
    Balanced (parameterTokens parameters) := by
  cases parameters with
  | none => exact balanced_nil
  | some ps => exact ps.balanced

theorem Simple.balanced {place : Place} (s : Simple place) : Balanced s.tokens := by
  cases s with
  | expression c => exact c.balanced
  | returning word c => exact .cons (plain_word word) c.balanced
  | printing word c => exact .cons (plain_word word) c.balanced
  | breaking word => exact (plain_word word).balanced

mutual

theorem Branch.balanced (b : Branch) : Balanced b.tokens := by
  match b with
  | .mk condition body otherwise =>
    exact (condition.balanced.append body.balanced).append otherwise.balanced

theorem Otherwise.balanced (o : Otherwise) : Balanced o.tokens := by
  match o with
  | .none => exact balanced_nil
  | .block newlines word body =>
    exact (balanced_newlines newlines).append (.cons (plain_word word) body.balanced)
  | .branch newlines word start other =>
    exact (balanced_newlines newlines).append
      (.cons (plain_word word) (.cons (plain_word start) other.balanced))

theorem Compound.balanced (c : Compound) : Balanced c.tokens := by
  match c with
  | .branch start b => exact .cons (plain_word start) b.balanced
  | .loop start condition body =>
    exact .cons (plain_word start) (condition.balanced.append body.balanced)

theorem Block.balanced {place : Place} (b : Block place) : Balanced b.tokens := by
  match b with
  | .mk opening body closing =>
    exact .cons (plain_mark opening (by simp) (by simp))
      (body.balanced.append (plain_mark closing (by simp) (by simp)).balanced)

theorem Statements.balanced {place : Place} (d : Statements place) : Balanced d.tokens := by
  match d with
  | .done separators => exact balanced_separators separators
  | .last separators s => exact (balanced_separators separators).append s.balanced
  | .simple separators s separator rest =>
    exact ((balanced_separators separators).append s.balanced).append
      (.cons (plain_separator separator.property) rest.balanced)
  | .compound separators c rest =>
    exact ((balanced_separators separators).append c.balanced).append rest.balanced
  | .function separators f rest =>
    exact ((balanced_separators separators).append f.balanced).append rest.balanced

theorem Definition.balanced (f : Definition) : Balanced f.tokens := by
  match f with
  | .mk start name opening parameters closing body =>
    have hparens := Balanced.parens opening.property (balanced_parameters parameters)
      closing.property
    have h := Balanced.cons (plain_word start) (.cons (plain_name name)
      (hparens.append body.balanced))
    simpa [Definition.tokens] using h

end

end Abacus.Derivation
