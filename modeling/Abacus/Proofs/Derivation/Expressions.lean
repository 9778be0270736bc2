import Abacus.Proofs.Derivation.Basic

/-!
Derivations of expressions as trees and as a relation.

A derivation tree of an expression says the same as the grammar's relation between tokens and terms.
So the parser of expressions reads the tokens of a tree, and whatever it reads has a tree.
-/
namespace Abacus

namespace Token

theorem number?_eq_some {t : Token} {x : Decimal} : t.number? = some x ↔ t.kind = .number x := by
  unfold number?
  cases t.kind <;> simp

theorem identifier?_eq_some {t : Token} {n : String} :
    t.identifier? = some n ↔ t.kind = .identifier n := by
  unfold identifier?
  cases t.kind <;> simp

end Token

namespace Derivation

open Parse (startOffset)
open Grammar (stopOffset Ends Gives)
open Precedence (Reads)

theorem kind_of_word {k : Keyword} (t : Word k) : t.val.kind = .keyword k := by
  simpa [Token.isKeyword] using t.property

/-! ### From trees to the relation -/

theorem compile_of_reads {context : String} {terms : List Term} {t : Tree}
    (h : Reads 0 terms t) : Postfix.compile context terms = ⟨context, t.postorder⟩ := by
  rw [Postfix.compile, h.reorder_eq]

mutual

theorem Primary.derived (source : List Char) (base : Nat) (p : Primary) :
    Grammar.Primary source base p.tokens (p.terms source base) := by
  match p with
  | .number t => exact .number (Token.number?_eq_some.mp t.reads)
  | .pi t => exact .pi (kind_of_word t)
  | .name t => exact .name (Token.identifier?_eq_some.mp t.reads)
  | .emptyCall t opening closing =>
    exact .emptyCall (Token.identifier?_eq_some.mp t.reads) opening.property closing.property
  | .call t opening arguments closing =>
    obtain ⟨trees, htrees, hexpressions⟩ := arguments.derived source
    rw [Primary.terms, hexpressions]
    exact .call (Token.identifier?_eq_some.mp t.reads) opening.property htrees closing.property
  | .parens opening inner closing =>
    exact .parens opening.property (inner.derived source base) closing.property

theorem Operand.derived (source : List Char) (base : Nat) (o : Operand) :
    Grammar.Operand source base o.tokens (o.terms source base) := by
  match o with
  | .primary p => exact .primary (p.derived source base)
  | .prefixed t h operand => exact .prefixed t.reads h (operand.derived source base)

theorem Chain.derived (source : List Char) (base : Nat) (c : Chain) :
    Grammar.Terms source base c.tokens (c.terms source base) := by
  match c with
  | .operand o => exact .operand (o.derived source base)
  | .link o t rest => exact .chain (o.derived source base) t.reads (rest.derived source base)

theorem Arguments.derived (source : List Char) (a : Arguments) :
    ∃ trees, Grammar.Arguments source a.tokens trees ∧
      a.expressions source = Tree.expressions trees := by
  match a with
  | .one c =>
    have hterms := c.derived source (startOffset c.tokens)
    obtain ⟨t, ht⟩ := hterms.reads
    refine ⟨_, .one hterms ht, ?_⟩
    simp only [Arguments.expressions, compile_of_reads ht, Tree.expressions, Arguments.tokens]
  | .more c comma rest =>
    have hterms := c.derived source (startOffset c.tokens)
    obtain ⟨t, ht⟩ := hterms.reads
    obtain ⟨trees, htrees, hexpressions⟩ := rest.derived source
    refine ⟨_, .more hterms ht comma.property htrees, ?_⟩
    simp only [Arguments.expressions, compile_of_reads ht, hexpressions, Tree.expressions]

end

/-! ### From the relation to trees -/

mutual

theorem exists_primary {source : List Char} {base : Nat} {ts : List Token} {terms : List Term}
    (h : Grammar.Primary source base ts terms) :
    ∃ p : Primary, p.tokens = ts ∧ p.terms source base = terms := by
  match h with
  | @Grammar.Primary.number _ _ t x ht =>
    exact ⟨.number ⟨t, x, Token.number?_eq_some.mpr ht⟩, rfl, rfl⟩
  | @Grammar.Primary.pi _ _ t ht => exact ⟨.pi ⟨t, by simp [Token.isKeyword, ht]⟩, rfl, rfl⟩
  | @Grammar.Primary.name _ _ t n ht =>
    exact ⟨.name ⟨t, n, Token.identifier?_eq_some.mpr ht⟩, rfl, rfl⟩
  | @Grammar.Primary.emptyCall _ _ t u v n ht hu hv =>
    exact ⟨.emptyCall ⟨t, n, Token.identifier?_eq_some.mpr ht⟩ ⟨u, hu⟩ ⟨v, hv⟩, rfl, rfl⟩
  | @Grammar.Primary.call _ _ t u v n ts trees ht hu h hv =>
    obtain ⟨a, rfl, ha⟩ := exists_arguments h
    refine ⟨.call ⟨t, n, Token.identifier?_eq_some.mpr ht⟩ ⟨u, hu⟩ a ⟨v, hv⟩, rfl, ?_⟩
    rw [Primary.terms, ha]
    rfl
  | @Grammar.Primary.parens _ _ t u ts terms ht h hu =>
    obtain ⟨c, rfl, rfl⟩ := exists_chain h
    exact ⟨.parens ⟨t, ht⟩ c ⟨u, hu⟩, rfl, rfl⟩

theorem exists_operand {source : List Char} {base : Nat} {ts : List Token} {terms : List Term}
    (h : Grammar.Operand source base ts terms) :
    ∃ o : Operand, o.tokens = ts ∧ o.terms source base = terms := by
  match h with
  | .primary h =>
    obtain ⟨p, rfl, rfl⟩ := exists_primary h
    exact ⟨.primary p, rfl, rfl⟩
  | @Grammar.Operand.prefixed _ _ t op ts terms ht hop h =>
    obtain ⟨o, rfl, rfl⟩ := exists_operand h
    exact ⟨.prefixed ⟨t, op, ht⟩ hop o, rfl, rfl⟩

theorem exists_chain {source : List Char} {base : Nat} {ts : List Token} {terms : List Term}
    (h : Grammar.Terms source base ts terms) :
    ∃ c : Chain, c.tokens = ts ∧ c.terms source base = terms := by
  match h with
  | .operand h =>
    obtain ⟨o, rfl, rfl⟩ := exists_operand h
    exact ⟨.operand o, rfl, rfl⟩
  | @Grammar.Terms.chain _ _ t op ts us terms more h ht hmore =>
    obtain ⟨o, rfl, rfl⟩ := exists_operand h
    obtain ⟨c, rfl, rfl⟩ := exists_chain hmore
    exact ⟨.link o ⟨t, op, ht⟩ c, rfl, rfl⟩

theorem exists_arguments {source : List Char} {ts : List Token} {trees : List (String × Tree)}
    (h : Grammar.Arguments source ts trees) :
    ∃ a : Arguments, a.tokens = ts ∧ a.expressions source = Tree.expressions trees := by
  match h with
  | .one h ht =>
    obtain ⟨c, rfl, rfl⟩ := exists_chain h
    refine ⟨.one c, rfl, ?_⟩
    simp only [Arguments.expressions, compile_of_reads ht, Tree.expressions]
  | @Grammar.Arguments.more _ ts us terms t c trees h ht hc hmore =>
    obtain ⟨first, rfl, rfl⟩ := exists_chain h
    obtain ⟨rest, rfl, hrest⟩ := exists_arguments hmore
    refine ⟨.more first ⟨c, hc⟩ rest, rfl, ?_⟩
    simp only [Arguments.expressions, compile_of_reads ht, hrest, Tree.expressions]

end

/-! ### The parser of expressions -/

theorem Chain.parse (source : List Char) (c : Chain) {rest : List Token}
    (hrest : Ends c.tokens rest) :
    Gives (Parse.expression source (c.tokens ++ rest)) (c.expression source)
      (stopOffset c.tokens) rest := by
  have hterms := c.derived source (startOffset c.tokens)
  obtain ⟨t, ht⟩ := hterms.reads
  rw [Chain.expression, compile_of_reads ht]
  exact Grammar.expression_gives hterms.ne_nil ht (hterms.parse hrest)

theorem exists_chain_of_parse {source : List Char} {ts rest : List Token} {e : Expression}
    {stop : Nat} (hts : ∀ t ∈ ts, Grammar.Proper t)
    (h : Gives (Parse.expression source ts) e stop rest) :
    ∃ c : Chain, ts = c.tokens ++ rest ∧ e = c.expression source ∧
      stop = stopOffset c.tokens := by
  obtain ⟨used, terms, t, hused, hterms, ht, he, hstop⟩ := Grammar.expression_derives hts h
  obtain ⟨c, rfl, rfl⟩ := exists_chain hterms
  exact ⟨c, hused, by rw [he, Chain.expression, compile_of_reads ht], hstop⟩

end Derivation

end Abacus
