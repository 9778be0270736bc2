import Abacus.Proofs.Derivation.Slices

/-!
Positions.

Each term of an expression is made from a token of its own, and its position leads to this token in
the text of the expression, from whichever expression around it one looks.
-/
namespace Abacus

open Parse (positionIn startOffset)
open Grammar (textOf)

namespace Term

/-- The source text of a term. -/
def Spelled : Term → List Char → Prop
  | number _ x, cs =>
    (TokenKind.number x).Spells cs ∨ x = Numeric.pi ∧ (TokenKind.keyword .piWord).Spells cs
  | name _ n, cs => cs = n.toList
  | call _ n _ _, cs => cs = n.toList
  | operator _ op, cs => cs = op.symbol.toList
  | parenthesis _ .left, cs => cs = ['(']
  | parenthesis _ .right, cs => cs = [')']

/-- The term is made from a token of an expression that starts at offset `base`, and its position
leads to the text of the token in the text of the expression. -/
structure PointsTo (x : Term) (t : Token) (base : Nat) (context : List Char) : Prop where
  spelled : x.Spelled t.lexeme.toList
  offset : x.position = positionIn base t
  nonneg : 0 ≤ x.position
  inside : x.position < context.length
  here : t.lexeme.toList <+: context.drop x.position.toNat
  nonempty : t.lexeme.toList ≠ []
  oneLine : '\n' ∉ t.lexeme.toList

end Term

namespace Derivation

open Scan (Steps)

/-! ### Operators -/

theorem spells_of_prefixOperator? {t : Token} {op : Operator} (h : t.prefixOperator? = some op) :
    t.kind ≠ .newline ∧ ∀ cs, t.kind.Spells cs → cs = op.symbol.toList := by
  unfold Token.prefixOperator? at h
  split at h
  · next hk =>
    cases h
    exact ⟨by simp [hk], fun cs hcs => by rw [hk] at hcs; exact hcs⟩
  · next hk =>
    cases h
    exact ⟨by simp [hk], fun cs hcs => by rw [hk] at hcs; exact hcs⟩
  · next hk =>
    cases h
    exact ⟨by simp [hk], fun cs hcs => by rw [hk] at hcs; exact hcs⟩
  · cases h

theorem spells_of_binaryOperator? {t : Token} {op : Operator} (h : t.binaryOperator? = some op) :
    t.kind ≠ .newline ∧ ∀ cs, t.kind.Spells cs → cs = op.symbol.toList := by
  unfold Token.binaryOperator? at h
  split at h
  case h_14 => cases h
  all_goals
    next hk =>
    cases h
    exact ⟨by simp [hk], fun cs hcs => by rw [hk] at hcs; exact hcs⟩

/-! ### Terms and their tokens -/

/-- Where a term comes from: a token with its position and its text, and derivations of the
arguments if it is a call. -/
structure Rooted (source : List Char) (base : Nat) (ts : List Token) (x : Term) : Prop where
  token : ∃ t ∈ ts, x.position = positionIn base t ∧ t.kind ≠ .newline ∧
    ∀ cs, t.kind.Spells cs → x.Spelled cs
  arguments : ∀ p name text arguments, x = .call p name text arguments → ∀ a ∈ arguments,
    ∃ c : Chain, a = c.expression source ∧ c.tokens <:+: ts

section Rooted

variable {source : List Char} {base : Nat} {x : Term}

theorem Rooted.mono {ts us : List Token} (h : Rooted source base ts x) (hts : ts <:+: us) :
    Rooted source base us x where
  token := by
    obtain ⟨t, ht, hx⟩ := h.token
    exact ⟨t, hts.subset ht, hx⟩
  arguments p name text arguments hx a ha := by
    obtain ⟨c, hc, hcs⟩ := h.arguments p name text arguments hx a ha
    exact ⟨c, hc, hcs.trans hts⟩

theorem rooted_of_token {ts : List Token} {t : Token} (ht : t ∈ ts)
    (hx : x.position = positionIn base t) (hk : t.kind ≠ .newline)
    (hspelled : ∀ cs, t.kind.Spells cs → x.Spelled cs)
    (hcall : ∀ p name text arguments, x ≠ .call p name text arguments) :
    Rooted source base ts x :=
  ⟨⟨t, ht, hx, hk, hspelled⟩, fun p name text arguments h => absurd h (hcall p name text arguments)⟩

theorem Arguments.exists_chain (a : Arguments) {e : Expression} (he : e ∈ a.expressions source) :
    ∃ c : Chain, e = c.expression source ∧ c.tokens <:+: a.tokens := by
  match a with
  | .one c =>
    obtain rfl := List.mem_singleton.mp he
    exact ⟨c, rfl, List.infix_refl _⟩
  | .more c comma rest =>
    rcases List.mem_cons.mp he with rfl | he
    · exact ⟨c, rfl, (List.prefix_append _ _).isInfix⟩
    · obtain ⟨c', hc', hinfix⟩ := exists_chain rest he
      refine ⟨c', hc', hinfix.trans ?_⟩
      exact ((List.suffix_cons _ _).trans (List.suffix_append _ _)).isInfix

theorem rooted_call {ts : List Token} {t : Leaf Token.identifier?} (ht : t.token ∈ ts)
    {text : String} {arguments : List Expression}
    (harguments : ∀ a ∈ arguments, ∃ c : Chain, a = c.expression source ∧ c.tokens <:+: ts) :
    Rooted source base ts (.call (positionIn base t.token) t.value text arguments) where
  token := by
    have hk := Token.identifier?_eq_some.mp t.reads
    refine ⟨t.token, ht, rfl, by simp [hk], fun cs hcs => ?_⟩
    rw [hk] at hcs
    exact hcs.1
  arguments p name text arguments h := by
    cases h
    exact harguments

mutual

theorem Primary.rooted (p : Primary) (hx : x ∈ p.terms source base) :
    Rooted source base p.tokens x := by
  match p with
  | .number t =>
    have hk := Token.number?_eq_some.mp t.reads
    obtain rfl := List.mem_singleton.mp hx
    refine rooted_of_token (List.mem_singleton_self _) rfl (by simp [hk]) ?_ (by simp)
    intro cs hcs
    rw [hk] at hcs
    exact .inl hcs
  | .pi t =>
    have hk := kind_of_word t
    obtain rfl := List.mem_singleton.mp hx
    refine rooted_of_token (List.mem_singleton_self _) rfl (by simp [hk]) ?_ (by simp)
    intro cs hcs
    rw [hk] at hcs
    exact .inr ⟨rfl, hcs⟩
  | .name t =>
    have hk := Token.identifier?_eq_some.mp t.reads
    obtain rfl := List.mem_singleton.mp hx
    refine rooted_of_token (List.mem_singleton_self _) rfl (by simp [hk]) ?_ (by simp)
    intro cs hcs
    rw [hk] at hcs
    exact hcs.1
  | .emptyCall t opening closing =>
    obtain rfl := List.mem_singleton.mp hx
    exact rooted_call (by simp [Primary.tokens]) (by simp)
  | .call t opening arguments closing =>
    obtain rfl := List.mem_singleton.mp hx
    refine rooted_call (by simp [Primary.tokens]) fun a ha => ?_
    obtain ⟨c, hc, hinfix⟩ := arguments.exists_chain ha
    exact ⟨c, hc, hinfix.trans ⟨[t.token, opening.val], [closing.val], by simp [Primary.tokens]⟩⟩
  | .parens opening inner closing =>
    simp only [Primary.terms, List.cons_append, List.mem_cons, List.mem_append,
      List.not_mem_nil, or_false] at hx
    have hmark : ∀ {m : Mark} {t : Marked m} {cs : List Char}, t.val.kind.Spells cs →
        cs = m.text := by
      intro m t cs hcs
      rw [Grammar.kind_of_isMark t.property] at hcs
      exact hcs
    rcases hx with rfl | hx | rfl
    · exact rooted_of_token (by simp [Primary.tokens]) rfl
        (by simp [Grammar.kind_of_isMark opening.property]) (fun cs hcs => hmark hcs) (by simp)
    · exact (inner.rooted hx).mono ⟨[opening.val], [closing.val], by simp [Primary.tokens]⟩
    · exact rooted_of_token (by simp [Primary.tokens]) rfl
        (by simp [Grammar.kind_of_isMark closing.property]) (fun cs hcs => hmark hcs) (by simp)

theorem Operand.rooted (o : Operand) (hx : x ∈ o.terms source base) :
    Rooted source base o.tokens x := by
  match o with
  | .primary p => exact p.rooted hx
  | .prefixed t _ o =>
    rcases List.mem_cons.mp hx with rfl | hx
    · obtain ⟨hk, hspelled⟩ := spells_of_prefixOperator? t.reads
      exact rooted_of_token (by simp [Operand.tokens]) rfl hk hspelled (by simp)
    · exact (o.rooted hx).mono (List.suffix_cons _ _).isInfix

theorem Chain.rooted (c : Chain) (hx : x ∈ c.terms source base) :
    Rooted source base c.tokens x := by
  match c with
  | .operand o => exact o.rooted hx
  | .link o t rest =>
    rcases List.mem_append.mp hx with hx | hx
    · exact (o.rooted hx).mono (List.prefix_append _ _).isInfix
    rcases List.mem_cons.mp hx with rfl | hx
    · obtain ⟨hk, hspelled⟩ := spells_of_binaryOperator? t.reads
      exact rooted_of_token (by simp [Chain.tokens]) rfl hk hspelled (by simp)
    · refine (rest.rooted hx).mono ?_
      exact ((List.suffix_cons _ _).trans (List.suffix_append _ _)).isInfix

end

theorem Chain.rooted_of_mem (c : Chain) (hx : x ∈ (c.expression source).terms) :
    Rooted source (startOffset c.tokens) c.tokens x := by
  obtain ⟨t, ht⟩ := (c.derived source (startOffset c.tokens)).reads
  rw [Chain.expression, compile_of_reads ht] at hx
  exact c.rooted (ht.mem_of_mem_postorder hx)

/-- The expressions in an expression are derived from tokens of its own. -/
theorem Chain.exists_within {e outer : Expression} (h : e.Within outer) (c : Chain)
    (hc : outer = c.expression source) :
    ∃ c' : Chain, e = c'.expression source ∧ c'.tokens <:+: c.tokens := by
  induction h generalizing c with
  | self => exact ⟨c, hc, List.infix_refl _⟩
  | argument ht ha _ ih =>
    rw [hc] at ht
    obtain ⟨c₁, hc₁, hinfix₁⟩ := (c.rooted_of_mem ht).arguments _ _ _ _ rfl _ ha
    obtain ⟨c₂, hc₂, hinfix₂⟩ := ih c₁ hc₁
    exact ⟨c₂, hc₂, hinfix₂.trans hinfix₁⟩

end Rooted

/-! ### Positions in the text -/

/-- Each term of an expression that stands in a source points to its own token. -/
theorem Chain.pointsTo {source : List Char} {ts : List Token} {last : Scan.Point}
    (hsteps : Steps ⟨0, .start, source⟩ ts last) (c : Chain) (hc : c.tokens <:+: ts) {x : Term}
    (hx : x ∈ (c.expression source).terms) :
    ∃ t ∈ c.tokens, x.PointsTo t (startOffset c.tokens) (c.expression source).context.toList := by
  obtain ⟨us, ws, rfl⟩ := hc
  rw [List.append_assoc] at hsteps
  obtain ⟨front, text, l, s, hsource, hl, hstart, htext, htakes⟩ :=
    exists_text hsteps c.begins.ne_nil
  obtain ⟨t, ht, hposition, hk, hspelled⟩ := (c.rooted_of_mem hx).token
  obtain ⟨before, taken, after, rfl, hbefore, -, hne, hspells, hlexeme⟩ := htakes.stands t ht
  have htaken : t.lexeme.toList = taken := by
    rw [hlexeme hk, String.toList_ofList]
  -- the text of the expression starts with its first token, from which positions count as well
  have hx : x.position = before.length := by
    have hoffset : t.start.offset = front.length + before.length := by
      rw [hbefore, Location.offset_after, hl]
    rw [hposition, positionIn, hoffset, hstart]
    omega
  have hcontext : (c.expression source).context.toList = before ++ (taken ++ after) := by
    rw [Chain.expression, Postfix.compile, htext, String.toList_ofList]
  have hlength := List.length_pos_iff.mpr hne
  refine ⟨t, ht, ?_, hposition, by omega, ?_, ?_, ?_, ?_⟩
  · rw [htaken]
    exact hspelled taken hspells
  · rw [hcontext, hx, List.length_append, List.length_append]
    omega
  · rw [hcontext, hx, Int.toNat_natCast, List.drop_left, htaken]
    exact List.prefix_append taken after
  · rwa [htaken]
  · rw [htaken]
    exact Reading.spells_without_newline hspells hk

/-- The expression is derived from tokens of a script: its text is the source from the first to the
last of them, and each of its terms points to one of them. -/
structure Located (source : String) (ts : List Token) (c : Chain) (e : Expression) : Prop where
  tokens : c.tokens <:+: ts
  derived : e = c.expression source.toList
  context : e.context = textOf source.toList c.tokens
  points : ∀ x ∈ e.terms, ∃ t ∈ c.tokens, x.PointsTo t (startOffset c.tokens) e.context.toList

/-- Every expression of a program is located in its script. -/
theorem exists_located {source : String} {ts : List Token} (hts : tokenize source = .ok ts)
    {p : Program} (hp : parseTokens source ts = .ok p) {e : Expression} (he : p.Holds e) :
    ∃ c, Located source ts c e := by
  obtain ⟨d, rfl, rfl⟩ := exists_script hts hp
  obtain ⟨us, s, here, hsteps, -, hus⟩ := tokenize_eq_ok_iff.mp hts
  obtain ⟨hd, -⟩ := List.append_inj' hus rfl
  obtain ⟨t, ht, outer, houter, hwithin⟩ := he
  obtain ⟨c, hc, hstands⟩ := (d.statements.contains_traced ht).expression outer houter
  obtain ⟨c', rfl, hinfix⟩ := Chain.exists_within hwithin c hc
  have htokens : c'.tokens <:+: d.statements.tokens := hinfix.trans hstands.infix
  refine ⟨c', htokens.trans (List.prefix_append _ _).isInfix, rfl, rfl, fun x hx => ?_⟩
  exact c'.pointsTo hsteps (hd ▸ htokens) hx

end Derivation

end Abacus
