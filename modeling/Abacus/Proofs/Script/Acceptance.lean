import Abacus.Proofs.Script.Grammar

/-!
The parser of expressions accepts what the grammar derives.

Behind an expression the parser stops, unless the next token goes on with it: a binary operator
does, and so does an opening parenthesis behind a name, which makes it a call.
-/
namespace Abacus.Grammar

open Parse (positionIn startOffset Outcome Parsed)
open Precedence (Reads)

/-- What a parser returns, apart from its proof of progress. -/
def Gives {us : List Token} {α : Type} (o : Outcome (Parsed us α)) (a : α) (stop : Nat)
    (rest : List Token) : Prop :=
  ∃ p, o = .ok p ∧ p.value = a ∧ p.stop = stop ∧ p.rest = rest

theorem Gives.bind {us vs : List Token} {α β : Type} {o : Outcome (Parsed us α)}
    {f : Parsed us α → Outcome (Parsed vs β)} {a : α} {b : β} {stop stop' : Nat}
    {rest rest' : List Token} (h : Gives o a stop rest)
    (hf : ∀ p : Parsed us α, p.value = a → p.stop = stop → p.rest = rest →
      Gives (f p) b stop' rest') : Gives (o >>= f) b stop' rest' := by
  obtain ⟨p, rfl, hvalue, hstop, hrest⟩ := h
  exact hf p hvalue hstop hrest

theorem gives_bind_iff {us vs : List Token} {α β : Type} {o : Outcome (Parsed us α)}
    {f : Parsed us α → Outcome (Parsed vs β)} {b : β} {stop : Nat} {rest : List Token} :
    Gives (o >>= f) b stop rest ↔ ∃ p, o = .ok p ∧ Gives (f p) b stop rest := by
  constructor
  · intro h
    cases o with
    | error e =>
      obtain ⟨q, hq, -⟩ := h
      cases hq
    | ok p => exact ⟨p, rfl, h⟩
  · rintro ⟨p, rfl, h⟩
    exact h

/-! ### Where an expression ends -/

/-- The next token does not turn a name at the end into a call. -/
def NoCall (ts rest : List Token) : Prop :=
  ∀ u ∈ rest.head?, u.isMark .leftParen = true → ∀ t ∈ ts.getLast?, ∀ n, t.kind ≠ .identifier n

/-- The next token does not go on with an expression. -/
def Ends (ts rest : List Token) : Prop :=
  NoCall ts rest ∧ ∀ u ∈ rest.head?, u.binaryOperator? = none

theorem kind_of_isMark {m : Mark} {t : Token} (h : t.isMark m = true) : t.kind = .mark m := by
  simpa [Token.isMark] using h

theorem ends_of_closing {u : Token} (hu : u.isMark .rightParen = true) (ts rest : List Token) :
    Ends ts (u :: rest) := by
  simp [Ends, NoCall, Token.isMark, Token.binaryOperator?, kind_of_isMark hu]

theorem ends_of_comma {u : Token} (hu : u.isMark .comma = true) (ts rest : List Token) :
    Ends ts (u :: rest) := by
  simp [Ends, NoCall, Token.isMark, Token.binaryOperator?, kind_of_isMark hu]

theorem noCall_of_binaryOperator? {u : Token} {op : Operator} (hu : u.binaryOperator? = some op)
    (ts rest : List Token) : NoCall ts (u :: rest) := by
  intro v hv hleft
  obtain rfl : u = v := by simpa using hv
  simp [Token.binaryOperator?, kind_of_isMark hleft] at hu

theorem getLast?_append_of_ne_nil {us : List Token} (h : us ≠ []) (ts : List Token) :
    (ts ++ us).getLast? = us.getLast? := by
  rw [List.getLast?_append, List.getLast?_eq_some_getLast h, Option.some_or]

theorem stopOffset_append {us : List Token} (h : us ≠ []) (ts : List Token) :
    stopOffset (ts ++ us) = stopOffset us := by
  rw [stopOffset, getLast?_append_of_ne_nil h, stopOffset]

theorem stopOffset_concat (ts : List Token) (t : Token) :
    stopOffset (ts ++ [t]) = t.stop.offset := by
  simp [stopOffset]

theorem noCall_append {us rest : List Token} (h : us ≠ []) (ts : List Token) :
    NoCall (ts ++ us) rest ↔ NoCall us rest := by
  rw [NoCall, getLast?_append_of_ne_nil h, NoCall]

theorem ends_append {us rest : List Token} (h : us ≠ []) (ts : List Token) :
    Ends (ts ++ us) rest ↔ Ends us rest := by
  rw [Ends, noCall_append h, Ends]

/-! ### How an expression starts -/

theorem Primary.head {source : List Char} {base : Nat} {ts : List Token} {terms : List Term}
    (h : Primary source base ts terms) :
    ∃ t us, ts = t :: us ∧ t.isMark .rightParen = false ∧ t.prefixOperator? = none := by
  cases h with
  | number ht | pi ht | name ht | emptyCall ht | call ht =>
    exact ⟨_, _, rfl, by simp [Token.isMark, ht], by simp [Token.prefixOperator?, ht]⟩
  | parens ht =>
    have ht := kind_of_isMark ht
    exact ⟨_, _, rfl, by simp [Token.isMark, ht], by simp [Token.prefixOperator?, ht]⟩

theorem Operand.head {source : List Char} {base : Nat} {ts : List Token} {terms : List Term}
    (h : Operand source base ts terms) : ∃ t us, ts = t :: us ∧ t.isMark .rightParen = false := by
  cases h with
  | primary h =>
    obtain ⟨t, us, hts, ht, -⟩ := h.head
    exact ⟨t, us, hts, ht⟩
  | @prefixed _ t op us _ ht _ _ =>
    refine ⟨t, us, rfl, Bool.eq_false_iff.mpr fun hclose => ?_⟩
    simp [Token.prefixOperator?, kind_of_isMark hclose] at ht

theorem Terms.head {source : List Char} {base : Nat} {ts : List Token} {terms : List Term}
    (h : Terms source base ts terms) : ∃ t us, ts = t :: us ∧ t.isMark .rightParen = false := by
  cases h with
  | operand h => exact h.head
  | chain h _ _ =>
    obtain ⟨t, us, rfl, ht⟩ := h.head
    exact ⟨t, _, rfl, ht⟩

theorem Arguments.head {source : List Char} {ts : List Token} {arguments : List (String × Tree)}
    (h : Arguments source ts arguments) : ∃ t us, ts = t :: us ∧ t.isMark .rightParen = false := by
  cases h with
  | one h _ => exact h.head
  | more h _ _ _ =>
    obtain ⟨t, us, rfl, ht⟩ := h.head
    exact ⟨t, _, rfl, ht⟩

theorem Operand.ne_nil {source : List Char} {base : Nat} {ts : List Token} {terms : List Term}
    (h : Operand source base ts terms) : ts ≠ [] := by
  obtain ⟨t, us, rfl, -⟩ := h.head
  exact List.cons_ne_nil t us

theorem Terms.ne_nil {source : List Char} {base : Nat} {ts : List Token} {terms : List Term}
    (h : Terms source base ts terms) : ts ≠ [] := by
  obtain ⟨t, us, rfl, -⟩ := h.head
  exact List.cons_ne_nil t us

/-! ### The parsers, one at a time -/

theorem accept_gives {q : Token → Bool} {t : Token} (ht : q t = true) {us rest : List Token}
    (h : us = t :: rest) : Gives (Parse.accept q us) t t.stop.offset rest := by
  subst h
  simp only [Parse.accept, ht, if_true]
  exact ⟨_, rfl, rfl, rfl, rfl⟩

theorem operand_gives_iff {source : List Char} {base : Nat} {ts rest : List Token}
    {terms : List Term} {stop : Nat} :
    Gives (Parse.operand source base ts) terms stop rest ↔
      ∃ more, terms = Parse.prefixTerms base (ts.takeWhile Parse.isPrefixOperator) ++ more ∧
        Gives (Parse.primary source base (ts.dropWhile Parse.isPrefixOperator)) more stop rest := by
  rw [Parse.operand]
  constructor
  · intro h
    obtain ⟨p, hp, q, hq, rfl, rfl, rfl⟩ := gives_bind_iff.mp h
    cases hq
    exact ⟨_, rfl, p, hp, rfl, rfl, rfl⟩
  · rintro ⟨more, rfl, h⟩
    refine h.bind fun p hvalue hstop hrest => ⟨_, rfl, ?_, hstop, hrest⟩
    simp [Parsed.map, Parsed.weaken, hvalue]

theorem operand_of_primary {source : List Char} {base : Nat} {t : Token} {ts rest : List Token}
    {terms : List Term} {stop : Nat} (ht : t.prefixOperator? = none)
    (h : Gives (Parse.primary source base (t :: ts)) terms stop rest) :
    Gives (Parse.operand source base (t :: ts)) terms stop rest := by
  have hnot : ¬ Parse.isPrefixOperator t = true := by simp [Parse.isPrefixOperator, ht]
  rw [operand_gives_iff, List.takeWhile_cons_of_neg hnot, List.dropWhile_cons_of_neg hnot]
  exact ⟨terms, rfl, h⟩

theorem operand_of_prefixed {source : List Char} {base : Nat} {t : Token} {op : Operator}
    {ts rest : List Token} {terms : List Term} {stop : Nat} (ht : t.prefixOperator? = some op)
    (h : Gives (Parse.operand source base ts) terms stop rest) :
    Gives (Parse.operand source base (t :: ts)) (.operator (positionIn base t) op :: terms) stop
      rest := by
  have hp : Parse.isPrefixOperator t = true := by simp [Parse.isPrefixOperator, ht]
  obtain ⟨more, rfl, hprimary⟩ := operand_gives_iff.mp h
  rw [operand_gives_iff, List.takeWhile_cons_of_pos hp, List.dropWhile_cons_of_pos hp]
  exact ⟨more, by simp [Parse.prefixTerms, ht], hprimary⟩

theorem expression_gives {source : List Char} {ts rest : List Token} {terms : List Term} {t : Tree}
    (hts : ts ≠ []) (ht : Reads 0 terms t)
    (h : Gives (Parse.terms source (startOffset ts) (ts ++ rest)) terms (stopOffset ts) rest) :
    Gives (Parse.expression source (ts ++ rest)) ⟨textOf source ts, t.postorder⟩ (stopOffset ts)
      rest := by
  have hbase : startOffset (ts ++ rest) = startOffset ts := by
    cases ts with
    | nil => exact absurd rfl hts
    | cons t ts => rfl
  rw [Parse.expression, hbase]
  refine h.bind fun p hvalue hstop hrest => ⟨_, rfl, ?_, hstop, hrest⟩
  simp only [Parsed.map, Postfix.compile, hvalue, hstop, ht.reorder_eq, textOf]

theorem arguments_of_some {source : List Char} {t : Token} {ts rest : List Token}
    {es : List Expression} {stop : Nat} (ht : t.isMark .rightParen = false)
    (h : Gives (Parse.someArguments source (t :: ts)) es stop rest) :
    Gives (Parse.arguments source (t :: ts)) es stop rest := by
  rw [Parse.arguments, if_neg (by simp [ht])]
  exact h

/-! ### Completeness -/

mutual

theorem Primary.parse {source : List Char} {base : Nat} {ts : List Token} {terms : List Term}
    (h : Primary source base ts terms) {rest : List Token} (hrest : NoCall ts rest) :
    Gives (Parse.primary source base (ts ++ rest)) terms (stopOffset ts) rest := by
  match h with
  | .number ht | .pi ht =>
    rw [List.singleton_append, Parse.primary]
    simp only [ht]
    exact ⟨_, rfl, rfl, rfl, rfl⟩
  | .name ht =>
    rw [List.singleton_append, Parse.primary]
    simp only [ht]
    cases rest with
    | nil => exact ⟨_, rfl, rfl, rfl, rfl⟩
    | cons u more =>
      have hu : u.isMark .leftParen = false :=
        Bool.eq_false_iff.mpr fun hu => hrest u rfl hu _ rfl _ ht
      simp only [hu]
      exact ⟨_, rfl, rfl, rfl, rfl⟩
  | .emptyCall ht hu hv =>
    simp only [List.cons_append, List.nil_append]
    rw [Parse.primary]
    simp only [ht, hu, if_true, Parse.arguments, hv]
    exact ⟨_, rfl, rfl, rfl, rfl⟩
  | @Primary.call _ _ t u v n us arguments ht hu h hv =>
    have hsome := h.parse hv rest
    obtain ⟨w, ws, rfl, hw⟩ := h.head
    rw [List.append_assoc, List.cons_append, List.cons_append, List.singleton_append,
      Parse.primary]
    simp only [ht, hu, if_true]
    refine (arguments_of_some hw hsome).bind fun p hvalue hstop hmore => ⟨_, rfl, ?_, ?_, hmore⟩
    · rw [hvalue, hstop, textOf, stopOffset_concat]
      rfl
    · rw [stopOffset_concat]
      exact hstop
  | @Primary.parens _ _ t u us terms ht h hu =>
    rw [List.append_assoc, List.cons_append, List.singleton_append, Parse.primary]
    simp only [kind_of_isMark ht]
    refine (h.parse (ends_of_closing hu _ rest)).bind fun p hvalue hstop hmore => ?_
    refine (accept_gives hu hmore).bind fun q hclose hstop' hrest' => ⟨_, rfl, ?_, ?_, hrest'⟩
    · rw [hvalue, hclose]
    · rw [hstop', stopOffset_concat]

theorem Operand.parse {source : List Char} {base : Nat} {ts : List Token} {terms : List Term}
    (h : Operand source base ts terms) {rest : List Token} (hrest : NoCall ts rest) :
    Gives (Parse.operand source base (ts ++ rest)) terms (stopOffset ts) rest := by
  match h with
  | .primary h =>
    have hprimary := h.parse hrest
    obtain ⟨t, us, rfl, -, ht⟩ := h.head
    exact operand_of_primary ht hprimary
  | @Operand.prefixed _ _ t op us terms ht _ h =>
    rw [← List.singleton_append, noCall_append h.ne_nil] at hrest
    rw [← List.singleton_append, stopOffset_append h.ne_nil]
    exact operand_of_prefixed ht (h.parse hrest)

theorem Terms.parse {source : List Char} {base : Nat} {ts : List Token} {terms : List Term}
    (h : Terms source base ts terms) {rest : List Token} (hrest : Ends ts rest) :
    Gives (Parse.terms source base (ts ++ rest)) terms (stopOffset ts) rest := by
  match h with
  | .operand h =>
    rw [Parse.terms]
    refine (h.parse hrest.1).bind fun p hvalue hstop hmore => ?_
    split
    · exact ⟨_, rfl, hvalue, hstop, hmore⟩
    · next u more hr =>
      have hu : u.binaryOperator? = none := hrest.2 u (by simp [← hmore, hr])
      simp only [hu]
      exact ⟨_, rfl, hvalue, hstop, hmore⟩
  | @Terms.chain _ _ t op us vs terms more h ht hmore =>
    rw [List.append_cons, ends_append hmore.ne_nil] at hrest
    rw [List.append_cons, stopOffset_append hmore.ne_nil, ← List.append_cons, List.append_assoc,
      List.cons_append, Parse.terms]
    refine (h.parse (noCall_of_binaryOperator? ht us _)).bind fun p hvalue hstop hp => ?_
    split
    · next hr => simp [hr] at hp
    · next u after hr =>
      rw [hr] at hp
      obtain ⟨rfl, rfl⟩ := List.cons.inj hp
      simp only [ht]
      refine (hmore.parse hrest).bind fun q hvalue' hstop' hrest' =>
        ⟨_, rfl, ?_, hstop', hrest'⟩
      simp [Parsed.map, Parsed.weaken, hvalue, hvalue']

theorem Arguments.parse {source : List Char} {ts : List Token} {arguments : List (String × Tree)}
    (h : Arguments source ts arguments) {v : Token} (hv : v.isMark .rightParen = true)
    (rest : List Token) :
    Gives (Parse.someArguments source (ts ++ v :: rest)) (Tree.expressions arguments)
      v.stop.offset rest := by
  match h with
  | .one h ht =>
    have hterms := h.parse (ends_of_closing hv _ rest)
    rw [Parse.someArguments]
    refine (expression_gives h.ne_nil ht hterms).bind fun p hvalue hstop hp => ?_
    split
    · next hr => simp [hr] at hp
    · next u after hr =>
      rw [hr] at hp
      obtain ⟨rfl, rfl⟩ := List.cons.inj hp
      simp only [hv, if_true]
      exact ⟨_, rfl, by simp [hvalue, Tree.expressions], rfl, rfl⟩
  | @Arguments.more _ us vs terms t c arguments h ht hc hmore =>
    have hterms := h.parse (ends_of_comma hc _ (vs ++ v :: rest))
    rw [List.append_assoc, List.cons_append, Parse.someArguments]
    refine (expression_gives h.ne_nil ht hterms).bind fun p hvalue hstop hp => ?_
    split
    · next hr => simp [hr] at hp
    · next u after hr =>
      rw [hr] at hp
      obtain ⟨rfl, rfl⟩ := List.cons.inj hp
      have hnot : u.isMark .rightParen = false := by
        simp [Token.isMark, kind_of_isMark hc]
      rw [if_neg (by simp [hnot]), if_pos hc]
      refine (hmore.parse hv rest).bind fun q hvalue' hstop' hrest' =>
        ⟨_, rfl, ?_, hstop', hrest'⟩
      simp [Parsed.map, Parsed.weaken, hvalue, hvalue', Tree.expressions]

end

/-! ### Expressions in postfix order -/

/-- Of any expression that the grammar derives, wherever it ends, the parser collects the terms, and
putting them into postfix order lists their one tree, each term at the position of its token. -/
theorem compile_lists_the_tree {source : List Char} {base : Nat} {ts : List Token}
    {terms : List Term} (h : Terms source base ts terms) :
    (∀ rest, Ends ts rest →
      Gives (Parse.terms source base (ts ++ rest)) terms (stopOffset ts) rest) ∧
    ∃ t, Reads 0 terms t ∧ (∀ u, Reads 0 terms u → u = t) ∧
      (∀ context, Postfix.compile context terms = ⟨context, t.postorder⟩) ∧
      ∀ x ∈ t.postorder, ∃ u ∈ ts, x.position = positionIn base u := by
  obtain ⟨t, ht⟩ := h.reads
  refine ⟨fun rest hrest => h.parse hrest, t, ht, fun u hu => hu.unique ht, fun context => ?_,
    fun x hx => h.position x (ht.mem_of_mem_postorder hx)⟩
  rw [Postfix.compile, ht.reorder_eq]

/-- `-x ^ y`: the sign binds more tightly than the power. -/
theorem compile_lists_signed_power :
    let minus : Token := ⟨.mark .minus, "-", ⟨1, 1, 0⟩, ⟨1, 2, 1⟩⟩
    let x : Token := ⟨.identifier "x", "x", ⟨1, 2, 1⟩, ⟨1, 3, 2⟩⟩
    let caret : Token := ⟨.mark .caret, "^", ⟨1, 4, 3⟩, ⟨1, 5, 4⟩⟩
    let y : Token := ⟨.identifier "y", "y", ⟨1, 6, 5⟩, ⟨1, 7, 6⟩⟩
    let terms : List Term := [.operator 0 .negate, .name 1 "x", .operator 3 .power, .name 5 "y"]
    Terms "-x ^ y".toList 0 [minus, x, caret, y] terms ∧
      ∃ t, Reads 0 terms t ∧ (∀ u, Reads 0 terms u → u = t) ∧
        t.postorder = [.name 1 "x", .operator 0 .negate, .name 5 "y", .operator 3 .power] := by
  intro minus x caret y terms
  have h : Terms "-x ^ y".toList 0 ([minus, x] ++ caret :: [y]) terms :=
    .chain (.prefixed rfl rfl (.primary (.name rfl))) rfl (.operand (.primary (.name rfl)))
  obtain ⟨-, t, ht, hunique, hcompile, -⟩ := compile_lists_the_tree h
  refine ⟨h, t, ht, hunique, ?_⟩
  exact (congrArg Phrase.terms (hcompile "-x ^ y")).symm

end Abacus.Grammar
