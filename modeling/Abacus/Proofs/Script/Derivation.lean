import Abacus.Proofs.Script.Acceptance

/-!
What the parser of expressions accepts is derived by the grammar: the tokens that it takes have a
derivation, for the terms that it returns.
-/
namespace Abacus.Grammar

open Parse (positionIn startOffset Outcome Parsed)
open Precedence (Reads)

/-- Only operators of one operand stand before an operand. -/
def Proper (t : Token) : Prop := ∀ op, t.prefixOperator? = some op → op.isUnary = true

theorem not_gives_error {us : List Token} {α : Type} {e : List Token} {a : α} {stop : Nat}
    {rest : List Token} : ¬ Gives (.error e : Outcome (Parsed us α)) a stop rest := by
  rintro ⟨p, hp, -⟩
  cases hp

theorem gives_ok_iff {us : List Token} {α : Type} {p : Parsed us α} {a : α} {stop : Nat}
    {rest : List Token} :
    Gives (.ok p) a stop rest ↔ a = p.value ∧ stop = p.stop ∧ rest = p.rest := by
  constructor
  · rintro ⟨q, hq, rfl, rfl, rfl⟩
    cases hq
    exact ⟨rfl, rfl, rfl⟩
  · rintro ⟨rfl, rfl, rfl⟩
    exact ⟨p, rfl, rfl, rfl, rfl⟩

theorem Gives.of_eq {us : List Token} {α : Type} {o : Outcome (Parsed us α)} {p : Parsed us α}
    (h : o = .ok p) : Gives o p.value p.stop p.rest := ⟨p, h, rfl, rfl, rfl⟩

theorem accept_takes {q : Token → Bool} {us : List Token} {p : Parsed us Token}
    (h : Parse.accept q us = .ok p) :
    us = p.value :: p.rest ∧ q p.value = true ∧ p.stop = p.value.stop.offset := by
  unfold Parse.accept at h
  split at h
  · cases h
  · split at h
    · next hq =>
      cases h
      exact ⟨rfl, hq, rfl⟩
    · cases h

theorem operand_of_prefixes {source : List Char} {base : Nat} {us : List Token} {terms : List Term}
    (h : Operand source base us terms) (ps : List Token) (hproper : ∀ t ∈ ps, Proper t)
    (hfront : ∀ t ∈ ps, Parse.isPrefixOperator t = true) :
    Operand source base (ps ++ us) (Parse.prefixTerms base ps ++ terms) := by
  induction ps with
  | nil => exact h
  | cons t ps ih =>
    obtain ⟨op, hop⟩ := Option.isSome_iff_exists.mp (hfront t (by simp))
    have htail := ih (fun u hu => hproper u (by simp [hu])) (fun u hu => hfront u (by simp [hu]))
    have hterms : Parse.prefixTerms base (t :: ps) ++ terms
        = .operator (positionIn base t) op :: (Parse.prefixTerms base ps ++ terms) := by
      simp [Parse.prefixTerms, hop]
    rw [hterms]
    exact .prefixed hop (hproper t (by simp) op hop) htail

theorem startOffset_append {ts : List Token} (h : ts ≠ []) (rest : List Token) :
    startOffset (ts ++ rest) = startOffset ts := by
  cases ts with
  | nil => exact absurd rfl h
  | cons t ts => rfl

/-- The tokens that a parser takes for an expression: they are derived, and the expression is their
tree in postorder, over their text. -/
def Derives (source : List Char) (ts rest : List Token) (e : Expression) (stop : Nat) : Prop :=
  ∃ used terms t, ts = used ++ rest ∧ Terms source (startOffset used) used terms ∧
    Reads 0 terms t ∧ e = ⟨textOf source used, t.postorder⟩ ∧ stop = stopOffset used

theorem derives_of_terms {source : List Char} {ts rest : List Token} {e : Expression} {stop : Nat}
    (h : Gives (Parse.expression source ts) e stop rest)
    (hterms : ∀ terms, Gives (Parse.terms source (startOffset ts) ts) terms stop rest →
      ∃ used, ts = used ++ rest ∧ Terms source (startOffset ts) used terms ∧
        stop = stopOffset used) : Derives source ts rest e stop := by
  rw [Parse.expression] at h
  obtain ⟨p, hp, h⟩ := gives_bind_iff.mp h
  obtain ⟨rfl, rfl, rfl⟩ := gives_ok_iff.mp h
  obtain ⟨used, hused, hderived, hstop⟩ := hterms p.value (.of_eq hp)
  obtain ⟨t, ht⟩ := hderived.reads
  have hbase : startOffset ts = startOffset used :=
    (congrArg startOffset hused).trans (startOffset_append hderived.ne_nil _)
  rw [hbase] at hderived
  refine ⟨used, p.value, t, hused, hderived, ht, ?_, hstop⟩
  simp only [Parsed.map] at hstop ⊢
  rw [Postfix.compile, ht.reorder_eq, textOf, hbase, hstop]

mutual

theorem primary_derives {source : List Char} {base : Nat} {ts rest : List Token}
    {terms : List Term} {stop : Nat} (hts : ∀ t ∈ ts, Proper t)
    (h : Gives (Parse.primary source base ts) terms stop rest) :
    ∃ used, ts = used ++ rest ∧ Primary source base used terms ∧ stop = stopOffset used := by
  match ts with
  | [] =>
    rw [Parse.primary] at h
    exact absurd h not_gives_error
  | t :: ts =>
    rw [Parse.primary] at h
    split at h
    · next hk =>
      obtain ⟨rfl, rfl, rfl⟩ := gives_ok_iff.mp h
      exact ⟨[t], rfl, .number hk, rfl⟩
    · next hk =>
      obtain ⟨rfl, rfl, rfl⟩ := gives_ok_iff.mp h
      exact ⟨[t], rfl, .pi hk, rfl⟩
    · next n hk =>
      split at h
      · obtain ⟨rfl, rfl, rfl⟩ := gives_ok_iff.mp h
        exact ⟨[t], rfl, .name hk, rfl⟩
      · next u more =>
        split at h
        · next hu =>
          obtain ⟨p, hp, h⟩ := gives_bind_iff.mp h
          obtain ⟨rfl, rfl, rfl⟩ := gives_ok_iff.mp h
          have hmore : ∀ v ∈ more, Proper v := fun v hv => hts v (by simp [hv])
          rcases arguments_derives hmore (.of_eq hp) with ⟨v, hmore, hv, hvalue, hstop⟩ |
            ⟨used, v, arguments, hmore, h, hv, hvalue, hstop⟩
          · refine ⟨[t, u, v], by simp [hmore], ?_, hstop⟩
            simp only [hvalue, hstop]
            exact .emptyCall hk hu hv
          · refine ⟨t :: u :: used ++ [v], by simp [hmore], ?_, by rw [stopOffset_concat, hstop]⟩
            simp only [hvalue, hstop]
            have htext : textOf source (t :: u :: used ++ [v])
                = Text.slice source t.start.offset v.stop.offset := by
              rw [textOf, stopOffset_concat]
              rfl
            rw [← htext]
            exact .call hk hu h hv
        · obtain ⟨rfl, rfl, rfl⟩ := gives_ok_iff.mp h
          exact ⟨[t], rfl, .name hk, rfl⟩
    · next hk =>
      obtain ⟨p, hp, h⟩ := gives_bind_iff.mp h
      obtain ⟨q, hq, h⟩ := gives_bind_iff.mp h
      obtain ⟨rfl, rfl, rfl⟩ := gives_ok_iff.mp h
      obtain ⟨hclose, hv, hstop⟩ := accept_takes hq
      have htail : ∀ v ∈ ts, Proper v := fun v hv => hts v (by simp [hv])
      obtain ⟨used, hused, hterms, -⟩ := terms_derives htail (.of_eq hp)
      refine ⟨t :: used ++ [q.value], by simp [hused, hclose], ?_, ?_⟩
      · exact .parens (by simp [Token.isMark, hk]) hterms hv
      · rw [stopOffset_concat, hstop]
    · exact absurd h not_gives_error
termination_by 6 * ts.length + 0

theorem operand_derives {source : List Char} {base : Nat} {ts rest : List Token}
    {terms : List Term} {stop : Nat} (hts : ∀ t ∈ ts, Proper t)
    (h : Gives (Parse.operand source base ts) terms stop rest) :
    ∃ used, ts = used ++ rest ∧ Operand source base used terms ∧ stop = stopOffset used := by
  have hlength := Parse.dropWhile_length_le Parse.isPrefixOperator ts
  have hsplit : ts.takeWhile Parse.isPrefixOperator ++ ts.dropWhile Parse.isPrefixOperator = ts :=
    List.takeWhile_append_dropWhile
  obtain ⟨more, rfl, hprimary⟩ := operand_gives_iff.mp h
  obtain ⟨used, hused, hmore, rfl⟩ := primary_derives
    (fun t ht => hts t ((List.dropWhile_sublist _).subset ht)) hprimary
  refine ⟨ts.takeWhile Parse.isPrefixOperator ++ used, ?_, ?_, ?_⟩
  · rw [List.append_assoc, ← hused, hsplit]
  · refine operand_of_prefixes (.primary hmore) _ (fun t ht => ?_) (fun t ht => ?_)
    · exact hts t ((List.takeWhile_sublist _).subset ht)
    · exact List.all_eq_true.mp List.all_takeWhile t ht
  · obtain ⟨t, us, rfl, -⟩ := hmore.head
    rw [stopOffset_append (List.cons_ne_nil t us)]
termination_by 6 * ts.length + 1

theorem terms_derives {source : List Char} {base : Nat} {ts rest : List Token}
    {terms : List Term} {stop : Nat} (hts : ∀ t ∈ ts, Proper t)
    (h : Gives (Parse.terms source base ts) terms stop rest) :
    ∃ used, ts = used ++ rest ∧ Terms source base used terms ∧ stop = stopOffset used := by
  rw [Parse.terms] at h
  obtain ⟨p, hp, h⟩ := gives_bind_iff.mp h
  have hshort := p.shorter
  obtain ⟨used, hused, hoperand, hstop⟩ := operand_derives hts (.of_eq hp)
  split at h
  · obtain ⟨rfl, rfl, rfl⟩ := gives_ok_iff.mp h
    exact ⟨used, hused, .operand hoperand, hstop⟩
  · next t more hr =>
    split at h
    · obtain ⟨rfl, rfl, rfl⟩ := gives_ok_iff.mp h
      exact ⟨used, hused, .operand hoperand, hstop⟩
    · next op hop =>
      obtain ⟨q, hq, h⟩ := gives_bind_iff.mp h
      obtain ⟨rfl, rfl, rfl⟩ := gives_ok_iff.mp h
      have hlength : more.length < ts.length := by
        rw [hr, List.length_cons] at hshort
        omega
      rw [hr] at hused
      obtain ⟨tail, htail, hmore, hstop'⟩ :=
        terms_derives (fun u hu => hts u (by simp [hused, hu])) (.of_eq hq)
      refine ⟨used ++ t :: tail, ?_, .chain hoperand hop hmore, ?_⟩
      · have happend := congrArg (used ++ t :: ·) htail
        exact hused.trans (happend.trans (List.append_assoc used (t :: tail) q.rest).symm)
      · rw [List.append_cons, stopOffset_append hmore.ne_nil]
        exact hstop'
termination_by 6 * ts.length + 2

theorem someArguments_derives {source : List Char} {ts rest : List Token}
    {es : List Expression} {stop : Nat} (hts : ∀ t ∈ ts, Proper t)
    (h : Gives (Parse.someArguments source ts) es stop rest) :
    ∃ used v arguments, ts = used ++ v :: rest ∧ Arguments source used arguments ∧
      v.isMark .rightParen = true ∧ es = Tree.expressions arguments ∧ stop = v.stop.offset := by
  rw [Parse.someArguments] at h
  obtain ⟨p, hp, h⟩ := gives_bind_iff.mp h
  have hshort := p.shorter
  obtain ⟨used, terms, tree, hused, hderived, hreads, hvalue, -⟩ :=
    derives_of_terms (.of_eq hp) fun _ h => terms_derives hts h
  split at h
  · exact absurd h not_gives_error
  · next t more hr =>
    rw [hr] at hused
    split at h
    · next ht =>
      obtain ⟨rfl, rfl, rfl⟩ := gives_ok_iff.mp h
      exact ⟨used, t, _, hused, .one hderived hreads, ht, by simp [hvalue, Tree.expressions], rfl⟩
    · split at h
      · next hc =>
        obtain ⟨q, hq, h⟩ := gives_bind_iff.mp h
        obtain ⟨rfl, rfl, rfl⟩ := gives_ok_iff.mp h
        have hlength : more.length < ts.length := by
          rw [hr, List.length_cons] at hshort
          omega
        obtain ⟨tail, v, arguments, htail, hmore, hv, hvalue', hstop'⟩ :=
          someArguments_derives (fun u hu => hts u (by simp [hused, hu])) (.of_eq hq)
        refine ⟨used ++ t :: tail, v, _, ?_, .more hderived hreads hc hmore, hv, ?_, hstop'⟩
        · have happend := congrArg (used ++ t :: ·) htail
          exact hused.trans (happend.trans (List.append_assoc used (t :: tail) _).symm)
        · simp [Parsed.map, Parsed.weaken, hvalue, hvalue', Tree.expressions]
      · exact absurd h not_gives_error
termination_by 6 * ts.length + 4

theorem arguments_derives {source : List Char} {ts rest : List Token}
    {es : List Expression} {stop : Nat} (hts : ∀ t ∈ ts, Proper t)
    (h : Gives (Parse.arguments source ts) es stop rest) :
    (∃ v, ts = v :: rest ∧ v.isMark .rightParen = true ∧ es = [] ∧ stop = v.stop.offset) ∨
    ∃ used v arguments, ts = used ++ v :: rest ∧ Arguments source used arguments ∧
      v.isMark .rightParen = true ∧ es = Tree.expressions arguments ∧ stop = v.stop.offset := by
  match ts with
  | [] =>
    rw [Parse.arguments] at h
    exact absurd h not_gives_error
  | t :: ts =>
    rw [Parse.arguments] at h
    split at h
    · next ht =>
      obtain ⟨rfl, rfl, rfl⟩ := gives_ok_iff.mp h
      exact .inl ⟨t, rfl, ht, rfl, rfl⟩
    · exact .inr (someArguments_derives hts h)
termination_by 6 * ts.length + 5

end

theorem expression_derives {source : List Char} {ts rest : List Token} {e : Expression}
    {stop : Nat} (hts : ∀ t ∈ ts, Proper t) (h : Gives (Parse.expression source ts) e stop rest) :
    Derives source ts rest e stop :=
  derives_of_terms h fun _ h => terms_derives hts h

end Abacus.Grammar
