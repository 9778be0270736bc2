import Abacus.Proofs.Derivation.Balance
import Abacus.Proofs.Script.Parts

/-!
Where the parts of a program stand.

Every expression, loop and function of a program is derived from tokens of its own, which stand in
those of the script. Those that are not arguments of calls stand behind balanced tokens, so no
parenthesis is open where they start.
-/
namespace Abacus.Derivation

open Grammar (textOf)

/-- The tokens of a part stand among others, behind balanced ones. -/
def Stands (part ts : List Token) : Prop := ∃ us ws, ts = us ++ (part ++ ws) ∧ Balanced us

section Stands

variable {part ts : List Token}

theorem stands_self (ts : List Token) : Stands ts ts := ⟨[], [], by simp, balanced_nil⟩

theorem Stands.append (h : Stands part ts) (more : List Token) : Stands part (ts ++ more) := by
  obtain ⟨us, ws, rfl, hus⟩ := h
  exact ⟨us, ws ++ more, by simp, hus⟩

theorem Stands.behind {front : List Token} (hfront : Balanced front) (h : Stands part ts) :
    Stands part (front ++ ts) := by
  obtain ⟨us, ws, rfl, hus⟩ := h
  exact ⟨front ++ us, ws, by simp, hfront.append hus⟩

theorem Stands.cons {t : Token} (ht : Plain t) (h : Stands part ts) : Stands part (t :: ts) :=
  h.behind ht.balanced

theorem Stands.infix (h : Stands part ts) : part <:+: ts := by
  obtain ⟨us, ws, rfl, -⟩ := h
  exact ⟨us, ws, by simp⟩

end Stands

/-- Where the expression that stands in a statement itself, and the statement if it is a loop, come
from. -/
structure Traced (source : List Char) (ts : List Token) (s : Statement) : Prop where
  expression : ∀ e ∈ s.expression?, ∃ c : Chain, e = c.expression source ∧ Stands c.tokens ts
  loop : ∀ text condition body, s = .loop text condition body →
    ∃ c : Compound, s = c.statement source ∧ text = textOf source c.tokens ∧ Stands c.tokens ts

section Traced

variable {source : List Char} {ts : List Token} {s : Statement}

theorem Traced.mono {us : List Token} (h : Traced source ts s)
    (hmono : ∀ part, Stands part ts → Stands part us) : Traced source us s where
  expression e he := by
    obtain ⟨c, hc, hstands⟩ := h.expression e he
    exact ⟨c, hc, hmono _ hstands⟩
  loop text condition body hs := by
    obtain ⟨c, hc, htext, hstands⟩ := h.loop text condition body hs
    exact ⟨c, hc, htext, hmono _ hstands⟩

theorem Traced.append (h : Traced source ts s) (more : List Token) : Traced source (ts ++ more) s :=
  h.mono fun _ hpart => hpart.append more

theorem Traced.behind {front : List Token} (hfront : Balanced front) (h : Traced source ts s) :
    Traced source (front ++ ts) s :=
  h.mono fun _ hpart => hpart.behind hfront

theorem Traced.cons {t : Token} (ht : Plain t) (h : Traced source ts s) :
    Traced source (t :: ts) s :=
  h.behind ht.balanced

/-- A statement without blocks that holds the expression of a derivation. -/
theorem traced_of_expression {c : Chain} (hs : s.expression? = some (c.expression source))
    (hloop : ∀ text condition body, s ≠ .loop text condition body) (hc : Stands c.tokens ts) :
    Traced source ts s where
  expression e he := by
    rw [hs] at he
    cases he
    exact ⟨c, rfl, hc⟩
  loop text condition body heq := absurd heq (hloop text condition body)

end Traced

section Statements

variable {source : List Char}

theorem Simple.traced {place : Place} (d : Simple place) {s : Statement}
    (h : s.Within (d.statement source)) : Traced source d.tokens s := by
  cases d with
  | expression c =>
    cases h with
    | self => exact traced_of_expression rfl (by simp [Simple.statement]) (stands_self _)
  | returning word c =>
    cases h with
    | self =>
      exact traced_of_expression rfl (by simp [Simple.statement])
        ((stands_self _).cons (plain_word word))
  | printing word c =>
    cases h with
    | self =>
      exact traced_of_expression rfl (by simp [Simple.statement])
        ((stands_self _).cons (plain_word word))
  | breaking word =>
    cases h with
    | self => exact ⟨by simp [Simple.statement, Statement.expression?], by simp [Simple.statement]⟩

mutual

theorem Branch.traced (b : Branch) {s : Statement} (h : s.Within (b.statement source)) :
    Traced source b.tokens s := by
  match b with
  | .mk condition body otherwise =>
    rw [Branch.tokens, List.append_assoc]
    rw [Branch.statement] at h
    obtain rfl | ⟨t, ht, h⟩ | ⟨other, hother, t, ht, h⟩ := Statement.within_branch h
    · exact traced_of_expression rfl (by simp) ((stands_self _).append _)
    · exact ((body.traced ht h).append _).behind condition.balanced
    · exact ((otherwise.traced hother ht h).behind body.balanced).behind condition.balanced

theorem Otherwise.traced (o : Otherwise) {ss : List Statement} (hss : ss ∈ o.statements source)
    {s t : Statement} (ht : t ∈ ss) (h : s.Within t) : Traced source o.tokens s := by
  match o with
  | .none => cases hss
  | .block newlines word body =>
    cases hss
    exact ((body.traced ht h).cons (plain_word word)).behind (balanced_newlines newlines)
  | .branch newlines word start other =>
    cases hss
    obtain rfl := List.mem_singleton.mp ht
    exact (((other.traced h).cons (plain_word start)).cons (plain_word word)).behind
      (balanced_newlines newlines)

theorem Compound.traced (c : Compound) {s : Statement} (h : s.Within (c.statement source)) :
    Traced source c.tokens s := by
  match c with
  | .branch start b => exact (b.traced h).cons (plain_word start)
  | .loop start condition body =>
    have hcondition : Stands condition.tokens (Compound.loop start condition body).tokens :=
      ((stands_self _).append _).cons (plain_word start)
    cases h with
    | self =>
      refine ⟨?_, ?_⟩
      · rintro e ⟨⟩
        exact ⟨condition, rfl, hcondition⟩
      · rintro text _ _ ⟨⟩
        exact ⟨.loop start condition body, rfl, rfl, stands_self _⟩
    | loop ht h =>
      exact ((body.traced ht h).behind condition.balanced).cons (plain_word start)

theorem Block.traced {place : Place} (b : Block place) {s t : Statement}
    (ht : t ∈ b.statements source) (h : s.Within t) : Traced source b.tokens s := by
  match b with
  | .mk opening body closing =>
    have hbody : Traced source body.tokens s := body.traced ht h
    exact (hbody.append _).cons (plain_mark opening (by simp) (by simp))

theorem Statements.traced {place : Place} (d : Statements place) {s t : Statement}
    (ht : t ∈ d.statements source) (h : s.Within t) : Traced source d.tokens s := by
  match d with
  | .done separators => cases ht
  | .last separators first =>
    obtain rfl := List.mem_singleton.mp ht
    exact (first.traced h).behind (balanced_separators separators)
  | .simple separators first separator rest =>
    rcases List.mem_cons.mp ht with rfl | ht
    · exact ((first.traced h).behind (balanced_separators separators)).append _
    · exact ((rest.traced ht h).cons (plain_separator separator.property)).behind
        ((balanced_separators separators).append first.balanced)
  | .compound separators c rest =>
    rcases List.mem_cons.mp ht with rfl | ht
    · exact ((c.traced h).behind (balanced_separators separators)).append _
    · exact (rest.traced ht h).behind ((balanced_separators separators).append c.balanced)
  | .function separators f rest =>
    exact (rest.traced ht h).behind ((balanced_separators separators).append f.balanced)

end

theorem Definition.traced (f : Definition) {s t : Statement} (ht : t ∈ (f.function source).body)
    (h : s.Within t) : Traced source f.tokens s := by
  obtain ⟨start, name, opening, parameters, closing, body⟩ := f
  have hparens := Balanced.parens opening.property (balanced_parameters parameters) closing.property
  have hbody : Traced source body.tokens s := body.traced ht h
  simpa [Definition.tokens] using
    ((hbody.behind hparens).cons (plain_name name)).cons (plain_word start)

theorem Statements.function_traced (d : Statements .top) {f : Function}
    (hf : f ∈ d.functions source) :
    ∃ g : Definition, f = g.function source ∧ Stands g.tokens d.tokens := by
  match d with
  | .done separators => cases hf
  | .last separators s => cases hf
  | .simple separators s separator rest =>
    obtain ⟨g, hg, hstands⟩ := function_traced rest hf
    exact ⟨g, hg, (hstands.cons (plain_separator separator.property)).behind
      ((balanced_separators separators).append s.balanced)⟩
  | .compound separators c rest =>
    obtain ⟨g, hg, hstands⟩ := function_traced rest hf
    exact ⟨g, hg, hstands.behind ((balanced_separators separators).append c.balanced)⟩
  | .function separators g rest =>
    rcases List.mem_cons.mp hf with rfl | hf
    · exact ⟨g, rfl, ((stands_self _).behind (balanced_separators separators)).append _⟩
    · obtain ⟨g', hg', hstands⟩ := function_traced rest hf
      exact ⟨g', hg', hstands.behind ((balanced_separators separators).append g.balanced)⟩

theorem Stands.trans {part ts us : List Token} (h : Stands part ts) (hts : Stands ts us) :
    Stands part us := by
  obtain ⟨front, back, rfl, hfront⟩ := hts
  exact (h.append back).behind hfront

/-- Every statement of a program stands in the tokens of its derivation. -/
theorem Statements.contains_traced (d : Statements .top) {s : Statement}
    (h : Program.Contains ⟨d.statements source, d.functions source⟩ s) :
    Traced source d.tokens s := by
  rcases h with ⟨t, ht, hs⟩ | ⟨f, hf, t, ht, hs⟩
  · exact d.traced ht hs
  · obtain ⟨g, rfl, hg⟩ := d.function_traced hf
    exact (g.traced ht hs).mono fun _ hpart => hpart.trans hg

end Statements

end Abacus.Derivation
