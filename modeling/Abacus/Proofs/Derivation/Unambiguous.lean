import Abacus.Proofs.Derivation.Recognition

/-!
The grammar of scripts is unambiguous: two derivations of the same tokens are the same.

The first token of a part of a script says which rule derives it, and the token behind the part says
that it goes no further. So two parts that start in the same place, each followed by a token that
cannot belong to it, are the same and end in the same place. With that, the parser accepts exactly
the grammar, and returns the program of the one derivation.
-/
namespace Abacus.Derivation

open Grammar (NoCall Ends)

/-! ### Leaves -/

theorem Leaf.eq_of_token {α : Type} {read : Token → Option α} {t u : Leaf read}
    (h : t.token = u.token) : t = u := by
  obtain ⟨t, x, ht⟩ := t
  obtain ⟨u, y, hu⟩ := u
  obtain rfl : t = u := h
  obtain rfl : x = y := Option.some.inj (ht.symm.trans hu)
  rfl

theorem unattach_append_inj {q : Token → Bool} {skipped skipped' : List { t : Token // q t = true }}
    {t t' : Token} {ts ts' : List Token} (ht : q t = false) (ht' : q t' = false)
    (h : skipped.unattach ++ t :: ts = skipped'.unattach ++ t' :: ts') :
    skipped = skipped' ∧ t = t' ∧ ts = ts' := by
  have hall : ∀ skipped : List { t : Token // q t = true }, ∀ u ∈ skipped.unattach, q u = true :=
    fun _ _ hu => (List.mem_unattach.mp hu).1
  obtain ⟨hskipped, hrest⟩ := append_cons_inj (hall skipped) (hall skipped') ht ht' h
  exact ⟨(List.map_inj_right fun _ _ => Subtype.ext).mp hskipped, hrest⟩

/-! ### Expressions -/

/-- The kind of the first token of a primary. -/
def Primary.lead : Primary → TokenKind
  | .number t => .number t.value
  | .pi _ => .keyword .piWord
  | .name t => .identifier t.value
  | .emptyCall t _ _ => .identifier t.value
  | .call t _ _ _ => .identifier t.value
  | .parens _ _ _ => .mark .leftParen

theorem Primary.tokens_eq_cons (p : Primary) : ∃ t ts, p.tokens = t :: ts ∧ t.kind = p.lead := by
  cases p with
  | number t => exact ⟨_, _, rfl, Token.number?_eq_some.mp t.reads⟩
  | pi t => exact ⟨_, _, rfl, kind_of_word t⟩
  | name t | emptyCall t | call t => exact ⟨_, _, rfl, Token.identifier?_eq_some.mp t.reads⟩
  | parens opening => exact ⟨_, _, rfl, Grammar.kind_of_isMark opening.property⟩

theorem Primary.lead_eq {p q : Primary} {rest rest' : List Token}
    (h : p.tokens ++ rest = q.tokens ++ rest') : p.lead = q.lead := by
  obtain ⟨t, ts, hp, ht⟩ := p.tokens_eq_cons
  obtain ⟨u, us, hq, hu⟩ := q.tokens_eq_cons
  rw [hp, hq] at h
  obtain ⟨rfl, -⟩ := List.cons.inj h
  rw [← ht, ← hu]

section Lead

variable {q : Primary}

theorem Primary.eq_number {x : Decimal} (h : q.lead = .number x) : ∃ t, q = .number t := by
  cases q <;> simp [Primary.lead] at h ⊢

theorem Primary.eq_pi (h : q.lead = .keyword .piWord) : ∃ t, q = .pi t := by
  cases q <;> simp [Primary.lead] at h ⊢

theorem Primary.eq_name {n : String} (h : q.lead = .identifier n) :
    (∃ t, q = .name t) ∨ (∃ t opening closing, q = .emptyCall t opening closing) ∨
      ∃ t opening a closing, q = .call t opening a closing := by
  cases q <;> simp [Primary.lead] at h ⊢

theorem Primary.eq_parens (h : q.lead = .mark .leftParen) :
    ∃ opening c closing, q = .parens opening c closing := by
  cases q <;> simp [Primary.lead] at h ⊢

end Lead

/-- No operator stands first in a primary. -/
theorem Primary.not_prefixed (p : Primary) (t : Leaf Token.prefixOperator?)
    {ts rest : List Token} (h : p.tokens ++ rest = t.token :: ts) : False := by
  obtain ⟨u, us, hp, hu⟩ := p.tokens_eq_cons
  have hread := t.reads
  rw [hp] at h
  obtain ⟨rfl, -⟩ := List.cons.inj h
  cases p <;> simp [Token.prefixOperator?, hu, Primary.lead] at hread

theorem Chain.head (c : Chain) : ∃ t us, c.tokens = t :: us ∧ t.isMark .rightParen = false :=
  (c.derived [] 0).head

theorem Arguments.head (a : Arguments) :
    ∃ t us, a.tokens = t :: us ∧ t.isMark .rightParen = false := by
  cases a with
  | one c => exact c.head
  | more c comma rest =>
    obtain ⟨t, us, hc, ht⟩ := c.head
    exact ⟨t, us ++ comma.val :: rest.tokens, by simp [Arguments.tokens, hc], ht⟩

/-- A name before an opening parenthesis is a call. -/
theorem not_noCall_of_name (t : Leaf Token.identifier?) (opening : Marked .leftParen)
    {us : List Token} : ¬ NoCall [t.token] (opening.val :: us) := by
  intro h
  exact h _ (by simp) opening.property _ (by simp) _ (Token.identifier?_eq_some.mp t.reads)

theorem Arguments.not_closing (a : Arguments) (closing : Marked .rightParen)
    {rest us : List Token} (h : closing.val :: us = a.tokens ++ rest) : False := by
  obtain ⟨t, ts, ha, ht⟩ := a.head
  rw [ha] at h
  obtain ⟨rfl, -⟩ := List.cons.inj h
  simp [closing.property] at ht

mutual

theorem Primary.inj (p q : Primary) {rest rest' : List Token}
    (h : p.tokens ++ rest = q.tokens ++ rest') (hp : NoCall p.tokens rest)
    (hq : NoCall q.tokens rest') : p = q ∧ rest = rest' := by
  have hlead := (Primary.lead_eq h).symm
  match p with
  | .number t =>
    obtain ⟨u, rfl⟩ := Primary.eq_number hlead
    obtain ⟨ht, hrest⟩ := List.cons.inj h
    exact ⟨by rw [Leaf.eq_of_token ht], hrest⟩
  | .pi t =>
    obtain ⟨u, rfl⟩ := Primary.eq_pi hlead
    obtain ⟨ht, hrest⟩ := List.cons.inj h
    exact ⟨by rw [Subtype.ext ht], hrest⟩
  | .name t =>
    rcases Primary.eq_name hlead with ⟨u, rfl⟩ | ⟨u, opening, closing, rfl⟩ |
      ⟨u, opening, a, closing, rfl⟩
    · obtain ⟨ht, hrest⟩ := List.cons.inj h
      exact ⟨by rw [Leaf.eq_of_token ht], hrest⟩
    · obtain ⟨-, rfl⟩ := List.cons.inj h
      exact absurd hp (not_noCall_of_name t opening)
    · obtain ⟨-, rfl⟩ := List.cons.inj h
      exact absurd hp (not_noCall_of_name t opening)
  | .emptyCall t opening closing =>
    rcases Primary.eq_name hlead with ⟨u, rfl⟩ | ⟨u, opening', closing', rfl⟩ |
      ⟨u, opening', a, closing', rfl⟩
    · obtain ⟨-, rfl⟩ := List.cons.inj h
      exact absurd hq (not_noCall_of_name u opening)
    · simp only [Primary.tokens, List.cons_append, List.nil_append, List.cons.injEq] at h
      obtain ⟨ht, hopening, hclosing, hrest⟩ := h
      exact ⟨by rw [Leaf.eq_of_token ht, Subtype.ext hopening, Subtype.ext hclosing], hrest⟩
    · simp only [Primary.tokens, List.cons_append, List.nil_append, List.append_assoc,
        List.cons.injEq] at h
      exact (a.not_closing closing h.2.2).elim
  | .call t opening a closing =>
    rcases Primary.eq_name hlead with ⟨u, rfl⟩ | ⟨u, opening', closing', rfl⟩ |
      ⟨u, opening', b, closing', rfl⟩
    · obtain ⟨-, rfl⟩ := List.cons.inj h
      exact absurd hq (not_noCall_of_name u opening)
    · simp only [Primary.tokens, List.cons_append, List.nil_append, List.append_assoc,
        List.cons.injEq] at h
      exact (a.not_closing closing' h.2.2.symm).elim
    · simp only [Primary.tokens, List.cons_append, List.nil_append, List.append_assoc,
        List.cons.injEq] at h
      obtain ⟨ht, hopening, h⟩ := h
      obtain ⟨hab, hclosing, hrest⟩ := a.inj b closing closing' h
      exact ⟨by rw [Leaf.eq_of_token ht, Subtype.ext hopening, hab, hclosing], hrest⟩
  | .parens opening c closing =>
    obtain ⟨opening', d, closing', rfl⟩ := Primary.eq_parens hlead
    simp only [Primary.tokens, List.cons_append, List.nil_append, List.append_assoc,
      List.cons.injEq] at h
    obtain ⟨hopening, h⟩ := h
    obtain ⟨hcd, h⟩ := c.inj d h (Grammar.ends_of_closing closing.property _ _)
      (Grammar.ends_of_closing closing'.property _ _)
    obtain ⟨hclosing, hrest⟩ := List.cons.inj h
    exact ⟨by rw [Subtype.ext hopening, hcd, Subtype.ext hclosing], hrest⟩

theorem Operand.inj (o o' : Operand) {rest rest' : List Token}
    (h : o.tokens ++ rest = o'.tokens ++ rest') (ho : NoCall o.tokens rest)
    (ho' : NoCall o'.tokens rest') : o = o' ∧ rest = rest' := by
  match o, o' with
  | .primary p, .primary q =>
    obtain ⟨hpq, hrest⟩ := p.inj q h ho ho'
    exact ⟨by rw [hpq], hrest⟩
  | .primary p, .prefixed t _ _ => exact (p.not_prefixed t h).elim
  | .prefixed t _ _, .primary p => exact (p.not_prefixed t h.symm).elim
  | .prefixed t _ o, .prefixed u _ o' =>
    obtain ⟨ht, htail⟩ := List.cons.inj h
    obtain rfl := Leaf.eq_of_token ht
    obtain ⟨rfl, hrest⟩ := o.inj o' htail ((Grammar.noCall_append o.begins.ne_nil [t.token]).mp ho)
      ((Grammar.noCall_append o'.begins.ne_nil [t.token]).mp ho')
    exact ⟨rfl, hrest⟩

theorem Chain.inj (c c' : Chain) {rest rest' : List Token}
    (h : c.tokens ++ rest = c'.tokens ++ rest') (hc : Ends c.tokens rest)
    (hc' : Ends c'.tokens rest') : c = c' ∧ rest = rest' := by
  match c, c' with
  | .operand o, .operand o' =>
    obtain ⟨ho, hrest⟩ := o.inj o' h hc.1 hc'.1
    exact ⟨by rw [ho], hrest⟩
  | .operand o, .link o' t more =>
    rw [Chain.tokens, Chain.tokens, List.append_assoc] at h
    obtain ⟨-, rfl⟩ := o.inj o' h hc.1 (Grammar.noCall_of_binaryOperator? t.reads _ _)
    exact absurd t.reads (by simp [hc.2 t.token (by simp)])
  | .link o t more, .operand o' =>
    rw [Chain.tokens, Chain.tokens, List.append_assoc] at h
    obtain ⟨-, rfl⟩ := o.inj o' h (Grammar.noCall_of_binaryOperator? t.reads _ _) hc'.1
    exact absurd t.reads (by simp [hc'.2 t.token (by simp)])
  | .link o t more, .link o' u more' =>
    have hends : ∀ (o : Operand) (t : Token) (c : Chain) (rest : List Token),
        Ends (o.tokens ++ t :: c.tokens) rest → Ends c.tokens rest := by
      intro o t c rest h
      rw [List.append_cons] at h
      exact (Grammar.ends_append c.begins.ne_nil _).mp h
    rw [Chain.tokens, Chain.tokens, List.append_assoc, List.append_assoc] at h
    obtain ⟨rfl, htail⟩ := o.inj o' h (Grammar.noCall_of_binaryOperator? t.reads _ _)
      (Grammar.noCall_of_binaryOperator? u.reads _ _)
    obtain ⟨ht, htail⟩ := List.cons.inj htail
    obtain ⟨hmore, hrest⟩ := more.inj more' htail (hends _ _ _ _ hc) (hends _ _ _ _ hc')
    exact ⟨by rw [Leaf.eq_of_token ht, hmore], hrest⟩

theorem Arguments.inj (a b : Arguments) (closing closing' : Marked .rightParen)
    {rest rest' : List Token}
    (h : a.tokens ++ closing.val :: rest = b.tokens ++ closing'.val :: rest') :
    a = b ∧ closing = closing' ∧ rest = rest' := by
  have hclosing := fun ts us => Grammar.ends_of_closing closing.property ts us
  have hclosing' := fun ts us => Grammar.ends_of_closing closing'.property ts us
  match a, b with
  | .one c, .one d =>
    obtain ⟨hcd, h⟩ := c.inj d h (hclosing _ _) (hclosing' _ _)
    obtain ⟨hclose, hrest⟩ := List.cons.inj h
    exact ⟨by rw [hcd], Subtype.ext hclose, hrest⟩
  | .one c, .more d comma _ =>
    rw [Arguments.tokens, Arguments.tokens, List.append_assoc] at h
    obtain ⟨-, h⟩ := c.inj d h (hclosing _ _) (Grammar.ends_of_comma comma.property _ _)
    have hmark := closing.property
    simp [(List.cons.inj h).1, Token.isMark, Grammar.kind_of_isMark comma.property] at hmark
  | .more c comma _, .one d =>
    rw [Arguments.tokens, Arguments.tokens, List.append_assoc] at h
    obtain ⟨-, h⟩ := c.inj d h (Grammar.ends_of_comma comma.property _ _) (hclosing' _ _)
    have hmark := closing'.property
    simp [← (List.cons.inj h).1, Token.isMark, Grammar.kind_of_isMark comma.property] at hmark
  | .more c comma a, .more d comma' b =>
    rw [Arguments.tokens, Arguments.tokens, List.append_assoc, List.append_assoc] at h
    obtain ⟨rfl, htail⟩ := c.inj d h (Grammar.ends_of_comma comma.property _ _)
      (Grammar.ends_of_comma comma'.property _ _)
    obtain ⟨hcomma, htail⟩ := List.cons.inj htail
    obtain ⟨rfl, hclose, hrest⟩ := a.inj b closing closing' htail
    exact ⟨by rw [Subtype.ext hcomma], hclose, hrest⟩

end

theorem Parameters.inj (ps qs : Parameters) {closing closing' : Token}
    (hclosing : closing.isMark .rightParen = true) (hclosing' : closing'.isMark .rightParen = true)
    {rest rest' : List Token} (h : ps.tokens ++ closing :: rest = qs.tokens ++ closing' :: rest') :
    ps = qs ∧ closing = closing' ∧ rest = rest' := by
  have hclash : ∀ (comma : Marked .comma) {u : Token}, u.isMark .rightParen = true →
      u ≠ comma.val := by
    rintro comma u hu rfl
    simp [Token.isMark, Grammar.kind_of_isMark comma.property] at hu
  induction ps generalizing qs with
  | one name =>
    cases qs with
    | one name' =>
      obtain ⟨hname, hrest⟩ := List.cons.inj h
      obtain ⟨hclose, hrest⟩ := List.cons.inj hrest
      exact ⟨by rw [Leaf.eq_of_token hname], hclose, hrest⟩
    | more name' comma qs =>
      obtain ⟨-, hrest⟩ := List.cons.inj h
      exact absurd (List.cons.inj hrest).1 (hclash comma hclosing)
  | more name comma ps ih =>
    cases qs with
    | one name' =>
      obtain ⟨-, hrest⟩ := List.cons.inj h
      exact absurd (List.cons.inj hrest).1.symm (hclash comma hclosing')
    | more name' comma' qs =>
      obtain ⟨hname, hrest⟩ := List.cons.inj h
      obtain ⟨hcomma, hrest⟩ := List.cons.inj hrest
      obtain ⟨rfl, hclose, hrest⟩ := ih qs hrest
      exact ⟨by rw [Leaf.eq_of_token hname, Subtype.ext hcomma], hclose, hrest⟩

theorem parameters_inj (ps qs : Option Parameters) {closing closing' : Token}
    (hclosing : closing.isMark .rightParen = true) (hclosing' : closing'.isMark .rightParen = true)
    {rest rest' : List Token}
    (h : parameterTokens ps ++ closing :: rest = parameterTokens qs ++ closing' :: rest') :
    ps = qs ∧ closing = closing' ∧ rest = rest' := by
  have hclash : ∀ (ps : Parameters) {u : Token} {us vs : List Token}, u.isMark .rightParen = true →
      u :: us ≠ ps.tokens ++ vs := by
    intro ps u us vs hu h
    have hk := Grammar.kind_of_isMark hu
    cases ps with
    | one name | more name =>
      have hname := Token.identifier?_eq_some.mp name.reads
      rw [← (List.cons.inj h).1, hk] at hname
      cases hname
  match ps, qs with
  | none, none =>
    obtain ⟨hclose, hrest⟩ := List.cons.inj h
    exact ⟨rfl, hclose, hrest⟩
  | none, some qs => exact absurd h (hclash qs hclosing)
  | some ps, none => exact absurd h.symm (hclash ps hclosing')
  | some ps, some qs =>
    obtain ⟨rfl, hclose, hrest⟩ := ps.inj qs hclosing hclosing' h
    exact ⟨rfl, hclose, hrest⟩

/-! ### Statements -/

theorem begins_inj {ts us : List Token} {word word' : Option Keyword} (ht : Begins ts word)
    (hu : Begins us word') (h : ts = us) : word = word' := by
  obtain ⟨t, ts, rfl, ht⟩ := ht
  obtain ⟨u, us, rfl, hu⟩ := hu
  obtain ⟨rfl, -⟩ := List.cons.inj h
  exact Option.some.inj (ht.symm.trans hu)

theorem Simple.inj {place : Place} (s s' : Simple place) {us us' rest rest' : List Token}
    (h : s.tokens ++ us = s'.tokens ++ us') (hs : Over us rest) (hs' : Over us' rest') :
    s = s' ∧ us = us' := by
  have hword := begins_inj (s.begins.append us) (s'.begins.append us') h
  cases s with
  | expression c =>
    cases s' with
    | expression d =>
      obtain ⟨rfl, hus⟩ := c.inj d h (hs.ends _) (hs'.ends _)
      exact ⟨rfl, hus⟩
    | _ => simp [Simple.word?] at hword
  | returning word c =>
    cases s' with
    | returning word' d =>
      obtain ⟨hw, h⟩ := List.cons.inj h
      obtain ⟨rfl, hus⟩ := c.inj d h (hs.ends _) (hs'.ends _)
      exact ⟨by rw [Subtype.ext hw], hus⟩
    | _ => simp [Simple.word?] at hword
  | printing word c =>
    cases s' with
    | printing word' d =>
      obtain ⟨hw, h⟩ := List.cons.inj h
      obtain ⟨rfl, hus⟩ := c.inj d h (hs.ends _) (hs'.ends _)
      exact ⟨by rw [Subtype.ext hw], hus⟩
    | _ => simp [Simple.word?] at hword
  | breaking word =>
    cases s' with
    | breaking word' =>
      obtain ⟨hw, hus⟩ := List.cons.inj h
      exact ⟨by rw [Subtype.ext hw], hus⟩
    | _ => simp [Simple.word?] at hword

theorem not_noElse (newlines : List Newline) (word : Word .elseWord) (us : List Token) :
    ¬ NoElse (newlines.unattach ++ word.val :: us) := by
  have hk := kind_of_word word
  rw [NoElse, dropWhile_unattach newlines (by simp [Token.isNewline, hk])]
  simp [word.property]

theorem Otherwise.eq_none (o : Otherwise) {rest : List Token} (h : NoElse (o.tokens ++ rest)) :
    o = .none := by
  cases o with
  | none => rfl
  | block newlines word body =>
    rw [Otherwise.tokens, List.append_assoc] at h
    exact absurd h (not_noElse newlines word _)
  | branch newlines word start b =>
    rw [Otherwise.tokens, List.append_assoc] at h
    exact absurd h (not_noElse newlines word _)

/-- The newlines before an `else` and what follows it. -/
theorem newlines_inj {newlines newlines' : List Newline} {word word' : Word .elseWord}
    {us us' : List Token}
    (h : newlines.unattach ++ word.val :: us = newlines'.unattach ++ word'.val :: us') :
    newlines = newlines' ∧ word = word' ∧ us = us' := by
  have hword : ∀ word : Word .elseWord, word.val.isNewline = false := fun word => by
    simp [Token.isNewline, kind_of_word word]
  obtain ⟨hnewlines, hw, hus⟩ := unattach_append_inj (hword word) (hword word') h
  exact ⟨hnewlines, Subtype.ext hw, hus⟩

/-- No block starts with a word. -/
theorem Block.not_word {place : Place} (b : Block place) {k : Keyword} (word : Word k)
    {us rest : List Token} (h : b.tokens ++ rest = word.val :: us) : False := by
  obtain ⟨t, ts, hb, hk⟩ := b.head
  rw [hb] at h
  obtain ⟨rfl, -⟩ := List.cons.inj h
  have hword := kind_of_word word
  rw [hk] at hword
  cases hword

theorem closes_ne_separator {u : Token} (hu : Closes u) (separator : Separator) :
    u ≠ separator.val := by
  rintro rfl
  exact absurd separator.property (by simp [hu.not_isSeparator])

/-- The separators at the front and the first word are the same for both. -/
theorem Statements.split_inj {place : Place} (d d' : Statements place) {u u' : Token}
    (hu : Closes u) (hu' : Closes u') {rest rest' : List Token}
    (h : d.tokens ++ u :: rest = d'.tokens ++ u' :: rest') :
    d.separators = d'.separators ∧ d.lead = d'.lead ∧
      d.items ++ u :: rest = d'.items ++ u' :: rest' := by
  obtain ⟨t, us, hitems, hseparator, hlead⟩ := d.items_head hu rest
  obtain ⟨t', us', hitems', hseparator', hlead'⟩ := d'.items_head hu' rest'
  rw [tokens_eq, tokens_eq, List.append_assoc, List.append_assoc, hitems, hitems'] at h
  obtain ⟨hseparators, rfl, rfl⟩ := unattach_append_inj hseparator hseparator' h
  exact ⟨hseparators, hlead.symm.trans hlead', hitems.trans hitems'.symm⟩

mutual

theorem Branch.inj (b b' : Branch) {rest rest' : List Token}
    (h : b.tokens ++ rest = b'.tokens ++ rest') (hrest : NoElse rest) (hrest' : NoElse rest') :
    b = b' ∧ rest = rest' := by
  match b, b' with
  | .mk condition body otherwise, .mk condition' body' otherwise' =>
    simp only [Branch.tokens, List.append_assoc] at h
    obtain ⟨rfl, hafter⟩ := condition.inj condition' h (body.ends _ _) (body'.ends _ _)
    obtain ⟨rfl, htail⟩ := body.inj body' hafter
    obtain ⟨rfl, heq⟩ := otherwise.inj otherwise' htail hrest hrest'
    exact ⟨rfl, heq⟩
termination_by structural b

theorem Otherwise.inj (o o' : Otherwise) {rest rest' : List Token}
    (h : o.tokens ++ rest = o'.tokens ++ rest') (hrest : NoElse rest) (hrest' : NoElse rest') :
    o = o' ∧ rest = rest' := by
  match o, o' with
  | .none, o' =>
    rw [Otherwise.tokens, List.nil_append] at h
    obtain rfl := o'.eq_none (h ▸ hrest)
    exact ⟨rfl, h⟩
  | .block _ _ _, .none | .branch _ _ _ _, .none =>
    have helse : NoElse (Otherwise.none.tokens ++ rest') := hrest'
    rw [← h] at helse
    cases Otherwise.eq_none _ helse
  | .block newlines word body, .block newlines' word' body' =>
    rw [Otherwise.tokens, Otherwise.tokens, List.append_assoc, List.append_assoc] at h
    obtain ⟨rfl, rfl, htail⟩ := newlines_inj h
    obtain ⟨rfl, heq⟩ := body.inj body' htail
    exact ⟨rfl, heq⟩
  | .block newlines word body, .branch newlines' word' start b =>
    rw [Otherwise.tokens, Otherwise.tokens, List.append_assoc, List.append_assoc] at h
    obtain ⟨-, -, htail⟩ := newlines_inj h
    exact (body.not_word start htail).elim
  | .branch newlines word start b, .block newlines' word' body =>
    rw [Otherwise.tokens, Otherwise.tokens, List.append_assoc, List.append_assoc] at h
    obtain ⟨-, -, htail⟩ := newlines_inj h
    exact (body.not_word start htail.symm).elim
  | .branch newlines word start b, .branch newlines' word' start' b' =>
    rw [Otherwise.tokens, Otherwise.tokens, List.append_assoc, List.append_assoc] at h
    obtain ⟨rfl, rfl, htail⟩ := newlines_inj h
    obtain ⟨hstart, hafter⟩ := List.cons.inj htail
    obtain ⟨rfl, heq⟩ := b.inj b' hafter hrest hrest'
    exact ⟨by rw [Subtype.ext hstart], heq⟩
termination_by structural o

theorem Compound.inj (c c' : Compound) {rest rest' : List Token}
    (h : c.tokens ++ rest = c'.tokens ++ rest') (hrest : NoElse rest) (hrest' : NoElse rest') :
    c = c' ∧ rest = rest' := by
  have hword := begins_inj (c.begins.append rest) (c'.begins.append rest') h
  match c, c' with
  | .branch start b, .branch start' b' =>
    obtain ⟨hstart, htail⟩ := List.cons.inj h
    obtain ⟨rfl, heq⟩ := b.inj b' htail hrest hrest'
    exact ⟨by rw [Subtype.ext hstart], heq⟩
  | .loop start condition body, .loop start' condition' body' =>
    simp only [Compound.tokens, List.append_assoc, List.cons_append, List.cons.injEq] at h
    obtain ⟨hstart, hafter⟩ := h
    obtain ⟨rfl, htail⟩ := condition.inj condition' hafter (body.ends _ _) (body'.ends _ _)
    obtain ⟨rfl, heq⟩ := body.inj body' htail
    exact ⟨by rw [Subtype.ext hstart], heq⟩
  | .branch _ _, .loop _ _ _ | .loop _ _ _, .branch _ _ => simp [Compound.word] at hword
termination_by structural c

theorem Block.inj {place : Place} (b b' : Block place) {rest rest' : List Token}
    (h : b.tokens ++ rest = b'.tokens ++ rest') : b = b' ∧ rest = rest' := by
  match b, b' with
  | .mk opening body closing, .mk opening' body' closing' =>
    simp only [Block.tokens, List.append_assoc, List.cons_append, List.nil_append,
      List.cons.injEq] at h
    obtain ⟨hopening, htail⟩ := h
    obtain ⟨rfl, hclosing, hrest⟩ := body.inj body' (.inl closing.property)
      (.inl closing'.property) htail
    exact ⟨by rw [Subtype.ext hopening, Subtype.ext hclosing], hrest⟩
termination_by structural b

theorem Statements.inj {place : Place} (d d' : Statements place) {u u' : Token} (hu : Closes u)
    (hu' : Closes u') {rest rest' : List Token}
    (h : d.tokens ++ u :: rest = d'.tokens ++ u' :: rest') :
    d = d' ∧ u = u' ∧ rest = rest' := by
  obtain ⟨hseparators, hlead, hitems⟩ := d.split_inj d' hu hu' h
  -- the first word tells the rules apart, but for a simple statement that is the last one: there it
  -- is the separator behind it that does
  match d, d', hseparators, hlead, hitems with
  | .done separators, d', hseparators, hlead, hitems =>
    cases d' with
    | done separators' =>
      obtain ⟨hclose, hrest⟩ := List.cons.inj hitems
      exact ⟨congrArg _ hseparators, hclose, hrest⟩
    | _ => simp [Statements.lead] at hlead
  | .last separators s, d', hseparators, hlead, hitems =>
    cases d' with
    | done => simp [Statements.lead] at hlead
    | last separators' s' =>
      obtain ⟨rfl, htail⟩ := s.inj s' hitems (.closed hu rest) (.closed hu' rest')
      obtain ⟨hclose, hrest⟩ := List.cons.inj htail
      exact ⟨congrArg (Statements.last · s) hseparators, hclose, hrest⟩
    | simple separators' s' separator more =>
      rw [Statements.items, Statements.items, List.append_assoc] at hitems
      obtain ⟨-, htail⟩ := s.inj s' hitems (.closed hu rest) (.separated separator.property _)
      exact absurd (List.cons.inj htail).1 (closes_ne_separator hu separator)
    | compound separators' c => exact absurd (Option.some.inj hlead) (s.word?_ne_word c)
    | function => exact absurd (Option.some.inj hlead) s.word?_ne_fn
  | .simple separators s separator more, d', hseparators, hlead, hitems =>
    cases d' with
    | done => simp [Statements.lead] at hlead
    | last separators' s' =>
      rw [Statements.items, Statements.items, List.append_assoc] at hitems
      obtain ⟨-, htail⟩ := s.inj s' hitems (.separated separator.property _) (.closed hu' rest')
      exact absurd (List.cons.inj htail).1.symm (closes_ne_separator hu' separator)
    | simple separators' s' separator' more' =>
      rw [Statements.items, Statements.items, List.append_assoc, List.append_assoc] at hitems
      obtain ⟨rfl, htail⟩ := s.inj s' hitems (.separated separator.property _)
        (.separated separator'.property _)
      obtain ⟨hseparator, htail⟩ := List.cons.inj htail
      obtain ⟨rfl, heq⟩ := more.inj more' hu hu' htail
      obtain rfl := Subtype.ext hseparator
      exact ⟨congrArg (Statements.simple · s separator more) hseparators, heq⟩
    | compound separators' c => exact absurd (Option.some.inj hlead) (s.word?_ne_word c)
    | function => exact absurd (Option.some.inj hlead) s.word?_ne_fn
  | .compound separators c more, d', hseparators, hlead, hitems =>
    cases d' with
    | done => simp [Statements.lead] at hlead
    | last separators' s => exact absurd (Option.some.inj hlead.symm) (s.word?_ne_word c)
    | simple separators' s => exact absurd (Option.some.inj hlead.symm) (s.word?_ne_word c)
    | compound separators' c' more' =>
      rw [Statements.items, Statements.items, List.append_assoc, List.append_assoc] at hitems
      obtain ⟨rfl, htail⟩ := c.inj c' hitems (more.noElse hu rest) (more'.noElse hu' rest')
      obtain ⟨rfl, heq⟩ := more.inj more' hu hu' htail
      exact ⟨congrArg (Statements.compound · c more) hseparators, heq⟩
    | function => exact absurd (Option.some.inj (Option.some.inj hlead)) c.word_ne_fn
  | .function separators f more, d', hseparators, hlead, hitems =>
    cases d' with
    | done => simp [Statements.lead] at hlead
    | last separators' s => exact absurd (Option.some.inj hlead.symm) s.word?_ne_fn
    | simple separators' s => exact absurd (Option.some.inj hlead.symm) s.word?_ne_fn
    | compound separators' c =>
      exact absurd (Option.some.inj (Option.some.inj hlead.symm)) c.word_ne_fn
    | function separators' f' more' =>
      rw [Statements.items, Statements.items, List.append_assoc, List.append_assoc] at hitems
      obtain ⟨rfl, htail⟩ := f.inj f' hitems
      obtain ⟨rfl, heq⟩ := more.inj more' hu hu' htail
      exact ⟨congrArg (Statements.function · f more) hseparators, heq⟩
termination_by structural d

theorem Definition.inj (f f' : Definition) {rest rest' : List Token}
    (h : f.tokens ++ rest = f'.tokens ++ rest') : f = f' ∧ rest = rest' := by
  match f, f' with
  | .mk start name opening parameters closing body,
    .mk start' name' opening' parameters' closing' body' =>
    simp only [Definition.tokens, List.append_assoc, List.cons_append, List.cons.injEq] at h
    obtain ⟨hstart, hname, hopening, htail⟩ := h
    obtain ⟨rfl, hclosing, htail⟩ := parameters_inj parameters parameters' closing.property
      closing'.property htail
    obtain ⟨rfl, hrest⟩ := body.inj body' htail
    refine ⟨?_, hrest⟩
    rw [Subtype.ext hstart, Leaf.eq_of_token hname, Subtype.ext hopening, Subtype.ext hclosing]
termination_by structural f

end

/-- A script has one derivation. -/
theorem Script.tokens_injective : Function.Injective Script.tokens := by
  rintro ⟨d, e⟩ ⟨d', e'⟩ h
  obtain ⟨rfl, he, -⟩ := d.inj d' (.inr e.property) (.inr e'.property) h
  rw [Subtype.ext he]

/-- The tokens of a source are parsed if and only if they are those of a script; then they have one
derivation, and the program is that of the derivation. -/
theorem parser_accepts_exactly_the_grammar {source : String} {ts : List Token}
    (hts : tokenize source = .ok ts) :
    ((∃ p, parseTokens source ts = .ok p) ↔ ∃ d : Script, d.tokens = ts) ∧
      (∀ d d' : Script, d.tokens = ts → d'.tokens = ts → d = d') ∧
      ∀ d : Script, d.tokens = ts → parseTokens source ts = .ok (d.program source.toList) := by
  have haccept : ∀ d : Script, d.tokens = ts →
      parseTokens source ts = .ok (d.program source.toList) := by
    rintro d rfl
    exact parseTokens_eq_ok_iff.mpr (d.parse source.toList)
  refine ⟨⟨?_, ?_⟩, fun d d' h h' => Script.tokens_injective (h.trans h'.symm), haccept⟩
  · rintro ⟨p, hp⟩
    obtain ⟨d, hd, -⟩ := exists_script hts hp
    exact ⟨d, hd⟩
  · rintro ⟨d, hd⟩
    exact ⟨_, haccept d hd⟩

/-- An `else` on a line of its own, before which only line feeds stand, goes with its branch; the
semicolon in the second source takes it away from it. -/
theorem parser_accepts_exactly_the_grammar_of_else :
    let joined := "while f(1, 2) \x7b\n if x \x7bbreak\x7d\n\n else \x7bx = x - -1\x7d\n\x7d"
    let apart := "if x \x7b\x7d;\n else \x7b\x7d"
    (∃ ts, tokenize joined = .ok ts ∧
      ∃ d : Script, d.tokens = ts ∧ ∀ d' : Script, d'.tokens = ts → d' = d) ∧
    ∃ ts, tokenize apart = .ok ts ∧ ¬ ∃ d : Script, d.tokens = ts := by
  intro joined apart
  refine ⟨?_, ?_⟩
  · obtain ⟨p, hp⟩ := exists_of_isOk (x := parse joined) (by decide +kernel)
    obtain ⟨ts, hts, hp⟩ := parse_bind_iff.mp hp
    obtain ⟨hiff, hunique, -⟩ := parser_accepts_exactly_the_grammar hts
    obtain ⟨d, hd⟩ := hiff.mp ⟨p, hp⟩
    exact ⟨ts, hts, d, hd, fun d' hd' => hunique d' d hd' hd⟩
  · obtain ⟨ts, hts⟩ := exists_of_isOk (x := tokenize apart) (by decide +kernel)
    refine ⟨ts, hts, fun h => ?_⟩
    obtain ⟨p, hp⟩ := (parser_accepts_exactly_the_grammar hts).1.mpr h
    have hparse := parse_bind_iff.mpr ⟨ts, hts, hp⟩
    have hfails : (parse apart).isOk = false := by decide +kernel
    rw [hparse] at hfails
    cases hfails

end Abacus.Derivation
