import Abacus.Proofs.Derivation.Expressions

/-!
What the next token decides.

A statement that starts with none of the words of statements is an expression; behind a simple
statement there is a separator, a closing brace or the end; and an `else` belongs to the branch
before it, since no statement starts with one.
-/
namespace Abacus

/-- What a token says about the statement that it starts: its word, if it has one. Separators,
closing braces and the end start no statement. -/
def TokenKind.lead? : TokenKind → Option (Option Keyword)
  | newline | mark .semicolon | mark .rightBrace | endOfInput => none
  | keyword .piWord | keyword .notWord => some none
  | keyword k => some (some k)
  | _ => some none

namespace Derivation

open Grammar (Ends)

/-! ### How statements start -/

/-- The tokens start a statement or a function, with the given word if any. -/
def Begins (ts : List Token) (word : Option Keyword) : Prop :=
  ∃ t us, ts = t :: us ∧ t.kind.lead? = some word

theorem begins_of_kind {t : Token} {k : TokenKind} {word : Option Keyword} (h : t.kind = k)
    (hk : k.lead? = some word) (us : List Token) : Begins (t :: us) word :=
  ⟨t, us, rfl, by rw [h, hk]⟩

theorem kind_of_isSeparator {u : Token} (h : u.isSeparator = true) :
    u.kind = .newline ∨ u.kind = .mark .semicolon := by
  simpa [Token.isSeparator, Token.isNewline, Token.isMark] using h

section Lead

variable {t : Token} {word : Option Keyword} (h : t.kind.lead? = some word)
include h

theorem separator_of_lead : t.isSeparator = false := by
  refine Bool.eq_false_iff.mpr fun hs => ?_
  rcases kind_of_isSeparator hs with hk | hk <;> simp [hk, TokenKind.lead?] at h

theorem rightBrace_of_lead : t.isMark .rightBrace = false := by
  refine Bool.eq_false_iff.mpr fun hb => ?_
  simp [Grammar.kind_of_isMark hb, TokenKind.lead?] at h

theorem isEnd_of_lead : t.isEnd = false := by
  refine Bool.eq_false_iff.mpr fun he => ?_
  have hk : t.kind = .endOfInput := by simpa [Token.isEnd] using he
  simp [hk, TokenKind.lead?] at h

end Lead

theorem kind_of_lead {t : Token} {k : Keyword} (h : t.kind.lead? = some (some k)) :
    t.kind = .keyword k := by
  unfold TokenKind.lead? at h
  split at h <;> simp_all

theorem Begins.append {ts : List Token} {word : Option Keyword} (h : Begins ts word)
    (rest : List Token) : Begins (ts ++ rest) word := by
  obtain ⟨t, us, rfl, ht⟩ := h
  exact ⟨t, us ++ rest, rfl, ht⟩

theorem Begins.ne_nil {ts : List Token} {word : Option Keyword} (h : Begins ts word) : ts ≠ [] := by
  obtain ⟨t, us, rfl, -⟩ := h
  exact List.cons_ne_nil t us

theorem Primary.begins (p : Primary) : Begins p.tokens none := by
  cases p with
  | number t => exact begins_of_kind (Token.number?_eq_some.mp t.reads) rfl _
  | pi t => exact begins_of_kind (kind_of_word t) rfl _
  | name t | emptyCall t | call t =>
    exact begins_of_kind (Token.identifier?_eq_some.mp t.reads) rfl _
  | parens opening => exact begins_of_kind (Grammar.kind_of_isMark opening.property) rfl _

theorem Operand.begins (o : Operand) : Begins o.tokens none := by
  cases o with
  | primary p => exact p.begins
  | prefixed t h operand =>
    have hread := t.reads
    rw [Operand.tokens]
    unfold Token.prefixOperator? at hread
    split at hread
    · next hk => exact begins_of_kind hk rfl _
    · next hk => exact begins_of_kind hk rfl _
    · next hk => exact begins_of_kind hk rfl _
    · cases hread

theorem Chain.begins (c : Chain) : Begins c.tokens none := by
  cases c with
  | operand o => exact o.begins
  | link o t rest => exact o.begins.append _

/-- The word that a simple statement starts with. -/
def Simple.word? {place : Place} : Simple place → Option Keyword
  | .expression _ => none
  | .returning _ _ => some .returnWord
  | .printing _ _ => some .printWord
  | .breaking _ _ => some .breakWord

theorem Simple.begins {place : Place} (s : Simple place) : Begins s.tokens s.word? := by
  cases s with
  | expression c => exact c.begins
  | returning word c => exact begins_of_kind (kind_of_word word) rfl _
  | printing word c => exact begins_of_kind (kind_of_word word) rfl _
  | breaking word => exact begins_of_kind (kind_of_word word) rfl _

def Compound.word : Compound → Keyword
  | .branch _ _ => .ifWord
  | .loop _ _ _ => .whileWord

theorem Compound.begins (c : Compound) : Begins c.tokens (some c.word) := by
  cases c with
  | branch start b => exact begins_of_kind (kind_of_word start) rfl _
  | loop start condition body => exact begins_of_kind (kind_of_word start) rfl _

theorem Simple.word?_ne_word {place : Place} (s : Simple place) (c : Compound) :
    s.word? ≠ some c.word := by
  cases s <;> cases c <;> simp [Simple.word?, Compound.word]

theorem Simple.word?_ne_fn {place : Place} (s : Simple place) : s.word? ≠ some .fnWord := by
  cases s <;> simp [Simple.word?]

theorem Compound.word_ne_fn (c : Compound) : c.word ≠ .fnWord := by
  cases c <;> simp [Compound.word]

theorem Definition.begins (f : Definition) : Begins f.tokens (some .fnWord) := by
  cases f with
  | mk start name opening parameters closing body =>
    exact begins_of_kind (kind_of_word start) rfl _

/-! ### What follows -/

/-- A closing brace or the end. -/
def Closes (u : Token) : Prop := u.isMark .rightBrace = true ∨ u.isEnd = true

theorem Closes.kind {u : Token} (h : Closes u) :
    u.kind = .mark .rightBrace ∨ u.kind = .endOfInput := by
  simpa [Closes, Token.isMark, Token.isEnd] using h

theorem Closes.lead? {u : Token} (h : Closes u) : u.kind.lead? = none := by
  rcases h.kind with hk | hk <;> rw [hk] <;> rfl

theorem Closes.not_isSeparator {u : Token} (h : Closes u) : u.isSeparator = false := by
  rcases h.kind with hk | hk <;>
    simp [Token.isSeparator, Token.isNewline, Token.isMark, hk]

theorem ends_of_kind {u : Token} (hleft : u.kind ≠ .mark .leftParen)
    (hbinary : u.binaryOperator? = none) (ts rest : List Token) : Ends ts (u :: rest) := by
  refine ⟨fun v hv hopen => ?_, fun v hv => ?_⟩
  · obtain rfl : u = v := by simpa using hv
    exact absurd (Grammar.kind_of_isMark hopen) hleft
  · obtain rfl : u = v := by simpa using hv
    exact hbinary

/-- Behind a simple statement come the tokens `us`, of which `rest` are left when it is over. -/
inductive Over : List Token → List Token → Prop
  | separated {u : Token} (hu : u.isSeparator = true) (rest : List Token) : Over (u :: rest) rest
  | closed {u : Token} (hu : Closes u) (more : List Token) : Over (u :: more) (u :: more)

theorem Over.ends {us rest : List Token} (h : Over us rest) (ts : List Token) : Ends ts us := by
  cases h with
  | separated hu =>
    rcases kind_of_isSeparator hu with h | h <;>
      exact ends_of_kind (by simp [h]) (by simp [Token.binaryOperator?, h]) ts _
  | closed hu =>
    rcases hu.kind with h | h <;>
      exact ends_of_kind (by simp [h]) (by simp [Token.binaryOperator?, h]) ts _

theorem Over.finish {us rest : List Token} (h : Over us rest) :
    ∃ hle, Parse.finish us = .ok ⟨rest, hle⟩ := by
  cases h with
  | separated hu =>
    refine ⟨by simp, ?_⟩
    simp [Parse.finish, hu]
  | @closed u hu more =>
    have hcloses : (u.isMark .rightBrace || u.isEnd) = true := by simpa [Closes] using hu
    refine ⟨Nat.le_refl _, ?_⟩
    simp [Parse.finish, hu.not_isSeparator, hcloses]

/-- No `else` follows, not even behind line feeds. -/
def NoElse (rest : List Token) : Prop :=
  ∀ t ∈ (rest.dropWhile Token.isNewline).head?, t.isKeyword .elseWord = false

theorem dropWhile_unattach {q : Token → Bool} (skipped : List { t : Token // q t = true })
    {t : Token} (ht : q t = false) (ts : List Token) :
    (skipped.unattach ++ t :: ts).dropWhile q = t :: ts := by
  rw [List.dropWhile_append_of_pos, List.dropWhile_cons_of_neg (by simp [ht])]
  intro u hu
  exact (List.mem_unattach.mp hu).1

/-- Tokens with a property, up to the first one without it. -/
theorem append_cons_inj {q : Token → Bool} {ts us : List Token} (hts : ∀ t ∈ ts, q t = true)
    (hus : ∀ t ∈ us, q t = true) {t u : Token} (ht : q t = false) (hu : q u = false)
    {rest rest' : List Token} (h : ts ++ t :: rest = us ++ u :: rest') :
    ts = us ∧ t = u ∧ rest = rest' := by
  have hfront := congrArg (List.takeWhile q) h
  have hback := congrArg (List.dropWhile q) h
  rw [List.takeWhile_append_of_pos hts, List.takeWhile_append_of_pos hus] at hfront
  rw [List.dropWhile_append_of_pos hts, List.dropWhile_append_of_pos hus] at hback
  exact ⟨by simpa [ht, hu] using hfront, by simpa [ht, hu] using hback⟩

theorem noElse_of_separators (separators : List Separator) {rest : List Token}
    (h : NoElse rest) : NoElse (separators.unattach ++ rest) := by
  induction separators with
  | nil => exact h
  | cons s separators ih =>
    cases hs : s.val.isNewline with
    | true =>
      rw [NoElse, List.unattach_cons, List.cons_append, List.dropWhile_cons_of_pos hs]
      exact ih
    | false =>
      have hk : s.val.kind = .mark .semicolon := by
        rcases kind_of_isSeparator s.property with h | h
        · simp [Token.isNewline, h] at hs
        · exact h
      rw [NoElse, List.unattach_cons, List.cons_append, List.dropWhile_cons_of_neg (by simp [hs])]
      simp [Token.isKeyword, hk]

/-! ### Statements and what they start with -/

namespace Statements

variable {place : Place}

def separators : Statements place → List Separator
  | .done separators => separators
  | .last separators _ => separators
  | .simple separators _ _ _ => separators
  | .compound separators _ _ => separators
  | .function separators _ _ => separators

/-- The tokens behind the separators at the front. -/
def items : Statements place → List Token
  | .done _ => []
  | .last _ s => s.tokens
  | .simple _ s separator rest => s.tokens ++ separator.val :: rest.tokens
  | .compound _ c rest => c.tokens ++ rest.tokens
  | .function _ f rest => f.tokens ++ rest.tokens

/-- What the first token behind the separators says. -/
def lead : Statements place → Option (Option Keyword)
  | .done _ => none
  | .last _ s => some s.word?
  | .simple _ s _ _ => some s.word?
  | .compound _ c _ => some (some c.word)
  | .function _ _ _ => some (some .fnWord)

theorem tokens_eq (d : Statements place) : d.tokens = d.separators.unattach ++ d.items := by
  cases d <;> simp [tokens, separators, items]

theorem items_head (d : Statements place) {u : Token} (hu : Closes u) (rest : List Token) :
    ∃ t us, d.items ++ u :: rest = t :: us ∧ t.isSeparator = false ∧ t.kind.lead? = d.lead := by
  have hbegins : ∀ {ts : List Token} {word : Option Keyword}, Begins ts word →
      ∃ t us, ts = t :: us ∧ t.isSeparator = false ∧ t.kind.lead? = some word := by
    rintro ts word ⟨t, us, rfl, hlead⟩
    exact ⟨t, us, rfl, separator_of_lead hlead, hlead⟩
  cases d with
  | done separators => exact ⟨u, rest, rfl, hu.not_isSeparator, hu.lead?⟩
  | last separators s => exact hbegins (s.begins.append _)
  | simple separators s separator more => exact hbegins ((s.begins.append _).append _)
  | compound separators c more => exact hbegins ((c.begins.append _).append _)
  | function separators f more => exact hbegins ((f.begins.append _).append _)

theorem lead_ne_else (d : Statements place) : d.lead ≠ some (some .elseWord) := by
  cases d with
  | done separators => simp [lead]
  | last separators s => cases s <;> simp [lead, Simple.word?]
  | simple separators s separator more => cases s <;> simp [lead, Simple.word?]
  | compound separators c more => cases c <;> simp [lead, Compound.word]
  | function separators f more => simp [lead]

/-- Before a closing brace or the end, statements never start with `else`. -/
theorem noElse (d : Statements place) {u : Token} (hu : Closes u) (rest : List Token) :
    NoElse (d.tokens ++ u :: rest) := by
  obtain ⟨t, us, hsplit, hseparator, hlead⟩ := d.items_head hu rest
  rw [tokens_eq, List.append_assoc, hsplit]
  refine noElse_of_separators d.separators ?_
  have hnewline : ¬ t.isNewline = true := by
    intro h
    simp [Token.isSeparator, h] at hseparator
  rw [NoElse, List.dropWhile_cons_of_neg hnewline]
  rintro v ⟨⟩
  refine Bool.eq_false_iff.mpr fun helse => d.lead_ne_else ?_
  have hk : t.kind = .keyword .elseWord := by simpa [Token.isKeyword] using helse
  rw [← hlead, hk]
  rfl

/-- Statements before a closing brace or the end are none at all if such a token comes first. -/
theorem eq_done (d : Statements place) {u v : Token} (hu : Closes u) (hv : Closes v)
    {rest more : List Token} (h : d.tokens ++ u :: rest = v :: more) : d = .done [] := by
  obtain ⟨t, us, hsplit, -, hlead⟩ := d.items_head hu rest
  rw [tokens_eq, List.append_assoc, hsplit] at h
  cases hs : d.separators with
  | cons s separators =>
    rw [hs] at h
    obtain ⟨rfl, -⟩ := List.cons.inj h
    exact absurd s.property (by simp [hv.not_isSeparator])
  | nil =>
    rw [hs] at h
    obtain ⟨rfl, -⟩ := List.cons.inj h
    rw [hv.lead?] at hlead
    cases d with
    | done => exact congrArg Statements.done hs
    | _ => simp [lead] at hlead

end Statements

end Derivation

end Abacus
