import Abacus.Proofs.Derivation.Lookahead

/-!
The parser of scripts accepts what the grammar derives, and returns the program of the derivation.
-/
namespace Abacus.Derivation

open Grammar (textOf stopOffset Ends Gives)

/-! ### Simple statements -/

section Simple

variable (source : List Char)

theorem simple_gives (make : Expression → Statement) (c : Chain) {us rest : List Token}
    (h : Over us rest) :
    Gives (Parse.simple source make (c.tokens ++ us)) (make (c.expression source))
      (stopOffset c.tokens) rest := by
  unfold Parse.simple
  refine (c.parse source (h.ends _)).bind fun p hvalue hstop hrest => ?_
  rw [← hrest] at h
  obtain ⟨hle, hfinish⟩ := h.finish
  rw [hfinish]
  exact ⟨_, rfl, by simp [hvalue], hstop, rfl⟩

theorem breakStatement_gives (word : Word .breakWord) {us rest : List Token} (h : Over us rest) :
    Gives (Parse.breakStatement true (word.val :: us)) .breaking word.val.stop.offset rest := by
  unfold Parse.breakStatement
  refine (Grammar.accept_gives word.property rfl).bind fun p hvalue hstop hrest => ?_
  rw [← hrest] at h
  obtain ⟨hle, hfinish⟩ := h.finish
  rw [hfinish]
  exact ⟨_, rfl, rfl, hstop, rfl⟩

/-- A statement that starts with no word is an expression. -/
theorem statement_of_expression {allowBreak : Bool} {us rest : List Token} {s : Statement}
    {stop : Nat} (hus : Begins us none)
    (h : Gives (Parse.simple source .expression us) s stop rest) :
    Gives (Parse.statement source allowBreak us) s stop rest := by
  obtain ⟨t, us, rfl, hlead⟩ := hus
  rw [Parse.statement]
  split
  case h_7 => exact h
  all_goals
    next hk => simp [hk, TokenKind.lead?] at hlead

theorem Simple.parse {place : Place} (s : Simple place) {us rest : List Token}
    (h : Over us rest) :
    ∃ stop, Gives (Parse.statement source place.allowsBreak (s.tokens ++ us)) (s.statement source)
      stop rest := by
  cases s with
  | expression c =>
    exact ⟨_, statement_of_expression source (c.begins.append us) (simple_gives source _ c h)⟩
  | returning word c =>
    refine ⟨stopOffset c.tokens, ?_⟩
    rw [Simple.tokens, List.cons_append, Parse.statement]
    simp only [kind_of_word word]
    exact (simple_gives source .returning c h).bind fun p hvalue hstop hrest =>
      ⟨_, rfl, hvalue, hstop, hrest⟩
  | printing word c =>
    refine ⟨stopOffset c.tokens, ?_⟩
    rw [Simple.tokens, List.cons_append, Parse.statement]
    simp only [kind_of_word word]
    exact (simple_gives source .printing c h).bind fun p hvalue hstop hrest =>
      ⟨_, rfl, hvalue, hstop, hrest⟩
  | breaking word hplace =>
    refine ⟨word.val.stop.offset, ?_⟩
    rw [Simple.tokens, List.singleton_append, Parse.statement]
    simp only [kind_of_word word, hplace]
    exact breakStatement_gives word h

end Simple

/-! ### Statements in a row -/

section Rows

variable {source : List Char} {allowBreak : Bool}

theorem statements_of_closing (separators : List Separator) {u : Token}
    (hu : u.isMark .rightBrace = true) (rest : List Token) :
    Gives (Parse.statements source allowBreak (separators.unattach ++ u :: rest)) []
      u.stop.offset rest := by
  have hk := Grammar.kind_of_isMark hu
  have hdrop := dropWhile_unattach separators (t := u)
    (by simp [Token.isSeparator, Token.isNewline, Token.isMark, hk]) rest
  rw [Parse.statements]
  split
  · next h => exact absurd (h.symm.trans hdrop) (List.cons_ne_nil _ _).symm
  · next t more h =>
    obtain ⟨rfl, rfl⟩ := List.cons.inj (h.symm.trans hdrop)
    rw [if_pos hu]
    exact ⟨_, rfl, rfl, rfl, rfl⟩

theorem statements_of_statement (separators : List Separator) {us mid rest : List Token}
    {word : Option Keyword} (hus : Begins us word) {s : Statement} {ss : List Statement}
    {stop stop' : Nat} (hs : Gives (Parse.statement source allowBreak us) s stop mid)
    (hss : Gives (Parse.statements source allowBreak mid) ss stop' rest) :
    Gives (Parse.statements source allowBreak (separators.unattach ++ us)) (s :: ss) stop'
      rest := by
  obtain ⟨t, us, rfl, hlead⟩ := hus
  have hdrop := dropWhile_unattach separators (separator_of_lead hlead) us
  rw [Parse.statements]
  split
  · next h => exact absurd (h.symm.trans hdrop) (List.cons_ne_nil _ _).symm
  · next t more h =>
    obtain ⟨rfl, rfl⟩ := List.cons.inj (h.symm.trans hdrop)
    rw [if_neg (by simp [rightBrace_of_lead hlead]), if_neg (by simp [isEnd_of_lead hlead])]
    refine hs.bind fun p hvalue _ hrest => ?_
    rw [← hrest] at hss
    refine hss.bind fun q hvalue' hstop' hrest' => ⟨_, rfl, ?_, hstop', hrest'⟩
    simp [Parse.Parsed.map, Parse.Parsed.weaken, hvalue, hvalue']

theorem program_of_end (separators : List Separator) {u : Token} (hu : u.isEnd = true)
    (rest : List Token) :
    Parse.program source (separators.unattach ++ u :: rest) = .ok ⟨[], []⟩ := by
  have hk : u.kind = .endOfInput := by simpa [Token.isEnd] using hu
  have hdrop := dropWhile_unattach separators (t := u)
    (by simp [Token.isSeparator, Token.isNewline, Token.isMark, hk]) rest
  rw [Parse.program]
  split
  · rfl
  · next t more h =>
    obtain ⟨rfl, rfl⟩ := List.cons.inj (h.symm.trans hdrop)
    rw [if_pos hu]

theorem program_of_statement (separators : List Separator) {us mid : List Token}
    {word : Option Keyword} (hus : Begins us word) (hword : word ≠ some .fnWord) {s : Statement}
    {stop : Nat} (hs : Gives (Parse.statement source false us) s stop mid) {p : Program}
    (hp : Parse.program source mid = .ok p) :
    Parse.program source (separators.unattach ++ us)
      = .ok { p with statements := s :: p.statements } := by
  obtain ⟨t, us, rfl, hlead⟩ := hus
  have hdrop := dropWhile_unattach separators (separator_of_lead hlead) us
  have hfn : t.isKeyword .fnWord = false := by
    refine Bool.eq_false_iff.mpr fun hfn => hword ?_
    have hk : t.kind = .keyword .fnWord := by simpa [Token.isKeyword] using hfn
    simpa [hk, TokenKind.lead?] using hlead.symm
  rw [Parse.program]
  split
  · next h => exact absurd (h.symm.trans hdrop) (List.cons_ne_nil _ _).symm
  · next t more h =>
    obtain ⟨rfl, rfl⟩ := List.cons.inj (h.symm.trans hdrop)
    rw [if_neg (by simp [isEnd_of_lead hlead]), if_neg (by simp [hfn])]
    obtain ⟨q, hq, rfl, -, rfl⟩ := hs
    rw [hq]
    simp only [Bind.bind, Except.bind]
    rw [hp]

theorem program_of_function (separators : List Separator) {us mid : List Token}
    (hus : Begins us (some .fnWord)) {f : Function} {stop : Nat}
    (hf : Gives (Parse.function source us) f stop mid) {p : Program}
    (hp : Parse.program source mid = .ok p) :
    Parse.program source (separators.unattach ++ us)
      = .ok { p with functions := f :: p.functions } := by
  obtain ⟨t, us, rfl, hlead⟩ := hus
  have hdrop := dropWhile_unattach separators (separator_of_lead hlead) us
  have hfn : t.isKeyword .fnWord = true := by simpa [Token.isKeyword] using kind_of_lead hlead
  rw [Parse.program]
  split
  · next h => exact absurd (h.symm.trans hdrop) (List.cons_ne_nil _ _).symm
  · next t more h =>
    obtain ⟨rfl, rfl⟩ := List.cons.inj (h.symm.trans hdrop)
    rw [if_neg (by simp [isEnd_of_lead hlead]), if_pos hfn]
    obtain ⟨q, hq, rfl, -, rfl⟩ := hf
    rw [hq]
    simp only [Bind.bind, Except.bind]
    rw [hp]

end Rows

/-! ### Blocks, branches and loops -/

/-- A block starts with a brace. -/
theorem Block.head {place : Place} (b : Block place) :
    ∃ t us, b.tokens = t :: us ∧ t.kind = .mark .leftBrace := by
  obtain ⟨opening, body, closing⟩ := b
  exact ⟨opening.val, _, rfl, Grammar.kind_of_isMark opening.property⟩

theorem Block.ends {place : Place} (b : Block place) (ts rest : List Token) :
    Ends ts (b.tokens ++ rest) := by
  obtain ⟨t, us, hb, hk⟩ := b.head
  rw [hb]
  exact ends_of_kind (by simp [hk]) (by simp [Token.binaryOperator?, hk]) ts _

/-- The text of a loop goes from its first word to the brace that closes it. -/
theorem Compound.loop_statement (source : List Char) (start : Word .whileWord) (c : Chain)
    (b : Block .block) :
    (Compound.loop start c b).statement source
      = .loop (Text.slice source start.val.start.offset (stopOffset b.tokens))
          (c.expression source) (b.statements source) := by
  obtain ⟨t, us, ht, -⟩ := b.head
  rw [Compound.statement, textOf, Compound.tokens, Grammar.stopOffset_append (by simp [ht])]
  rfl

section Branches

variable {source : List Char} {ts mid rest : List Token} {e : Expression} {ss : List Statement}
  {stop₁ stop₂ stop : Nat} (he : Gives (Parse.expression source ts) e stop₁ mid)
include he

theorem branch_plain (hss : Gives (Parse.block source true mid) ss stop rest)
    (hrest : NoElse rest) : Gives (Parse.branch source ts) (.branch e ss none) stop rest := by
  rw [Parse.branch]
  refine he.bind fun p hvalue _ hp => ?_
  rw [← hp] at hss
  refine hss.bind fun q hvalue' hstop hq => ?_
  split
  · exact ⟨_, rfl, by rw [hvalue, hvalue'], hstop, hq⟩
  · next t more hr =>
    rw [← hq] at hrest
    rw [if_neg (by simp [hrest t (by simp [hr])])]
    exact ⟨_, rfl, by rw [hvalue, hvalue'], hstop, hq⟩

variable (newlines : List Newline) (word : Word .elseWord)

theorem branch_else {u : Token} {inner : List Token} (hu : u.isKeyword .ifWord = false)
    (hss : Gives (Parse.block source true mid) ss stop₂
      (newlines.unattach ++ word.val :: u :: inner))
    {other : List Statement}
    (hother : Gives (Parse.block source true (u :: inner)) other stop rest) :
    Gives (Parse.branch source ts) (.branch e ss (some other)) stop rest := by
  rw [Parse.branch]
  refine he.bind fun p hvalue _ hp => ?_
  rw [← hp] at hss
  refine hss.bind fun q hvalue' _ hq => ?_
  have hdrop := dropWhile_unattach newlines (t := word.val)
    (by simp [Token.isNewline, kind_of_word word]) (u :: inner)
  rw [← hq] at hdrop
  split
  · next h => exact absurd (h.symm.trans hdrop) (List.cons_ne_nil _ _).symm
  · next t more h =>
    obtain ⟨rfl, rfl⟩ := List.cons.inj (h.symm.trans hdrop)
    rw [if_pos word.property]
    simp only [hu]
    refine hother.bind fun r hvalue'' hstop hr => ⟨_, rfl, ?_, hstop, hr⟩
    simp [Parse.Parsed.map, Parse.Parsed.weaken, hvalue, hvalue', hvalue'']

theorem branch_elseIf (start : Word .ifWord) {inner : List Token}
    (hss : Gives (Parse.block source true mid) ss stop₂
      (newlines.unattach ++ word.val :: start.val :: inner))
    {other : Statement} (hother : Gives (Parse.branch source inner) other stop rest) :
    Gives (Parse.branch source ts) (.branch e ss (some [other])) stop rest := by
  rw [Parse.branch]
  refine he.bind fun p hvalue _ hp => ?_
  rw [← hp] at hss
  refine hss.bind fun q hvalue' _ hq => ?_
  have hdrop := dropWhile_unattach newlines (t := word.val)
    (by simp [Token.isNewline, kind_of_word word]) (start.val :: inner)
  rw [← hq] at hdrop
  split
  · next h => exact absurd (h.symm.trans hdrop) (List.cons_ne_nil _ _).symm
  · next t more h =>
    obtain ⟨rfl, rfl⟩ := List.cons.inj (h.symm.trans hdrop)
    rw [if_pos word.property]
    simp only [start.property, if_true]
    refine hother.bind fun r hvalue'' hstop hr => ⟨_, rfl, ?_, hstop, hr⟩
    simp [Parse.Parsed.map, Parse.Parsed.weaken, hvalue, hvalue', hvalue'']

end Branches

section Blocks

variable (source : List Char)

mutual

theorem Branch.parse (b : Branch) {rest : List Token} (hrest : NoElse rest) :
    ∃ stop, Gives (Parse.branch source (b.tokens ++ rest)) (b.statement source) stop rest := by
  match b with
  | .mk condition body otherwise =>
    have hcondition := condition.parse source
      (body.ends condition.tokens (otherwise.tokens ++ rest))
    have hbody := body.parse (by simp) (otherwise.tokens ++ rest)
    rw [Branch.tokens, List.append_assoc, List.append_assoc]
    match otherwise with
    | .none => exact ⟨_, branch_plain hcondition hbody hrest⟩
    | .block newlines word other =>
      have hother := other.parse (by simp) rest
      obtain ⟨t, us, ht, hk⟩ := other.head
      rw [Otherwise.tokens, List.append_assoc, List.cons_append] at hcondition hbody ⊢
      rw [ht] at hcondition hbody hother ⊢
      exact ⟨_, branch_else hcondition newlines word (by simp [Token.isKeyword, hk]) hbody hother⟩
    | .branch newlines word start other =>
      obtain ⟨stop, hother⟩ := other.parse hrest
      rw [Otherwise.tokens, List.append_assoc, List.cons_append] at hcondition hbody ⊢
      exact ⟨stop, branch_elseIf hcondition newlines word start hbody hother⟩

theorem Block.parse {place : Place} (b : Block place) (hplace : place ≠ .top)
    (rest : List Token) :
    Gives (Parse.block source place.allowsBreak (b.tokens ++ rest)) (b.statements source)
      (stopOffset b.tokens) rest := by
  match b with
  | .mk opening body closing =>
    have hbody := body.parse hplace closing.property rest
    rw [Block.tokens, Grammar.stopOffset_concat, List.append_assoc, List.cons_append,
      List.singleton_append, Parse.block]
    refine (Grammar.accept_gives opening.property rfl).bind fun p _ _ hp => ?_
    rw [← hp] at hbody
    exact hbody.bind fun q hvalue hstop hq => ⟨_, rfl, hvalue, hstop, hq⟩

theorem Compound.parse (c : Compound) (allowBreak : Bool) {rest : List Token}
    (hrest : NoElse rest) :
    ∃ stop, Gives (Parse.statement source allowBreak (c.tokens ++ rest)) (c.statement source) stop
      rest := by
  match c with
  | .branch start b =>
    obtain ⟨stop, hb⟩ := b.parse hrest
    refine ⟨stop, ?_⟩
    rw [Compound.tokens, List.cons_append, Parse.statement]
    simp only [kind_of_word start]
    exact hb.bind fun p hvalue hstop hp => ⟨_, rfl, hvalue, hstop, hp⟩
  | .loop start condition body =>
    have hcondition := condition.parse source (body.ends condition.tokens rest)
    have hbody := body.parse (by simp) rest
    refine ⟨stopOffset body.tokens, ?_⟩
    rw [Compound.tokens, List.append_assoc, List.cons_append, Parse.statement]
    simp only [kind_of_word start]
    refine hcondition.bind fun p hvalue _ hp => ?_
    rw [← hp] at hbody
    refine hbody.bind fun q hvalue' hstop hq => ⟨_, rfl, ?_, hstop, hq⟩
    rw [Compound.loop_statement, hvalue, hvalue', hstop]

theorem Statements.parse {place : Place} (d : Statements place) (hplace : place ≠ .top)
    {u : Token} (hu : u.isMark .rightBrace = true) (rest : List Token) :
    Gives (Parse.statements source place.allowsBreak (d.tokens ++ u :: rest))
      (d.statements source) u.stop.offset rest := by
  match d with
  | .done separators => exact statements_of_closing separators hu rest
  | .last separators s =>
    obtain ⟨stop, hs⟩ := s.parse source (.closed (.inl hu) rest)
    rw [Statements.tokens, List.append_assoc]
    exact statements_of_statement separators (s.begins.append _) hs
      (statements_of_closing [] hu rest)
  | .simple separators s separator more =>
    have hmore := more.parse hplace hu rest
    obtain ⟨stop, hs⟩ := s.parse source (.separated separator.property (more.tokens ++ u :: rest))
    rw [Statements.tokens, List.append_assoc, List.append_assoc]
    exact statements_of_statement separators (s.begins.append _) hs hmore
  | .compound separators c more =>
    have hmore := more.parse hplace hu rest
    obtain ⟨stop, hc⟩ := c.parse place.allowsBreak (more.noElse (.inl hu) rest)
    rw [Statements.tokens, List.append_assoc, List.append_assoc]
    exact statements_of_statement separators (c.begins.append _) hc hmore
  | .function separators f more => exact absurd rfl hplace

end

end Blocks

/-! ### Functions and scripts -/

theorem identifier_gives (name : Leaf Token.identifier?) (rest : List Token) :
    Gives (Parse.identifier (name.token :: rest)) name.value name.token.stop.offset rest := by
  unfold Parse.identifier
  simp only [Token.identifier?_eq_some.mp name.reads]
  exact ⟨_, rfl, rfl, rfl, rfl⟩

theorem Parameters.parse (ps : Parameters) {u : Token} (hu : u.isMark .rightParen = true)
    (rest : List Token) :
    Gives (Parse.someParameters (ps.tokens ++ u :: rest)) ps.names u.stop.offset rest := by
  induction ps with
  | one name =>
    rw [Parameters.tokens, List.singleton_append, Parse.someParameters]
    refine (identifier_gives name (u :: rest)).bind fun p hvalue _ hp => ?_
    split
    · next h => simp [h] at hp
    · next t more h =>
      obtain ⟨rfl, rfl⟩ := List.cons.inj (h.symm.trans hp)
      rw [if_pos hu]
      exact ⟨_, rfl, by simp [Parameters.names, hvalue], rfl, rfl⟩
  | more name comma ps ih =>
    have hk := Grammar.kind_of_isMark comma.property
    rw [Parameters.tokens, List.cons_append, List.cons_append, Parse.someParameters]
    refine (identifier_gives name _).bind fun p hvalue _ hp => ?_
    split
    · next h => simp [h] at hp
    · next t more h =>
      obtain ⟨rfl, rfl⟩ := List.cons.inj (h.symm.trans hp)
      rw [if_neg (by simp [Token.isMark, hk]), if_pos comma.property]
      refine ih.bind fun q hvalue' hstop hq => ⟨_, rfl, ?_, hstop, hq⟩
      simp [Parse.Parsed.map, Parse.Parsed.weaken, Parameters.names, hvalue, hvalue']

theorem parameters_gives (parameters : Option Parameters) {u : Token}
    (hu : u.isMark .rightParen = true) (rest : List Token) :
    Gives (Parse.parameters (parameterTokens parameters ++ u :: rest)) (parameterNames parameters)
      u.stop.offset rest := by
  cases parameters with
  | none =>
    simp only [parameterTokens, List.nil_append, Parse.parameters, hu, if_true]
    exact ⟨_, rfl, rfl, rfl, rfl⟩
  | some ps =>
    have hps := ps.parse hu rest
    have hname : ∃ (name : Leaf Token.identifier?) (us : List Token),
        ps.tokens = name.token :: us := by
      cases ps with
      | one name => exact ⟨name, [], rfl⟩
      | more name comma ps => exact ⟨name, _, rfl⟩
    obtain ⟨name, us, hname⟩ := hname
    have hk := Token.identifier?_eq_some.mp name.reads
    rw [parameterTokens, hname, List.cons_append, Parse.parameters,
      if_neg (by simp [Token.isMark, hk])]
    rwa [hname] at hps

/-- The text of a function goes from its first word to the brace that closes its body. -/
theorem Definition.function_eq (source : List Char) (start : Word .fnWord)
    (name : Leaf Token.identifier?) (opening : Marked .leftParen) (parameters : Option Parameters)
    (closing : Marked .rightParen) (body : Block .body) :
    (Definition.mk start name opening parameters closing body).function source
      = ⟨name.value, Text.slice source start.val.start.offset (stopOffset body.tokens),
          parameterNames parameters, body.statements source⟩ := by
  obtain ⟨t, us, ht, -⟩ := body.head
  rw [Definition.function, textOf, Definition.tokens, List.append_cons,
    Grammar.stopOffset_append (by simp [ht])]
  rfl

theorem Definition.parse (source : List Char) (f : Definition) (rest : List Token) :
    ∃ stop, Gives (Parse.function source (f.tokens ++ rest)) (f.function source) stop rest := by
  obtain ⟨start, name, opening, parameters, closing, body⟩ := f
  have hbody := body.parse source (by simp) rest
  have hnames := parameters_gives parameters closing.property (body.tokens ++ rest)
  have hsplit : (Definition.mk start name opening parameters closing body).tokens ++ rest
      = start.val :: name.token :: opening.val
        :: (parameterTokens parameters ++ closing.val :: (body.tokens ++ rest)) := by
    simp [Definition.tokens]
  refine ⟨stopOffset body.tokens, ?_⟩
  rw [Definition.function_eq, hsplit]
  unfold Parse.function
  refine (Grammar.accept_gives start.property rfl).bind fun a hstart _ ha => ?_
  have hname := identifier_gives name
    (opening.val :: (parameterTokens parameters ++ closing.val :: (body.tokens ++ rest)))
  rw [← ha] at hname
  refine hname.bind fun b hvalue _ hb => ?_
  refine (Grammar.accept_gives opening.property hb).bind fun c _ _ hc => ?_
  rw [← hc] at hnames
  refine hnames.bind fun d hparameters _ hd => ?_
  rw [← hd] at hbody
  refine hbody.bind fun q hstatements hstop hq => ⟨_, rfl, ?_, hstop, hq⟩
  simp only [hstart, hvalue, hparameters, hstatements, hstop]

theorem Statements.parse_program (source : List Char) (d : Statements .top) {u : Token}
    (hu : u.isEnd = true) (rest : List Token) :
    Parse.program source (d.tokens ++ u :: rest)
      = .ok ⟨d.statements source, d.functions source⟩ := by
  match d with
  | .done separators => exact program_of_end separators hu rest
  | .last separators s =>
    obtain ⟨stop, hs⟩ := s.parse source (.closed (.inr hu) rest)
    rw [Statements.tokens, List.append_assoc]
    exact program_of_statement separators (s.begins.append _) s.word?_ne_fn hs
      (program_of_end [] hu rest)
  | .simple separators s separator more =>
    have hmore := parse_program source more hu rest
    obtain ⟨stop, hs⟩ := s.parse source (.separated separator.property (more.tokens ++ u :: rest))
    rw [Statements.tokens, List.append_assoc, List.append_assoc]
    exact program_of_statement separators (s.begins.append _) s.word?_ne_fn hs hmore
  | .compound separators c more =>
    have hmore := parse_program source more hu rest
    obtain ⟨stop, hc⟩ := c.parse source false (more.noElse (.inr hu) rest)
    rw [Statements.tokens, List.append_assoc, List.append_assoc]
    exact program_of_statement separators (c.begins.append _) (by simp [c.word_ne_fn]) hc hmore
  | .function separators f more =>
    have hmore := parse_program source more hu rest
    obtain ⟨stop, hf⟩ := f.parse source (more.tokens ++ u :: rest)
    rw [Statements.tokens, List.append_assoc, List.append_assoc]
    exact program_of_function separators (f.begins.append _) hf hmore

/-- The parser returns the program of a derivation. -/
theorem Script.parse (source : List Char) (d : Script) :
    Parse.program source d.tokens = .ok (d.program source) :=
  d.statements.parse_program source d.ending.property []

end Abacus.Derivation
