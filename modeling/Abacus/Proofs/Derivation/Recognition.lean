import Abacus.Proofs.Derivation.Acceptance
import Abacus.Proofs.Derivation.Balance
import Abacus.Proofs.Script.Programs
import Mathlib.Data.List.TakeWhile

/-!
What the parser of scripts accepts is derived by the grammar, and the program that it returns is
that of the derivation.
-/
namespace Abacus.Derivation

open Grammar (stopOffset Gives)

/-- Tokens such as the scanner returns, or the last of them. -/
structure Readable (us : List Token) : Prop where
  proper : ∀ t ∈ us, Grammar.Proper t
  ended : ∃ e ∈ us.getLast?, e.isEnd = true

theorem Readable.ne_nil {us : List Token} (h : Readable us) : us ≠ [] := by
  rintro rfl
  obtain ⟨e, he, -⟩ := h.ended
  cases he

theorem Readable.drop {ts rest : List Token} (h : Readable (ts ++ rest))
    (hts : ∀ t ∈ ts, t.isEnd = false) : Readable rest := by
  refine ⟨fun t ht => h.proper t (by simp [ht]), ?_⟩
  obtain ⟨e, he, hend⟩ := h.ended
  rw [List.getLast?_append, Option.mem_def, Option.or_eq_some_iff] at he
  rcases he with he | ⟨-, he⟩
  · exact ⟨e, he, hend⟩
  · simp [hts e (List.mem_of_getLast? he)] at hend

theorem Readable.of_eq {us ts rest : List Token} (h : Readable us) (hus : us = ts ++ rest)
    (hts : Balanced ts) : Readable rest :=
  Readable.drop (hus ▸ h) hts.notEnd

theorem Readable.tail {t : Token} {us : List Token} (h : Readable (t :: us)) (ht : Plain t) :
    Readable us :=
  Readable.drop (show Readable ([t] ++ us) from h) ht.balanced.notEnd

/-! ### Statements -/

theorem over_of_finish {us : List Token} (hus : us ≠ [])
    {rest : { rest : List Token // rest.length ≤ us.length }} (h : Parse.finish us = .ok rest) :
    Over us rest.1 := by
  unfold Parse.finish at h
  split at h
  · exact absurd rfl hus
  · next t more =>
    split at h
    · next ht =>
      cases h
      exact .separated ht more
    split at h
    · next ht =>
      cases h
      exact .closed (by simpa [Closes] using ht) more
    · cases h

/-- The statement `s` that the tokens `us` start with, when it is over and `rest` are left. -/
inductive Item (source : List Char) (place : Place) (us : List Token) (s : Statement)
    (rest : List Token) : Prop
  | simple (d : Simple place) {more : List Token} (hus : us = d.tokens ++ more)
      (hover : Over more rest) (hs : s = d.statement source)
  | compound (c : Compound) (hus : us = c.tokens ++ rest) (hs : s = c.statement source)

theorem Over.readable {us rest : List Token} (h : Over us rest) (hus : Readable us) :
    Readable rest := by
  cases h with
  | separated hu => exact hus.tail (plain_separator hu)
  | closed => exact hus

theorem Item.readable {source : List Char} {place : Place} {us rest : List Token} {s : Statement}
    (h : Item source place us s rest) (hus : Readable us) : Readable rest := by
  cases h with
  | simple d hsplit hover => exact hover.readable (hus.of_eq hsplit d.balanced)
  | compound c hsplit => exact hus.of_eq hsplit c.balanced

theorem simple_item {source : List Char} {make : Expression → Statement} {us rest : List Token}
    {s : Statement} {stop : Nat} (hus : Readable us)
    (h : Gives (Parse.simple source make us) s stop rest) :
    ∃ (c : Chain) (more : List Token), us = c.tokens ++ more ∧ Over more rest ∧
      s = make (c.expression source) := by
  obtain ⟨p, hp, h⟩ := Grammar.gives_bind_iff.mp h
  obtain ⟨c, hsplit, hvalue, -⟩ := exists_chain_of_parse hus.proper (.of_eq hp)
  have hmore := (hus.of_eq hsplit c.balanced).ne_nil
  cases hf : Parse.finish p.rest with
  | error e =>
    rw [hf] at h
    exact absurd h Grammar.not_gives_error
  | ok r =>
    rw [hf] at h
    obtain ⟨rfl, -, rfl⟩ := Grammar.gives_ok_iff.mp h
    exact ⟨c, p.rest, hsplit, over_of_finish hmore hf, by rw [hvalue]⟩

theorem breakStatement_item {source : List Char} {place : Place} {us rest : List Token}
    {s : Statement} {stop : Nat} (hus : Readable us)
    (h : Gives (Parse.breakStatement place.allowsBreak us) s stop rest) :
    Item source place us s rest := by
  unfold Parse.breakStatement at h
  split at h
  · exact absurd h Grammar.not_gives_error
  next hplace =>
    obtain ⟨p, hp, h⟩ := Grammar.gives_bind_iff.mp h
    obtain ⟨hsplit, hword, -⟩ := Grammar.accept_takes hp
    have hblock : place = .block := by simpa [Place.allowsBreak] using hplace
    let word : Word .breakWord := ⟨p.value, hword⟩
    have hmore := ((hsplit ▸ hus).tail (plain_word word)).ne_nil
    cases hf : Parse.finish p.rest with
    | error e =>
      rw [hf] at h
      exact absurd h Grammar.not_gives_error
    | ok r =>
      rw [hf] at h
      obtain ⟨rfl, -, rfl⟩ := Grammar.gives_ok_iff.mp h
      exact .simple (.breaking word hblock) hsplit (over_of_finish hmore hf) rfl

/-- A statement, with separators before it and statements behind it. -/
theorem Item.cons {source : List Char} {place : Place} {us rest more : List Token} {s : Statement}
    (h : Item source place us s rest) (separators : List Separator) (d : Statements place)
    {u : Token} (hu : Closes u) (hrest : rest = d.tokens ++ u :: more) :
    ∃ d' : Statements place, separators.unattach ++ us = d'.tokens ++ u :: more ∧
      d'.statements source = s :: d.statements source ∧
      d'.functions source = d.functions source := by
  cases h with
  | compound c hus hs =>
    refine ⟨.compound separators c d, ?_, by rw [hs, Statements.statements], rfl⟩
    simp [Statements.tokens, hus, hrest]
  | simple first hus hover hs =>
    cases hover with
    | @separated separator hseparator =>
      refine ⟨.simple separators first ⟨separator, hseparator⟩ d, ?_,
        by rw [hs, Statements.statements], rfl⟩
      simp [Statements.tokens, hus, hrest]
    | closed hv =>
      obtain rfl := d.eq_done hu hv hrest.symm
      refine ⟨.last separators first, ?_, by rw [hs, Statements.statements]; rfl, rfl⟩
      simp [Statements.tokens, hus, hrest]

/-- The tokens before the first one without the property. -/
theorem exists_unattach {q : Token → Bool} {us rest : List Token} {t : Token}
    (h : us.dropWhile q = t :: rest) :
    ∃ skipped : List { t : Token // q t = true }, us = skipped.unattach ++ t :: rest := by
  refine ⟨(us.takeWhile q).attachWith _ fun u hu => ?_, ?_⟩
  · exact List.all_eq_true.mp List.all_takeWhile u hu
  · rw [List.unattach_attachWith, ← h, List.takeWhile_append_dropWhile]

theorem Gives.shorter {us rest : List Token} {α : Type} {o : Parse.Outcome (Parse.Parsed us α)}
    {a : α} {stop : Nat} (h : Gives o a stop rest) : rest.length < us.length := by
  obtain ⟨p, -, -, -, rfl⟩ := h
  exact p.shorter

/-- What a branch may have behind its first block. -/
inductive Tail (source : List Char) (rest : List Token) :
    List Token → Option (List Statement) → Prop
  | none : Tail source rest rest none
  | block (newlines : List Newline) (word : Word .elseWord) {us : List Token}
      {ss : List Statement} {stop : Nat} (h : Gives (Parse.block source true us) ss stop rest) :
      Tail source rest (newlines.unattach ++ word.val :: us) (some ss)
  | branch (newlines : List Newline) (word : Word .elseWord) (start : Word .ifWord)
      {us : List Token} {s : Statement} {stop : Nat}
      (h : Gives (Parse.branch source us) s stop rest) :
      Tail source rest (newlines.unattach ++ word.val :: start.val :: us) (some [s])

section Blocks

variable {source : List Char}

theorem branch_cases {us rest : List Token} {s : Statement} {stop : Nat}
    (h : Gives (Parse.branch source us) s stop rest) :
    ∃ e stop₁ mid ss stop₂ after other, Gives (Parse.expression source us) e stop₁ mid ∧
      Gives (Parse.block source true mid) ss stop₂ after ∧ Tail source rest after other ∧
      s = .branch e ss other := by
  rw [Parse.branch] at h
  obtain ⟨p, hp, h⟩ := Grammar.gives_bind_iff.mp h
  obtain ⟨q, hq, h⟩ := Grammar.gives_bind_iff.mp h
  refine ⟨p.value, p.stop, p.rest, q.value, q.stop, q.rest, ?_⟩
  simp only [Grammar.Gives.of_eq hp, Grammar.Gives.of_eq hq, true_and]
  split at h
  · obtain ⟨rfl, -, rfl⟩ := Grammar.gives_ok_iff.mp h
    exact ⟨none, .none, rfl⟩
  next t more hr =>
    split at h
    case isFalse =>
      obtain ⟨rfl, -, rfl⟩ := Grammar.gives_ok_iff.mp h
      exact ⟨none, .none, rfl⟩
    next helse =>
      obtain ⟨newlines, hnewlines⟩ := exists_unattach hr
      let word : Word .elseWord := ⟨t, helse⟩
      rw [hnewlines]
      split at h
      · exact absurd h Grammar.not_gives_error
      next u inner =>
        split at h
        · next hif =>
          obtain ⟨r, hr', h⟩ := Grammar.gives_bind_iff.mp h
          obtain ⟨rfl, -, rfl⟩ := Grammar.gives_ok_iff.mp h
          exact ⟨some [r.value], .branch newlines word ⟨u, hif⟩ (.of_eq hr'), rfl⟩
        · obtain ⟨r, hr', h⟩ := Grammar.gives_bind_iff.mp h
          obtain ⟨rfl, -, rfl⟩ := Grammar.gives_ok_iff.mp h
          exact ⟨some r.value, .block newlines word (.of_eq hr'), rfl⟩

mutual

theorem statement_derived {place : Place} {us rest : List Token} {s : Statement} {stop : Nat}
    (hus : Readable us) (h : Gives (Parse.statement source place.allowsBreak us) s stop rest) :
    Item source place us s rest := by
  match us with
  | [] => exact absurd rfl hus.ne_nil
  | t :: us =>
    have hword : ∀ {k : Keyword}, t.kind = .keyword k → Readable us := by
      intro k hk
      exact hus.tail (plain_of_kind hk (by simp))
    rw [Parse.statement] at h
    split at h
    · next hk =>
      obtain ⟨p, hp, h⟩ := Grammar.gives_bind_iff.mp h
      obtain ⟨rfl, -, rfl⟩ := Grammar.gives_ok_iff.mp h
      obtain ⟨b, hsplit, hvalue⟩ := branch_derived (hword hk) (.of_eq hp)
      let start : Word .ifWord := ⟨t, by simp [Token.isKeyword, hk]⟩
      exact .compound (.branch start b) (congrArg (t :: ·) hsplit) hvalue
    · next hk =>
      obtain ⟨p, hp, h⟩ := Grammar.gives_bind_iff.mp h
      obtain ⟨q, hq, h⟩ := Grammar.gives_bind_iff.mp h
      obtain ⟨rfl, -, rfl⟩ := Grammar.gives_ok_iff.mp h
      have hshort := p.shorter
      obtain ⟨c, hsplit, hcondition, -⟩ := exists_chain_of_parse (hword hk).proper (.of_eq hp)
      have hmore := (hword hk).of_eq hsplit c.balanced
      obtain ⟨b, hsplit', hbody, hstop⟩ := block_derived .block hmore (.of_eq hq)
      let start : Word .whileWord := ⟨t, by simp [Token.isKeyword, hk]⟩
      refine .compound (.loop start c b) ?_ ?_
      · refine (congrArg (t :: ·) (hsplit.trans (congrArg (c.tokens ++ ·) hsplit'))).trans ?_
        simp [Compound.tokens, start]
      · rw [Compound.loop_statement, ← hcondition, ← hbody, ← hstop]
    · next hk =>
      obtain ⟨p, hp, h⟩ := Grammar.gives_bind_iff.mp h
      obtain ⟨rfl, -, rfl⟩ := Grammar.gives_ok_iff.mp h
      obtain ⟨c, more, hsplit, hover, hvalue⟩ := simple_item (hword hk) (.of_eq hp)
      let word : Word .returnWord := ⟨t, by simp [Token.isKeyword, hk]⟩
      exact .simple (.returning word c) (congrArg (t :: ·) hsplit) hover hvalue
    · next hk =>
      obtain ⟨p, hp, h⟩ := Grammar.gives_bind_iff.mp h
      obtain ⟨rfl, -, rfl⟩ := Grammar.gives_ok_iff.mp h
      obtain ⟨c, more, hsplit, hover, hvalue⟩ := simple_item (hword hk) (.of_eq hp)
      let word : Word .printWord := ⟨t, by simp [Token.isKeyword, hk]⟩
      exact .simple (.printing word c) (congrArg (t :: ·) hsplit) hover hvalue
    · exact breakStatement_item hus h
    · exact absurd h Grammar.not_gives_error
    · obtain ⟨c, more, hsplit, hover, hvalue⟩ := simple_item hus h
      exact .simple (.expression c) hsplit hover hvalue
termination_by 6 * us.length + 1

theorem branch_derived {us rest : List Token} {s : Statement} {stop : Nat} (hus : Readable us)
    (h : Gives (Parse.branch source us) s stop rest) :
    ∃ b : Branch, us = b.tokens ++ rest ∧ s = b.statement source := by
  obtain ⟨e, _, mid, ss, _, after, other, he, hss, htail, rfl⟩ := branch_cases h
  have hshort := Gives.shorter he
  have hshort' := Gives.shorter hss
  obtain ⟨c, rfl, rfl, -⟩ := exists_chain_of_parse hus.proper he
  have hmid := hus.of_eq rfl c.balanced
  obtain ⟨b, rfl, rfl, -⟩ := block_derived .block hmid hss
  have hafter := hmid.of_eq rfl b.balanced
  cases htail with
  | none => exact ⟨.mk c b .none, by simp [Branch.tokens, Otherwise.tokens], rfl⟩
  | @block newlines word us ss stop hblock =>
    have hus := (hafter.of_eq rfl (balanced_newlines newlines)).tail (plain_word word)
    simp only [List.length_append, List.length_cons] at hshort hshort'
    obtain ⟨other, rfl, rfl, -⟩ := block_derived .block hus hblock
    exact ⟨.mk c b (.block newlines word other), by simp [Branch.tokens, Otherwise.tokens], rfl⟩
  | @branch newlines word start us s stop hbranch =>
    have hus := ((hafter.of_eq rfl (balanced_newlines newlines)).tail (plain_word word)).tail
      (plain_word start)
    simp only [List.length_append, List.length_cons] at hshort hshort'
    obtain ⟨other, rfl, rfl⟩ := branch_derived hus hbranch
    exact ⟨.mk c b (.branch newlines word start other), by simp [Branch.tokens, Otherwise.tokens],
      rfl⟩
termination_by 6 * us.length

theorem block_derived (place : Place) {us rest : List Token} {ss : List Statement} {stop : Nat}
    (hus : Readable us) (h : Gives (Parse.block source place.allowsBreak us) ss stop rest) :
    ∃ b : Block place, us = b.tokens ++ rest ∧ ss = b.statements source ∧
      stop = stopOffset b.tokens := by
  rw [Parse.block] at h
  obtain ⟨p, hp, h⟩ := Grammar.gives_bind_iff.mp h
  obtain ⟨q, hq, h⟩ := Grammar.gives_bind_iff.mp h
  obtain ⟨rfl, rfl, rfl⟩ := Grammar.gives_ok_iff.mp h
  have hshort := p.shorter
  obtain ⟨hsplit, hopen, -⟩ := Grammar.accept_takes hp
  let opening : Marked .leftBrace := ⟨p.value, hopen⟩
  have hrest : Readable p.rest := hus.of_eq hsplit (plain_mark opening (by simp) (by simp)).balanced
  obtain ⟨d, u, hd, hclose, hvalue, hstop⟩ := statements_derived place hrest (.of_eq hq)
  refine ⟨.mk opening d ⟨u, hclose⟩, ?_, hvalue, ?_⟩
  · refine hsplit.trans ((congrArg (p.value :: ·) hd).trans ?_)
    simp [Block.tokens, opening, Parse.Parsed.weaken]
  · rw [Block.tokens, Grammar.stopOffset_concat]
    exact hstop
termination_by 6 * us.length

theorem statements_derived (place : Place) {us rest : List Token} {ss : List Statement}
    {stop : Nat} (hus : Readable us)
    (h : Gives (Parse.statements source place.allowsBreak us) ss stop rest) :
    ∃ (d : Statements place) (u : Token), us = d.tokens ++ u :: rest ∧
      u.isMark .rightBrace = true ∧ ss = d.statements source ∧ stop = u.stop.offset := by
  rw [Parse.statements] at h
  split at h
  · exact absurd h Grammar.not_gives_error
  next t more hd =>
    obtain ⟨separators, hsplit⟩ := exists_unattach hd
    split at h
    · next hclose =>
      obtain ⟨rfl, rfl, rfl⟩ := Grammar.gives_ok_iff.mp h
      exact ⟨.done separators, t, hsplit, hclose, rfl, rfl⟩
    split at h
    · exact absurd h Grammar.not_gives_error
    · obtain ⟨p, hp, h⟩ := Grammar.gives_bind_iff.mp h
      obtain ⟨q, hq, h⟩ := Grammar.gives_bind_iff.mp h
      obtain ⟨rfl, rfl, rfl⟩ := Grammar.gives_ok_iff.mp h
      have hlength : more.length + 1 ≤ us.length := by
        rw [← List.length_cons, ← hd]
        exact Parse.dropWhile_length_le Token.isSeparator us
      have hshort : p.rest.length < us.length := Nat.lt_of_lt_of_le p.shorter hlength
      have hmore := hus.of_eq hsplit (balanced_separators separators)
      have hitem := statement_derived hmore (.of_eq hp)
      obtain ⟨d, u, hrest, hclose, hvalue, hstop⟩ :=
        statements_derived place (hitem.readable hmore) (.of_eq hq)
      obtain ⟨d', hd', hstatements, -⟩ := hitem.cons separators d (.inl hclose) hrest
      refine ⟨d', u, hsplit.trans hd', hclose, ?_, hstop⟩
      rw [hstatements, ← hvalue]
      rfl
termination_by 6 * us.length + 2

end

end Blocks

/-! ### Functions and scripts -/

theorem identifier_takes {us : List Token} {p : Parse.Parsed us String}
    (h : Parse.identifier us = .ok p) :
    ∃ name : Leaf Token.identifier?, us = name.token :: p.rest ∧ p.value = name.value := by
  unfold Parse.identifier at h
  split at h
  · cases h
  next t rest =>
    split at h
    · next n hk =>
      cases h
      exact ⟨⟨t, n, Token.identifier?_eq_some.mpr hk⟩, rfl, rfl⟩
    · cases h

theorem someParameters_derived {us rest : List Token} {names : List String} {stop : Nat}
    (h : Gives (Parse.someParameters us) names stop rest) :
    ∃ (ps : Parameters) (closing : Marked .rightParen),
      us = ps.tokens ++ closing.val :: rest ∧ names = ps.names := by
  rw [Parse.someParameters] at h
  obtain ⟨p, hp, h⟩ := Grammar.gives_bind_iff.mp h
  obtain ⟨name, hname, hvalue⟩ := identifier_takes hp
  have hshort := p.shorter
  split at h
  · exact absurd h Grammar.not_gives_error
  next t more hr =>
    rw [hr] at hname hshort
    split at h
    · next hclose =>
      obtain ⟨rfl, -, rfl⟩ := Grammar.gives_ok_iff.mp h
      exact ⟨.one name, ⟨t, hclose⟩, hname, by simp [Parameters.names, hvalue]⟩
    split at h
    · next hcomma =>
      obtain ⟨q, hq, h⟩ := Grammar.gives_bind_iff.mp h
      obtain ⟨rfl, -, rfl⟩ := Grammar.gives_ok_iff.mp h
      have hlength : more.length < us.length := by
        rw [List.length_cons] at hshort
        omega
      obtain ⟨ps, closing, hmore, hnames⟩ := someParameters_derived (.of_eq hq)
      refine ⟨.more name ⟨t, hcomma⟩ ps, closing, ?_, ?_⟩
      · exact hname.trans (congrArg (name.token :: t :: ·) hmore)
      · simp [Parse.Parsed.map, Parse.Parsed.weaken, Parameters.names, hvalue, hnames]
    · exact absurd h Grammar.not_gives_error
termination_by us.length

theorem parameters_derived {us rest : List Token} {names : List String} {stop : Nat}
    (h : Gives (Parse.parameters us) names stop rest) :
    ∃ (parameters : Option Parameters) (closing : Marked .rightParen),
      us = parameterTokens parameters ++ closing.val :: rest ∧
      names = parameterNames parameters := by
  unfold Parse.parameters at h
  split at h
  · exact absurd h Grammar.not_gives_error
  next t more =>
    split at h
    · next hclose =>
      obtain ⟨rfl, -, rfl⟩ := Grammar.gives_ok_iff.mp h
      exact ⟨none, ⟨t, hclose⟩, rfl, rfl⟩
    · obtain ⟨ps, closing, hus, hnames⟩ := someParameters_derived h
      exact ⟨some ps, closing, hus, hnames⟩

theorem function_derived {source : List Char} {us rest : List Token} {f : Function} {stop : Nat}
    (hus : Readable us) (h : Gives (Parse.function source us) f stop rest) :
    ∃ d : Definition, us = d.tokens ++ rest ∧ f = d.function source := by
  obtain ⟨p₁, h₁, h⟩ := Grammar.gives_bind_iff.mp h
  obtain ⟨p₂, h₂, h⟩ := Grammar.gives_bind_iff.mp h
  obtain ⟨p₃, h₃, h⟩ := Grammar.gives_bind_iff.mp h
  obtain ⟨p₄, h₄, h⟩ := Grammar.gives_bind_iff.mp h
  obtain ⟨p₅, h₅, h⟩ := Grammar.gives_bind_iff.mp h
  obtain ⟨rfl, -, rfl⟩ := Grammar.gives_ok_iff.mp h
  obtain ⟨hsplit₁, hstart, -⟩ := Grammar.accept_takes h₁
  obtain ⟨name, hsplit₂, hname⟩ := identifier_takes h₂
  obtain ⟨hsplit₃, hopening, -⟩ := Grammar.accept_takes h₃
  obtain ⟨parameters, closing, hsplit₄, hnames⟩ := parameters_derived (.of_eq h₄)
  let start : Word .fnWord := ⟨p₁.value, hstart⟩
  let opening : Marked .leftParen := ⟨p₃.value, hopening⟩
  have hfront : us = (start.val :: name.token
      :: (opening.val :: parameterTokens parameters ++ [closing.val])) ++ p₄.rest := by
    refine hsplit₁.trans (congrArg (p₁.value :: ·) (hsplit₂.trans ?_))
    refine congrArg (name.token :: ·) (hsplit₃.trans ?_)
    refine (congrArg (p₃.value :: ·) hsplit₄).trans ?_
    simp [opening]
  have hbalanced := Balanced.cons (plain_word start) (.cons (plain_name name)
    (.parens opening.property (balanced_parameters parameters) closing.property))
  obtain ⟨body, hsplit₅, hbody, hstop⟩ :=
    block_derived .body (hus.of_eq hfront hbalanced) (.of_eq h₅)
  refine ⟨.mk start name opening parameters closing body, ?_, ?_⟩
  · refine hfront.trans ((congrArg _ hsplit₅).trans ?_)
    simp [Definition.tokens]
  · rw [Definition.function_eq, hname, hnames, hbody, hstop]

/-- What the parser returns is the program of some statements before an end. -/
theorem program_derived {source : List Char} {us : List Token} {p : Program} (hus : Readable us)
    (h : Parse.program source us = .ok p) :
    ∃ (d : Statements .top) (e : Token) (more : List Token), us = d.tokens ++ e :: more ∧
      e.isEnd = true ∧ p = ⟨d.statements source, d.functions source⟩ := by
  rw [Parse.program] at h
  split at h
  · next hd =>
    obtain ⟨e, he, hend⟩ := hus.ended
    have hseparator : e.isSeparator = true :=
      List.dropWhile_eq_nil_iff.mp hd e (List.mem_of_getLast? he)
    exact absurd hend (by simp [(plain_separator hseparator).balanced.notEnd])
  next t more hd =>
    obtain ⟨separators, hsplit⟩ := exists_unattach hd
    have hmore := hus.of_eq hsplit (balanced_separators separators)
    have hlength : more.length + 1 ≤ us.length := by
      rw [← List.length_cons, ← hd]
      exact Parse.dropWhile_length_le Token.isSeparator us
    split at h
    · next hend =>
      cases h
      exact ⟨.done separators, t, more, hsplit, hend, rfl⟩
    split at h
    · obtain ⟨f, hf, h⟩ := Parse.exists_of_bind_eq_ok h
      obtain ⟨tail, ht, h⟩ := Parse.exists_of_bind_eq_ok h
      have hshort : f.rest.length < us.length := Nat.lt_of_lt_of_le f.shorter hlength
      obtain ⟨g, hg, hvalue⟩ := function_derived hmore (.of_eq hf)
      obtain ⟨d, e, after, hrest, hend, rfl⟩ := program_derived (hmore.of_eq hg g.balanced) ht
      cases h
      refine ⟨.function separators g d, e, after, ?_, hend, ?_⟩
      · rw [hsplit, hg, hrest]
        simp [Statements.tokens]
      · rw [hvalue]
        rfl
    · obtain ⟨s, hs, h⟩ := Parse.exists_of_bind_eq_ok h
      obtain ⟨tail, ht, h⟩ := Parse.exists_of_bind_eq_ok h
      have hshort : s.rest.length < us.length := Nat.lt_of_lt_of_le s.shorter hlength
      have hitem : Item source .top _ _ _ := statement_derived hmore (.of_eq hs)
      obtain ⟨d, e, after, hrest, hend, rfl⟩ := program_derived (hitem.readable hmore) ht
      cases h
      obtain ⟨d', hd', hstatements, hfunctions⟩ := hitem.cons separators d (.inr hend) hrest
      exact ⟨d', e, after, hsplit.trans hd', hend, by rw [hstatements, hfunctions]⟩
termination_by us.length

/-! ### Sources -/

theorem parseTokens_eq_ok_iff {source : String} {ts : List Token} {p : Program} :
    parseTokens source ts = .ok p ↔ Parse.program source.toList ts = .ok p := by
  unfold parseTokens
  simp only
  split
  · next h => simp [h]
  · next h => simp [h]

theorem parse_bind_iff {source : String} {p : Program} :
    parse source = .ok p ↔ ∃ ts, tokenize source = .ok ts ∧ parseTokens source ts = .ok p := by
  unfold parse
  cases tokenize source with
  | error e => simp [bind, Except.bind]
  | ok ts => simp [bind, Except.bind]

theorem exists_of_isOk {ε α : Type} {x : Except ε α} (h : x.isOk = true) : ∃ a, x = .ok a := by
  cases x with
  | ok a => exact ⟨a, rfl⟩
  | error e => cases h

/-- What the parser accepts of the tokens of a source is a script. -/
theorem exists_script {source : String} {ts : List Token} (hts : tokenize source = .ok ts)
    {p : Program} (h : parseTokens source ts = .ok p) :
    ∃ d : Script, d.tokens = ts ∧ p = d.program source.toList := by
  obtain ⟨us, s, here, hsteps, -, rfl⟩ := tokenize_eq_ok_iff.mp hts
  have hreadable : Readable (us ++ [Scan.ending here]) :=
    ⟨fun t ht => proper_of_sound (tokenize_sound hts t ht), Scan.ending here, by simp, rfl⟩
  obtain ⟨d, e, more, hsplit, he, hp⟩ := program_derived hreadable (parseTokens_eq_ok_iff.mp h)
  -- the end stands behind all other tokens of the source, and behind those of the statements
  obtain ⟨rfl, rfl, rfl⟩ := append_cons_inj (q := (!·.isEnd)) (by simpa using hsteps.not_isEnd)
    (by simpa using d.balanced.notEnd) rfl (by simpa using he) hsplit
  exact ⟨⟨d, ⟨Scan.ending here, rfl⟩⟩, rfl, hp⟩

/-- A source is parsed if the statements of some derivation are read from it, up to its end. -/
theorem parse_eq_ok_iff {source : String} {p : Program} :
    parse source = .ok p ↔ ∃ (d : Statements .top) (s : Scan.Point) (here : Location),
      Scan.Steps ⟨0, .start, source.toList⟩ d.tokens s ∧ Scan.Ended s here ∧
      p = ⟨d.statements source.toList, d.functions source.toList⟩ := by
  rw [parse_bind_iff]
  constructor
  · rintro ⟨ts, hts, h⟩
    obtain ⟨⟨d, e⟩, hd, hp⟩ := exists_script hts h
    obtain ⟨us, s, here, hsteps, hended, rfl⟩ := tokenize_eq_ok_iff.mp hts
    obtain ⟨rfl, -⟩ := List.append_inj' hd rfl
    exact ⟨d, s, here, hsteps, hended, hp⟩
  · rintro ⟨d, s, here, hsteps, hended, rfl⟩
    refine ⟨_, tokenize_eq_ok_iff.mpr ⟨d.tokens, s, here, hsteps, hended, rfl⟩, ?_⟩
    exact parseTokens_eq_ok_iff.mpr (d.parse_program source.toList (u := Scan.ending here) rfl [])

end Abacus.Derivation
