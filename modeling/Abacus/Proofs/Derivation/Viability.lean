import Abacus.Proofs.Derivation.Expectation

/-!
The first token that no script goes on with.

Whatever stack of goals a script has come to, there are tokens that meet all of them. So the tokens
that fit are those that some script starts with, and the parser fails at the first token that does
not fit: the tokens before it start a script, and no script starts with them and that token.
-/
namespace Abacus.Derivation

/-- The tokens start a script, as far as their kinds tell. -/
def Viable (ts : List Token) : Prop :=
  ∃ d : Script, ts.map Token.kind <+: d.tokens.map Token.kind

/-! ### Only kinds matter -/

theorem step_congr (goals : List Goal) {t t' : Token} (h : t.kind = t'.kind) :
    step goals t = step goals t' := by
  obtain ⟨k, lexeme, start, stop⟩ := t
  obtain ⟨k', lexeme', start', stop'⟩ := t'
  obtain rfl : k = k' := h
  induction goals with
  | nil => rfl
  | cons g goals ih =>
    have hanswer : g.answer ⟨k, lexeme, start, stop⟩ = g.answer ⟨k, lexeme', start', stop'⟩ := by
      cases g <;> rfl
    rw [step, step, hanswer, ih]

theorem fits_congr (goals : List Goal) {ts ts' : List Token}
    (h : ts.map Token.kind = ts'.map Token.kind) : fits goals ts = fits goals ts' := by
  induction ts generalizing goals ts' with
  | nil =>
    rw [List.map_nil] at h
    rw [List.map_eq_nil_iff.mp h.symm]
  | cons t ts ih =>
    obtain ⟨t', us, rfl, ht, hus⟩ := List.map_eq_cons_iff.mp h.symm
    rw [fits, fits, step_congr goals ht]
    split
    · rfl
    · exact ih _ hus.symm

/-! ### Meeting the goals -/

/-- A token of the given kind, wherever it stands. -/
def tokenOf (k : TokenKind) : Token := ⟨k, "", .start, .start⟩

/-- Kinds of tokens that meet a goal. -/
def Goal.meeting : Goal → List TokenKind
  | operand => [.keyword .piWord]
  | chain => []
  | call => [.mark .leftParen, .mark .rightParen]
  | arguments => [.mark .rightParen]
  | moreArguments => [.mark .rightParen]
  | opening => [.mark .leftParen]
  | closing => [.mark .rightParen]
  | statement _ => [.keyword .piWord, .mark .semicolon]
  | finish => [.mark .semicolon]
  | otherwise => [.keyword .elseWord, .mark .leftBrace, .mark .rightBrace]
  | alternative => [.mark .leftBrace, .mark .rightBrace]
  | block _ => [.mark .leftBrace, .mark .rightBrace]
  | statements _ => [.mark .rightBrace]
  | name => [.identifier "x"]
  | parameters => [.mark .rightParen]
  | moreParameters => [.mark .rightParen]
  | top => [.endOfInput]

def meeting (goals : List Goal) : List Token := (goals.flatMap Goal.meeting).map tokenOf

theorem meeting_cons (g : Goal) (goals : List Goal) :
    meeting (g :: goals) = g.meeting.map tokenOf ++ meeting goals := by
  rw [meeting, List.flatMap_cons, List.map_append, meeting]

/-- None of them is an operator. -/
theorem operator?_of_meeting {goals : List Goal} {t : Token} (ht : t ∈ meeting goals) :
    t.binaryOperator? = none ∧ t.prefixOperator? = none := by
  obtain ⟨k, hk, rfl⟩ := List.mem_map.mp ht
  obtain ⟨g, -, hk⟩ := List.mem_flatMap.mp hk
  have hall : ∀ k ∈ g.meeting,
      (tokenOf k).binaryOperator? = none ∧ (tokenOf k).prefixOperator? = none := by
    cases g <;> simp [Goal.meeting, tokenOf, Token.binaryOperator?, Token.prefixOperator?]
  exact hall k hk

/-- The tokens that meet some goals fit them. -/
theorem fits_meeting (goals : List Goal) : fits goals (meeting goals) = true := by
  induction goals with
  | nil => rfl
  | cons g goals ih =>
    rw [meeting_cons]
    cases g with
    | chain =>
      -- nothing meets this goal but what is no operator, and that is left to the next goal
      have hmem := fun t => @operator?_of_meeting goals t
      simp only [Goal.meeting, List.map_nil, List.nil_append]
      cases hmeeting : meeting goals with
      | nil => rfl
      | cons t ts =>
        rw [hmeeting] at ih hmem
        have hoperator : t.binaryOperator? = none := (hmem t (by simp)).1
        rw [fits, step_of_passes (by simp [Goal.answer, hoperator])]
        exact ih
    | _ => exact ih

/-- The goals go on up to the end. -/
def OpenEnded (goals : List Goal) : Prop := ∃ inner, goals = inner ++ [.top]

theorem OpenEnded.append {goals : List Goal} (h : OpenEnded goals) (more : List Goal) :
    OpenEnded (more ++ goals) := by
  obtain ⟨inner, rfl⟩ := h
  exact ⟨more ++ inner, by simp⟩

theorem openEnded_of_top {t : Token} (ht : t.isEnd = false) {more : List Goal}
    (h : Goal.top.answer t = .takes more) : OpenEnded more := by
  rw [Goal.answer] at h
  split at h
  · cases h
    exact ⟨[], rfl⟩
  rw [ht] at h
  simp only [Bool.false_eq_true, if_false] at h
  split at h
  · cases h
    exact ⟨[.name, .opening, .parameters, .block false], rfl⟩
  · unfold Answer.before at h
    split at h
    · next front _ =>
      cases h
      exact ⟨front, rfl⟩
    · cases h
    · cases h

theorem OpenEnded.step {goals goals' : List Goal} (hgoals : OpenEnded goals) {t : Token}
    (ht : t.isEnd = false) (h : step goals t = some goals') : OpenEnded goals' := by
  obtain ⟨inner, rfl⟩ := hgoals
  induction inner with
  | nil =>
    rw [List.nil_append, Derivation.step] at h
    split at h
    · next more hanswer =>
      cases h
      rw [List.append_nil]
      exact openEnded_of_top ht hanswer
    · cases h
    · cases h
  | cons g inner ih =>
    rw [List.cons_append, Derivation.step] at h
    split at h
    · next more _ =>
      cases h
      exact OpenEnded.append ⟨inner, rfl⟩ more
    · exact ih h
    · cases h

theorem meeting_of_openEnded {goals : List Goal} (h : OpenEnded goals) :
    ∃ ts, meeting goals = ts ++ [tokenOf .endOfInput] := by
  obtain ⟨inner, rfl⟩ := h
  exact ⟨meeting inner, by simp [meeting, Goal.meeting]⟩

/-- Tokens that fit can be gone on with up to the end. -/
theorem exists_fits_of_append {goals : List Goal} (hgoals : OpenEnded goals) {ts : List Token}
    (hts : ∀ t ∈ ts, t.isEnd = false) (h : fits goals ts = true) :
    ∃ more, fits goals (ts ++ more ++ [tokenOf .endOfInput]) = true ∧
      ∀ t ∈ more, t.prefixOperator? = none := by
  induction ts generalizing goals with
  | nil =>
    obtain ⟨more, hmore⟩ := meeting_of_openEnded hgoals
    refine ⟨more, ?_, fun t ht => ?_⟩
    · rw [List.nil_append, ← hmore]
      exact fits_meeting goals
    · exact (operator?_of_meeting (hmore ▸ List.mem_append_left _ ht)).2
  | cons t ts ih =>
    rw [fits] at h
    split at h
    · cases h
    · next goals' hstep =>
      obtain ⟨more, hmore, hprefix⟩ := ih (hgoals.step (hts t (by simp)) hstep)
        (fun u hu => hts u (by simp [hu])) h
      refine ⟨more, ?_, hprefix⟩
      rw [List.cons_append, List.cons_append, fits, hstep]
      exact hmore

/-! ### The parser's failures -/

/-- All tokens of a script fit. -/
theorem Script.fits (d : Script) : fits [.top] d.tokens = true := by
  have hread := program_reads [] d.tokens ⟨d.ending.val, by simp [Script.tokens], d.ending.property⟩
  rw [d.parse] at hread
  obtain ⟨used, e, more, hsplit, hend, hfits⟩ := hread
  rcases List.eq_nil_or_concat more with rfl | ⟨front, last, rfl⟩
  · rw [hsplit]
    exact hfits
  · -- the end stands behind everything else
    rw [Script.tokens, List.concat_eq_append, ← List.cons_append, ← List.append_assoc] at hsplit
    obtain ⟨hstatements, -⟩ := List.append_inj' hsplit rfl
    have hnot := d.statements.balanced.notEnd e (by simp [hstatements])
    exact absurd hend (by simp [hnot])

theorem not_viable_of_fits {ts : List Token} (h : fits [.top] ts = false) : ¬ Viable ts := by
  rintro ⟨d, more, hmore⟩
  obtain ⟨front, back, hsplit, hfront, -⟩ := List.map_eq_append_iff.mp hmore.symm
  have hfits := d.fits
  rw [hsplit] at hfits
  rw [fits_congr _ hfront.symm, fits_of_append _ _ _ hfits] at h
  cases h

/-- Tokens that fit start a script. -/
theorem exists_script_of_fits {ts : List Token} (hproper : ∀ t ∈ ts, Grammar.Proper t)
    (hts : ∀ t ∈ ts, t.isEnd = false) (h : fits [.top] ts = true) :
    ∃ d : Script, ts <+: d.tokens := by
  obtain ⟨more, hfits, hmore⟩ := exists_fits_of_append ⟨[], rfl⟩ hts h
  let us := ts ++ more ++ [tokenOf .endOfInput]
  have hlast : tokenOf .endOfInput ∈ us := by simp [us]
  have hreadable : Readable us := by
    refine ⟨fun t ht => ?_, tokenOf .endOfInput, by simp [us], rfl⟩
    simp only [us, List.mem_append, List.mem_singleton] at ht
    rcases ht with (ht | ht) | rfl
    · exact hproper t ht
    · intro op hop
      simp [hmore t ht] at hop
    · intro op hop
      cases hop
  -- the parser cannot fail on tokens that fit, and so it finds a derivation
  have hread := program_reads [] us ⟨_, hlast, rfl⟩
  cases hprogram : Parse.program [] us with
  | error e =>
    rw [hprogram] at hread
    obtain ⟨hne, used, hused, hleads⟩ := hread
    obtain ⟨t, after, rfl⟩ := List.exists_cons_of_ne_nil hne
    have hfails : fits [.top] (used ++ [t]) = false := hleads [t] ⟨after, rfl⟩
    have hfits' : fits [.top] us = true := hfits
    rw [hused, List.append_cons] at hfits'
    rw [fits_of_append _ _ _ hfits'] at hfails
    cases hfails
  | ok p =>
    obtain ⟨d, e, rest, hd, he, -⟩ := program_derived hreadable hprogram
    refine ⟨⟨d, e, he⟩, ?_⟩
    have hfront : ts <+: d.tokens ++ [e] ++ rest :=
      ⟨more ++ [tokenOf .endOfInput], by simp [← hd, us]⟩
    rcases List.prefix_or_prefix_of_prefix hfront ⟨rest, rfl⟩ with hts' | hts'
    · exact hts'
    · exact absurd he (by simp [hts e (hts'.subset (by simp))])

/-- The parser of scripts fails at the first token that no script goes on with. -/
theorem program_fails_at_first {source : List Char} {us : List Token} {ending : Token}
    (hproper : ∀ t ∈ us, Grammar.Proper t) (hus : ∀ t ∈ us, t.isEnd = false)
    (hending : ending.isEnd = true) {e : List Token}
    (h : Parse.program source (us ++ [ending]) = .error e) :
    ∃ before t after, e = t :: after ∧ us ++ [ending] = before ++ t :: after ∧
      Viable before ∧ ¬ Viable (before ++ [t]) := by
  have hread := program_reads source (us ++ [ending]) ⟨ending, by simp, hending⟩
  rw [h] at hread
  obtain ⟨hne, before, hsplit, hleads⟩ := hread
  obtain ⟨t, after, rfl⟩ := List.exists_cons_of_ne_nil hne
  refine ⟨before, t, after, rfl, hsplit, ?_, not_viable_of_fits (hleads [t] ⟨after, rfl⟩)⟩
  have hfits : fits [.top] before = true := by simpa [fits] using hleads [] List.nil_prefix
  have hbefore : before <+: us := by
    have hfront : before <+: us ++ [ending] := ⟨t :: after, hsplit.symm⟩
    have hlength : before.length ≤ us.length := by
      have := congrArg List.length hsplit
      simp only [List.length_append, List.length_cons, List.length_nil] at this
      omega
    exact List.prefix_of_prefix_length_le hfront (List.prefix_append us [ending]) hlength
  obtain ⟨d, hd⟩ := exists_script_of_fits (fun u hu => hproper u (hbefore.subset hu))
    (fun u hu => hus u (hbefore.subset hu)) hfits
  exact ⟨d, hd.map Token.kind⟩

end Abacus.Derivation
