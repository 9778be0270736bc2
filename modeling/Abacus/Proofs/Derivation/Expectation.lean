import Abacus.Proofs.Derivation.Recognition

/-!
What a script is expected to go on with.

Reading a script token by token, one can keep a stack of what is still expected, and each token
either fits the stack or does not. The parser does just that: where it succeeds, the tokens that it
takes fit, and where it fails, those before the one that it fails at fit and that one does not.

    x = ( 1 +        operand, chain, closing, chain, finish, top

The one place where the parser looks further than to the next token is behind the block of a branch,
where there may be line breaks before an `else`. If there is no `else`, these line breaks separate
statements instead, and every stack on which the branch stands takes them too.
-/
namespace Abacus.Derivation

open Parse (Outcome Parsed)

/-! ### Goals -/

/-- Something that is expected, or that may come. -/
inductive Goal where
  | operand
  /-- More operands of an expression. -/
  | chain
  /-- Arguments of a call, behind its name. -/
  | call
  /-- Arguments of a call from behind the opening parenthesis on. -/
  | arguments
  | moreArguments
  | opening
  | closing
  | statement (allowBreak : Bool)
  /-- The end of a simple statement. -/
  | finish
  /-- An `else`, behind the block of a branch. -/
  | otherwise
  /-- What stands behind an `else`. -/
  | alternative
  | block (allowBreak : Bool)
  /-- Statements up to the closing brace. -/
  | statements (allowBreak : Bool)
  | name
  /-- Parameters of a function from behind the opening parenthesis on. -/
  | parameters
  | moreParameters
  /-- Statements and functions up to the end. -/
  | top

/-- What a goal makes of a token. -/
inductive Answer where
  /-- The token fits, and the given goals take the place of the goal. -/
  | takes (goals : List Goal)
  /-- Nothing more is expected, and the token is left to the next goal. -/
  | passes
  | fails

/-- The same answer, with further goals behind those that it gives. -/
def Answer.before (a : Answer) (behind : List Goal) : Answer :=
  match a with
  | takes goals => takes (goals ++ behind)
  | passes => passes
  | fails => fails

def operandAnswer (t : Token) : Answer :=
  if Parse.isPrefixOperator t then .takes [.operand]
  else
    match t.kind with
    | .number _ => .takes []
    | .keyword .piWord => .takes []
    | .identifier _ => .takes [.call]
    | .mark .leftParen => .takes [.operand, .chain, .closing]
    | _ => .fails

def statementAnswer (allowBreak : Bool) (t : Token) : Answer :=
  match t.kind with
  | .keyword .ifWord => .takes [.operand, .chain, .block true, .otherwise]
  | .keyword .whileWord => .takes [.operand, .chain, .block true]
  | .keyword .returnWord => .takes [.operand, .chain, .finish]
  | .keyword .printWord => .takes [.operand, .chain, .finish]
  | .keyword .breakWord => if allowBreak then .takes [.finish] else .fails
  | .keyword .fnWord => .fails
  | _ => (operandAnswer t).before [.chain, .finish]

def Goal.answer (g : Goal) (t : Token) : Answer :=
  match g with
  | operand => operandAnswer t
  | chain => if t.binaryOperator?.isSome then .takes [operand, chain] else .passes
  | call => if t.isMark .leftParen then .takes [arguments] else .passes
  | arguments =>
    if t.isMark .rightParen then .takes [] else (operandAnswer t).before [chain, moreArguments]
  | moreArguments =>
    if t.isMark .rightParen then .takes []
    else if t.isMark .comma then .takes [operand, chain, moreArguments]
    else .fails
  | opening => if t.isMark .leftParen then .takes [] else .fails
  | closing => if t.isMark .rightParen then .takes [] else .fails
  | statement allowBreak => statementAnswer allowBreak t
  | finish =>
    if t.isSeparator then .takes []
    else if t.isMark .rightBrace || t.isEnd then .passes
    else .fails
  | otherwise =>
    if t.isNewline then .takes [otherwise]
    else if t.isKeyword .elseWord then .takes [alternative]
    else .passes
  | alternative =>
    if t.isKeyword .ifWord then .takes [operand, chain, block true, otherwise]
    else if t.isMark .leftBrace then .takes [statements true]
    else .fails
  | block allowBreak => if t.isMark .leftBrace then .takes [statements allowBreak] else .fails
  | statements allowBreak =>
    if t.isSeparator then .takes [statements allowBreak]
    else if t.isMark .rightBrace then .takes []
    else (statementAnswer allowBreak t).before [statements allowBreak]
  | name => if t.identifier?.isSome then .takes [] else .fails
  | parameters =>
    if t.isMark .rightParen then .takes []
    else if t.identifier?.isSome then .takes [moreParameters]
    else .fails
  | moreParameters =>
    if t.isMark .rightParen then .takes []
    else if t.isMark .comma then .takes [name, moreParameters]
    else .fails
  | top =>
    if t.isSeparator then .takes [top]
    else if t.isEnd then .takes []
    else if t.isKeyword .fnWord then .takes [name, opening, parameters, block false, top]
    else (statementAnswer false t).before [top]

/-- The goals behind a token, if it fits. -/
def step : List Goal → Token → Option (List Goal)
  | [], _ => none
  | g :: goals, t =>
    match g.answer t with
    | .takes more => some (more ++ goals)
    | .passes => step goals t
    | .fails => none

/-- All of the tokens fit, one behind the other. -/
def fits (goals : List Goal) : List Token → Bool
  | [] => true
  | t :: ts =>
    match step goals t with
    | none => false
    | some goals => fits goals ts

section Steps

variable {g : Goal} {goals : List Goal} {t : Token}

theorem step_of_takes (more : List Goal) (h : g.answer t = .takes more) :
    step (g :: goals) t = some (more ++ goals) := by
  rw [step, h]

theorem step_of_passes (h : g.answer t = .passes) : step (g :: goals) t = step goals t := by
  rw [step, h]

theorem step_of_fails (h : g.answer t = .fails) : step (g :: goals) t = none := by
  rw [step, h]

/-- An answer that is not left to the next goal is the same with goals behind it. -/
theorem step_before (g' : Goal) (more : List Goal)
    (h : g.answer t = (g'.answer t).before more) (hg' : g'.answer t ≠ .passes) :
    step (g :: goals) t = step (g' :: (more ++ goals)) t := by
  rw [step, step, h]
  cases hanswer : g'.answer t with
  | takes front => simp only [Answer.before, List.append_assoc]
  | passes => exact absurd hanswer hg'
  | fails => rfl

theorem operandAnswer_ne_passes (t : Token) : operandAnswer t ≠ .passes := by
  unfold operandAnswer
  split
  · simp
  · split <;> simp

theorem statementAnswer_ne_passes (allowBreak : Bool) (t : Token) :
    statementAnswer allowBreak t ≠ .passes := by
  unfold statementAnswer
  split
  case h_5 => split <;> simp
  case h_7 =>
    have hoperand := operandAnswer_ne_passes t
    unfold Answer.before
    split <;> simp_all
  all_goals simp

end Steps

theorem fits_of_append (goals : List Goal) (ts us : List Token) (h : fits goals (ts ++ us) = true) :
    fits goals ts = true := by
  induction ts generalizing goals with
  | nil => rfl
  | cons t ts ih =>
    rw [List.cons_append, fits] at h
    rw [fits]
    split at h
    · cases h
    · next goals' hstep => exact ih goals' h

/-! ### From one stack to another -/

/-- Reading from `us` down to `rest` leads from the one stack to the other: the tokens of `rest` fit
the one behind those before them as far as they fit the other. -/
def Leads (goals : List Goal) (us rest : List Token) (goals' : List Goal) : Prop :=
  ∃ used, us = used ++ rest ∧
    ∀ front, front <+: rest → fits goals (used ++ front) = fits goals' front

section Leads

variable {a b c : List Goal} {us vs ws : List Token} {t : Token}

theorem Leads.refl (a : List Goal) (us : List Token) : Leads a us us a :=
  ⟨[], rfl, fun _ _ => rfl⟩

theorem Leads.trans (h : Leads a us vs b) (h' : Leads b vs ws c) : Leads a us ws c := by
  obtain ⟨used, rfl, hused⟩ := h
  obtain ⟨used', rfl, hused'⟩ := h'
  refine ⟨used ++ used', by simp, fun front hfront => ?_⟩
  rw [List.append_assoc, hused _ ((List.prefix_append_right_inj used').mpr hfront),
    hused' front hfront]

theorem leads_nil (a b : List Goal) : Leads a [] [] b := by
  refine ⟨[], rfl, fun front hfront => ?_⟩
  rw [List.prefix_nil.mp hfront]
  rfl

theorem leads_of_step (h : step a t = some b) (us : List Token) : Leads a (t :: us) us b := by
  refine ⟨[t], rfl, fun front _ => ?_⟩
  rw [List.singleton_append, fits, h]

theorem leads_of_eq (h : step a t = step b t) (us : List Token) :
    Leads a (t :: us) (t :: us) b := by
  refine ⟨[], rfl, fun front hfront => ?_⟩
  rw [List.nil_append]
  cases front with
  | nil => rfl
  | cons u front =>
    obtain ⟨rfl, -⟩ := List.cons_prefix_cons.mp hfront
    rw [fits, fits, h]

end Leads

/-- What a parser does with `us` fits the one stack, and what it leaves fits the other. Nothing fits
behind a failure. -/
def Reads (a : List Goal) (us : List Token) {vs : List Token} {α : Type}
    (o : Outcome (Parsed vs α)) (b : List Goal) : Prop :=
  match o with
  | .ok p => Leads a us p.rest b
  | .error e => Leads a us e []

section Reads

variable {a b c : List Goal} {us vs ws : List Token} {α β : Type} {t : Token}
  {o : Outcome (Parsed vs α)}

theorem Leads.reads (h : Leads a us ws b) (ho : Reads b ws o c) : Reads a us o c := by
  cases o with
  | ok p => exact h.trans ho
  | error e => exact h.trans ho

theorem Reads.take (ho : Reads b us o c) (h : step a t = some b) : Reads a (t :: us) o c :=
  (leads_of_step h us).reads ho

theorem Reads.of_eq (ho : Reads b (t :: us) o c) (h : step a t = step b t) :
    Reads a (t :: us) o c := (leads_of_eq h us).reads ho

theorem reads_ok {p : Parsed vs α} (h : p.rest = us) : Reads a us (.ok p) a := by
  subst h
  exact .refl a p.rest

theorem reads_taken {p : Parsed vs α} (h : step a t = some b) (hp : p.rest = us) :
    Reads a (t :: us) (.ok p) b := by
  subst hp
  exact leads_of_step h p.rest

theorem reads_passed {p : Parsed vs α} (h : step a t = step b t) (hp : p.rest = t :: us) :
    Reads a (t :: us) (.ok p) b := by
  have hread : Reads b (t :: us) (.ok p) b := reads_ok hp
  exact hread.of_eq h

theorem reads_error (h : step a t = none) (us : List Token) :
    Reads a (t :: us) (.error (t :: us) : Outcome (Parsed vs α)) b :=
  leads_of_eq h us

theorem reads_error_nil : Reads a [] (.error [] : Outcome (Parsed vs α)) b := leads_nil a []

theorem Reads.bind (ho : Reads a us o b) {f : Parsed vs α → Outcome (Parsed ws β)}
    (hf : ∀ p, Reads b p.rest (f p) c) : Reads a us (o >>= f) c := by
  cases o with
  | ok p => exact Leads.reads ho (hf p)
  | error e => exact ho

theorem Reads.map (ho : Reads a us o b) {f : Parsed vs α → Parsed ws β}
    (hf : ∀ p, (f p).rest = p.rest) : Reads a us (o >>= fun p => .ok (f p)) b :=
  ho.bind fun p => reads_ok (hf p)

end Reads

/-! ### Expressions -/

theorem accept_reads {a b : List Goal} {q : Token → Bool}
    (htrue : ∀ t, q t = true → step a t = some b) (hfalse : ∀ t, q t = false → step a t = none)
    (us : List Token) : Reads a us (Parse.accept q us) b := by
  cases us with
  | nil => exact reads_error_nil
  | cons t us =>
    rw [Parse.accept]
    split
    · next ht => exact reads_taken (htrue t ht) rfl
    · next ht => exact reads_error (hfalse t (by simpa using ht)) us

theorem accept_mark {g : Goal} {m : Mark} (more : List Goal)
    (hg : ∀ t, g.answer t = if t.isMark m then .takes more else .fails) (goals : List Goal)
    (us : List Token) :
    Reads (g :: goals) us (Parse.accept (·.isMark m) us) (more ++ goals) := by
  refine accept_reads (fun t ht => ?_) (fun t ht => ?_) us
  · exact step_of_takes more (by rw [hg, if_pos ht])
  · exact step_of_fails (by rw [hg, if_neg (by simp [ht])])

/-- The operators before an operand fit. -/
theorem Reads.prefixes {goals b : List Goal} {us vs : List Token} {α : Type}
    {o : Outcome (Parsed vs α)} (ho : Reads (.operand :: goals) us o b) (ps : List Token)
    (hps : ∀ t ∈ ps, Parse.isPrefixOperator t = true) :
    Reads (.operand :: goals) (ps ++ us) o b := by
  induction ps with
  | nil => exact ho
  | cons t ps ih =>
    refine (ih fun u hu => hps u (by simp [hu])).take (step_of_takes [.operand] ?_)
    rw [Goal.answer, operandAnswer, if_pos (hps t (by simp))]

section Expressions

variable (source : List Char)

mutual

theorem primary_reads (base : Nat) {us : List Token}
    (hus : ∀ t ∈ us.head?, Parse.isPrefixOperator t = false) (goals : List Goal) :
    Reads (.operand :: goals) us (Parse.primary source base us) goals := by
  cases us with
  | nil =>
    rw [Parse.primary]
    exact reads_error_nil
  | cons t us =>
    have hanswer : Goal.operand.answer t
        = match t.kind with
          | .number _ => .takes []
          | .keyword .piWord => .takes []
          | .identifier _ => .takes [.call]
          | .mark .leftParen => .takes [.operand, .chain, .closing]
          | _ => .fails := by
      rw [Goal.answer, operandAnswer, if_neg (by simp [hus t (by simp)])]
    rw [Parse.primary]
    cases hk : t.kind with
    | number x =>
      rw [hk] at hanswer
      exact reads_taken (step_of_takes _ hanswer) rfl
    | identifier n =>
      rw [hk] at hanswer
      refine Reads.take ?_ (step_of_takes _ hanswer)
      cases us with
      | nil => exact leads_nil _ _
      | cons u more =>
        simp only
        split
        · next hu =>
          refine Reads.take ?_ (step_of_takes [.arguments] (by rw [Goal.answer, if_pos hu]))
          exact (arguments_reads more goals).bind fun p => reads_ok rfl
        · next hu =>
          exact reads_passed (step_of_passes (by rw [Goal.answer, if_neg hu])) rfl
    | builtin op =>
      rw [hk] at hanswer
      exact reads_error (step_of_fails hanswer) us
    | keyword k =>
      rw [hk] at hanswer
      cases k with
      | piWord => exact reads_taken (step_of_takes _ hanswer) rfl
      | _ => exact reads_error (step_of_fails hanswer) us
    | mark m =>
      rw [hk] at hanswer
      cases m with
      | leftParen =>
        refine Reads.take ?_ (step_of_takes _ hanswer)
        refine (terms_reads base us (.closing :: goals)).bind fun p => ?_
        refine (accept_mark [] (fun _ => rfl) goals p.rest).bind fun q => ?_
        exact reads_ok rfl
      | _ => exact reads_error (step_of_fails hanswer) us
    | newline =>
      rw [hk] at hanswer
      exact reads_error (step_of_fails hanswer) us
    | endOfInput =>
      rw [hk] at hanswer
      exact reads_error (step_of_fails hanswer) us
termination_by 6 * us.length + 0

theorem operand_reads (base : Nat) (us : List Token) (goals : List Goal) :
    Reads (.operand :: goals) us (Parse.operand source base us) goals := by
  have hlength := Parse.dropWhile_length_le Parse.isPrefixOperator us
  have hprimary : Reads (.operand :: goals) (us.dropWhile Parse.isPrefixOperator)
      (Parse.primary source base (us.dropWhile Parse.isPrefixOperator)) goals := by
    refine primary_reads base (fun t ht => ?_) goals
    obtain ⟨rest, hrest⟩ := List.head?_eq_some_iff.mp (Option.mem_def.mp ht)
    exact (Parse.dropWhile_eq_cons hrest).1
  have hread := hprimary.prefixes (us.takeWhile Parse.isPrefixOperator)
    fun t ht => List.mem_takeWhile_imp ht
  rw [List.takeWhile_append_dropWhile] at hread
  rw [Parse.operand]
  exact hread.map fun p => rfl
termination_by 6 * us.length + 1

theorem terms_reads (base : Nat) (us : List Token) (goals : List Goal) :
    Reads (.operand :: .chain :: goals) us (Parse.terms source base us) goals := by
  rw [Parse.terms]
  refine (operand_reads base us (.chain :: goals)).bind ?_
  rintro ⟨front, stop, rest, hshort⟩
  cases rest with
  | nil => exact leads_nil _ _
  | cons t more =>
    have hlength : more.length < us.length := Nat.lt_of_succ_lt hshort
    simp only
    cases hop : t.binaryOperator? with
    | none => exact reads_passed (step_of_passes (by simp [Goal.answer, hop])) rfl
    | some op =>
      refine Reads.take ?_ (step_of_takes [.operand, .chain] (by simp [Goal.answer, hop]))
      exact (terms_reads base more goals).map fun p => rfl
termination_by 6 * us.length + 2

theorem expression_reads (us : List Token) (goals : List Goal) :
    Reads (.operand :: .chain :: goals) us (Parse.expression source us) goals := by
  rw [Parse.expression]
  exact (terms_reads _ us goals).map fun p => rfl
termination_by 6 * us.length + 3

theorem arguments_reads (us : List Token) (goals : List Goal) :
    Reads (.arguments :: goals) us (Parse.arguments source us) goals := by
  cases us with
  | nil =>
    rw [Parse.arguments]
    exact reads_error_nil
  | cons t us =>
    rw [Parse.arguments]
    split
    · next ht =>
      exact reads_taken (step_of_takes [] (by rw [Goal.answer, if_pos ht])) rfl
    · next ht =>
      exact (someArguments_reads (t :: us) goals).of_eq
        (step_before .operand [.chain, .moreArguments] (if_neg ht) (operandAnswer_ne_passes t))
termination_by 6 * us.length + 5

theorem someArguments_reads (us : List Token) (goals : List Goal) :
    Reads (.operand :: .chain :: .moreArguments :: goals) us (Parse.someArguments source us)
      goals := by
  rw [Parse.someArguments]
  refine (expression_reads us (.moreArguments :: goals)).bind ?_
  rintro ⟨e, stop, rest, hshort⟩
  cases rest with
  | nil => exact reads_error_nil
  | cons t more =>
    have hlength : more.length < us.length := Nat.lt_of_succ_lt hshort
    simp only
    split
    · next hclose =>
      exact reads_taken (step_of_takes [] (by rw [Goal.answer, if_pos hclose])) rfl
    next hclose =>
    split
    · next hcomma =>
      refine Reads.take ?_ (step_of_takes [.operand, .chain, .moreArguments]
        (by rw [Goal.answer, if_neg hclose, if_pos hcomma]))
      exact (someArguments_reads more goals).map fun p => rfl
    · next hcomma =>
      exact reads_error (step_of_fails (by rw [Goal.answer, if_neg hclose, if_neg hcomma])) more
termination_by 6 * us.length + 4

end

end Expressions

/-! ### Statements -/

theorem leads_dropWhile {a : List Goal} {q : Token → Bool}
    (hq : ∀ t, q t = true → step a t = some a) (us : List Token) :
    Leads a us (us.dropWhile q) a := by
  induction us with
  | nil => exact .refl a []
  | cons t us ih =>
    rw [List.dropWhile_cons]
    split
    · next ht => exact (leads_of_step (hq t ht) us).trans ih
    · exact .refl a (t :: us)

/-- Line breaks may be left out of what the goals expect. -/
def Absorbs (goals : List Goal) : Prop :=
  ∀ t : Token, t.isNewline = true → step goals t = some goals

theorem isSeparator_of_isNewline {t : Token} (h : t.isNewline = true) : t.isSeparator = true := by
  rw [Token.isSeparator, h, Bool.true_or]

theorem absorbs_statements (allowBreak : Bool) (goals : List Goal) :
    Absorbs (.statements allowBreak :: goals) := fun _ ht =>
  step_of_takes [.statements allowBreak] (if_pos (isSeparator_of_isNewline ht))

theorem absorbs_top (goals : List Goal) : Absorbs (.top :: goals) := fun _ ht =>
  step_of_takes [.top] (if_pos (isSeparator_of_isNewline ht))

theorem absorbs_otherwise (goals : List Goal) : Absorbs (.otherwise :: goals) := fun _ ht =>
  step_of_takes [.otherwise] (if_pos ht)

/-- Without an `else` behind them, the line breaks behind a branch are left to the next goals. -/
theorem leads_without_else {goals : List Goal} (hgoals : Absorbs goals) (us : List Token)
    (hus : ∀ t ∈ (us.dropWhile Token.isNewline).head?, t.isKeyword .elseWord = false) :
    Leads (.otherwise :: goals) us us goals := by
  refine ⟨[], rfl, fun front hfront => ?_⟩
  rw [List.nil_append]
  induction us generalizing front with
  | nil =>
    rw [List.prefix_nil.mp hfront]
    rfl
  | cons t us ih =>
    cases front with
    | nil => rfl
    | cons u front =>
      obtain ⟨rfl, htail⟩ := List.cons_prefix_cons.mp hfront
      rw [List.dropWhile_cons] at hus
      rw [fits, fits]
      split at hus
      · next ht =>
        rw [hgoals _ ht, absorbs_otherwise goals _ ht]
        exact ih hus front htail
      · next ht =>
        have helse : Token.isKeyword .elseWord u = false := hus u (by simp)
        rw [step_of_passes (by simp [Goal.answer, ht, helse])]

theorem Reads.finish {goals c : List Goal} {us vs : List Token} {α : Type}
    {f : { rest : List Token // rest.length ≤ us.length } → Outcome (Parsed vs α)}
    (hf : ∀ rest, Reads goals rest.1 (f rest) c) :
    Reads (.finish :: goals) us (Parse.finish us >>= f) c := by
  cases us with
  | nil => exact (leads_nil _ _).reads (hf ⟨[], Nat.le_refl _⟩)
  | cons t us =>
    rw [Parse.finish]
    split
    · next ht => exact (hf ⟨us, by simp⟩).take (step_of_takes [] (if_pos ht))
    next ht =>
    split
    · next hclose =>
      exact (hf ⟨t :: us, Nat.le_refl _⟩).of_eq
        (step_of_passes (by rw [Goal.answer, if_neg ht, if_pos hclose]))
    · next hclose =>
      exact reads_error (step_of_fails (by rw [Goal.answer, if_neg ht, if_neg hclose])) us

section Statements

variable (source : List Char)

theorem simple_reads (make : Expression → Statement) (us : List Token) (goals : List Goal) :
    Reads (.operand :: .chain :: .finish :: goals) us (Parse.simple source make us) goals :=
  (expression_reads source us (.finish :: goals)).bind fun _ => Reads.finish fun _ => reads_ok rfl

theorem breakStatement_reads (allowBreak : Bool) {t : Token} (ht : t.kind = .keyword .breakWord)
    (us : List Token) (goals : List Goal) :
    Reads (.statement allowBreak :: goals) (t :: us)
      (Parse.breakStatement allowBreak (t :: us)) goals := by
  have hanswer : (Goal.statement allowBreak).answer t
      = if allowBreak then .takes [.finish] else .fails := by
    simp only [Goal.answer, statementAnswer, ht]
  have haccept : Parse.accept (·.isKeyword .breakWord) (t :: us)
      = .ok ⟨t, t.stop.offset, us, by simp⟩ := by
    rw [Parse.accept, if_pos (by simp [Token.isKeyword, ht])]
  unfold Parse.breakStatement
  cases allowBreak with
  | false => exact reads_error (step_of_fails hanswer) us
  | true =>
    simp only [Bool.not_true, Bool.false_eq_true, if_false]
    rw [haccept]
    refine Reads.take ?_ (step_of_takes _ hanswer)
    exact Reads.finish fun _ => reads_ok rfl

mutual

theorem statement_reads (allowBreak : Bool) (us : List Token) {goals : List Goal}
    (hgoals : Absorbs goals) :
    Reads (.statement allowBreak :: goals) us (Parse.statement source allowBreak us) goals := by
  cases us with
  | nil =>
    rw [Parse.statement]
    exact reads_error_nil
  | cons t us =>
    -- a statement without a word of its own is an expression
    have hsimple :
        (Goal.statement allowBreak).answer t = (operandAnswer t).before [.chain, .finish] →
        Reads (.statement allowBreak :: goals) (t :: us)
          (Parse.simple source .expression (t :: us)) goals := fun h =>
      (simple_reads source .expression (t :: us) goals).of_eq
        (step_before .operand [.chain, .finish] h (operandAnswer_ne_passes t))
    rw [Parse.statement]
    cases hk : t.kind with
    | keyword k =>
      cases k with
      | ifWord =>
        refine Reads.take ?_ (step_of_takes [.operand, .chain, .block true, .otherwise]
          (by simp only [Goal.answer, statementAnswer, hk]))
        exact (branch_reads us hgoals).map fun p => rfl
      | whileWord =>
        refine Reads.take ?_ (step_of_takes [.operand, .chain, .block true]
          (by simp only [Goal.answer, statementAnswer, hk]))
        refine (expression_reads source us (.block true :: goals)).bind fun p => ?_
        have hshort := p.shorter
        exact (block_reads true p.rest goals).map fun q => rfl
      | returnWord =>
        refine Reads.take ?_ (step_of_takes [.operand, .chain, .finish]
          (by simp only [Goal.answer, statementAnswer, hk]))
        exact (simple_reads source .returning us goals).map fun p => rfl
      | printWord =>
        refine Reads.take ?_ (step_of_takes [.operand, .chain, .finish]
          (by simp only [Goal.answer, statementAnswer, hk]))
        exact (simple_reads source .printing us goals).map fun p => rfl
      | breakWord => exact breakStatement_reads allowBreak hk us goals
      | fnWord =>
        exact reads_error (step_of_fails (by simp only [Goal.answer, statementAnswer, hk])) us
      | _ => exact hsimple (by simp only [Goal.answer, statementAnswer, hk])
    | _ => exact hsimple (by simp only [Goal.answer, statementAnswer, hk])
termination_by 6 * us.length + 1

theorem branch_reads (us : List Token) {goals : List Goal} (hgoals : Absorbs goals) :
    Reads (.operand :: .chain :: .block true :: .otherwise :: goals) us (Parse.branch source us)
      goals := by
  rw [Parse.branch]
  refine (expression_reads source us _).bind fun p => ?_
  have hshort := p.shorter
  refine (block_reads true p.rest _).bind fun q => ?_
  have hshort' := q.shorter
  have hwithout := leads_without_else hgoals q.rest
  split
  · next hr => exact hwithout (by simp [hr])
  next t more hr =>
    obtain ⟨hnewline, hlength⟩ := Parse.dropWhile_eq_cons hr
    split
    · next ht =>
      have hlead := leads_dropWhile (absorbs_otherwise goals) q.rest
      rw [hr] at hlead
      refine hlead.reads (Reads.take ?_ (step_of_takes [.alternative]
        (by simp [Goal.answer, hnewline, ht])))
      cases more with
      | nil => exact reads_error_nil
      | cons u inner =>
        have hinner : inner.length + 1 < us.length := by
          rw [List.length_cons] at hlength
          omega
        simp only
        split
        · next hu =>
          refine Reads.take ?_ (step_of_takes [.operand, .chain, .block true, .otherwise]
            (if_pos hu))
          exact (branch_reads inner hgoals).map fun r => rfl
        · next hu =>
          refine Reads.of_eq ?_ (show step _ u = step (.block true :: goals) u from ?_)
          · exact (block_reads true (u :: inner) goals).map fun r => rfl
          · simp only [List.singleton_append, step, Goal.answer, if_neg hu]
    · next ht => exact hwithout (by simpa [hr] using ht)
termination_by 6 * us.length + 0

theorem block_reads (allowBreak : Bool) (us : List Token) (goals : List Goal) :
    Reads (.block allowBreak :: goals) us (Parse.block source allowBreak us) goals := by
  rw [Parse.block]
  refine (accept_mark [.statements allowBreak] (fun _ => rfl) goals us).bind fun p => ?_
  have hshort := p.shorter
  exact (statements_reads allowBreak p.rest goals).map fun q => rfl
termination_by 6 * us.length + 0

theorem statements_reads (allowBreak : Bool) (us : List Token) (goals : List Goal) :
    Reads (.statements allowBreak :: goals) us (Parse.statements source allowBreak us) goals := by
  have hlead : Leads (.statements allowBreak :: goals) us (us.dropWhile Token.isSeparator)
      (.statements allowBreak :: goals) :=
    leads_dropWhile (fun t ht => step_of_takes [.statements allowBreak] (if_pos ht)) us
  rw [Parse.statements]
  split
  · next hr =>
    rw [hr] at hlead
    exact hlead.reads reads_error_nil
  next t more hr =>
    obtain ⟨hseparator, hlength⟩ := Parse.dropWhile_eq_cons hr
    rw [hr] at hlead
    refine hlead.reads ?_
    split
    · next hclose =>
      exact reads_taken (step_of_takes [] (by simp [Goal.answer, hseparator, hclose])) rfl
    next hclose =>
    have hanswer : (Goal.statements allowBreak).answer t
        = (statementAnswer allowBreak t).before [.statements allowBreak] := by
      simp [Goal.answer, hseparator, hclose]
    split
    · next hend =>
      refine reads_error (step_of_fails (hanswer.trans ?_)) more
      have hk : t.kind = .endOfInput := by simpa [Token.isEnd] using hend
      simp [statementAnswer, operandAnswer, hk, Parse.isPrefixOperator, Token.prefixOperator?,
        Answer.before]
    · have hstatement := statement_reads allowBreak (t :: more)
        (absorbs_statements allowBreak goals)
      refine (hstatement.of_eq (step_before (.statement allowBreak) [.statements allowBreak] hanswer
        (statementAnswer_ne_passes allowBreak t))).bind fun p => ?_
      have hshort : p.rest.length < us.length := Nat.lt_of_lt_of_le p.shorter hlength
      exact (statements_reads allowBreak p.rest goals).map fun q => rfl
termination_by 6 * us.length + 2

end

end Statements

/-! ### Functions -/

theorem identifier_reads (us : List Token) (goals : List Goal) :
    Reads (.name :: goals) us (Parse.identifier us) goals := by
  cases us with
  | nil => exact reads_error_nil
  | cons t us =>
    rw [Parse.identifier]
    cases hk : t.kind with
    | identifier n =>
      exact reads_taken (step_of_takes [] (by simp [Goal.answer, Token.identifier?, hk])) rfl
    | _ => exact reads_error (step_of_fails (by simp [Goal.answer, Token.identifier?, hk])) us

theorem someParameters_reads (us : List Token) (goals : List Goal) :
    Reads (.name :: .moreParameters :: goals) us (Parse.someParameters us) goals := by
  rw [Parse.someParameters]
  refine (identifier_reads us (.moreParameters :: goals)).bind ?_
  rintro ⟨name, stop, rest, hshort⟩
  cases rest with
  | nil => exact reads_error_nil
  | cons t more =>
    have hlength : more.length < us.length := Nat.lt_of_succ_lt hshort
    simp only
    split
    · next hclose => exact reads_taken (step_of_takes [] (if_pos hclose)) rfl
    next hclose =>
    split
    · next hcomma =>
      refine Reads.take ?_ (step_of_takes [.name, .moreParameters]
        (by rw [Goal.answer, if_neg hclose, if_pos hcomma]))
      exact (someParameters_reads more goals).map fun p => rfl
    · next hcomma =>
      exact reads_error (step_of_fails (by rw [Goal.answer, if_neg hclose, if_neg hcomma])) more
termination_by us.length

theorem parameters_reads (us : List Token) (goals : List Goal) :
    Reads (.parameters :: goals) us (Parse.parameters us) goals := by
  cases us with
  | nil => exact reads_error_nil
  | cons t us =>
    rw [Parse.parameters]
    split
    · next hclose => exact reads_taken (step_of_takes [] (if_pos hclose)) rfl
    · next hclose =>
      refine (someParameters_reads (t :: us) goals).of_eq
        (step_before .name [.moreParameters] ?_ ?_)
      · simp only [Goal.answer, if_neg hclose]
        split <;> rfl
      · simp only [Goal.answer]
        split <;> simp

theorem function_reads (source : List Char) {t : Token} (ht : t.isKeyword .fnWord = true)
    (us : List Token) (goals : List Goal) :
    Reads (.name :: .opening :: .parameters :: .block false :: goals) us
      (Parse.function source (t :: us)) goals := by
  have haccept : Parse.accept (·.isKeyword .fnWord) (t :: us)
      = .ok ⟨t, t.stop.offset, us, by simp⟩ := by
    rw [Parse.accept, if_pos ht]
  unfold Parse.function
  rw [haccept]
  refine (identifier_reads us _).bind fun p => ?_
  refine (accept_mark [] (fun _ => rfl) _ p.rest).bind fun q => ?_
  refine (parameters_reads q.rest _).bind fun r => ?_
  exact (block_reads source false r.rest goals).map fun b => rfl

/-! ### The end -/

/-- The answer asks for nothing that goes on up to the end. -/
def Answer.Inner : Answer → Prop
  | takes goals => .top ∉ goals
  | _ => True

theorem Answer.Inner.before {a : Answer} (ha : a.Inner) {behind : List Goal}
    (hbehind : .top ∉ behind) : (a.before behind).Inner := by
  cases a with
  | takes goals =>
    intro hmem
    rcases List.mem_append.mp hmem with hmem | hmem
    · exact ha hmem
    · exact hbehind hmem
  | passes => trivial
  | fails => trivial

theorem operandAnswer_inner (t : Token) : (operandAnswer t).Inner := by
  unfold operandAnswer
  split
  · simp [Answer.Inner]
  · split <;> simp [Answer.Inner]

theorem statementAnswer_inner (allowBreak : Bool) (t : Token) :
    (statementAnswer allowBreak t).Inner := by
  unfold statementAnswer
  split
  case h_5 => split <;> simp [Answer.Inner]
  case h_7 => exact (operandAnswer_inner t).before (by simp)
  all_goals simp [Answer.Inner]

theorem answer_inner {g : Goal} (hg : g ≠ .top) (t : Token) : (g.answer t).Inner := by
  cases g with
  | operand => exact operandAnswer_inner t
  | statement allowBreak => exact statementAnswer_inner allowBreak t
  | arguments =>
    rw [Goal.answer]
    split
    · simp [Answer.Inner]
    · exact (operandAnswer_inner t).before (by simp)
  | statements allowBreak =>
    rw [Goal.answer]
    split
    · simp [Answer.Inner]
    split
    · simp [Answer.Inner]
    · exact (statementAnswer_inner allowBreak t).before (by simp)
  | top => exact absurd rfl hg
  | _ =>
    rw [Goal.answer]
    repeat' split
    all_goals simp [Answer.Inner]

theorem answer_end {g : Goal} (hg : g ≠ .top) {t : Token} (ht : t.isEnd = true)
    (more : List Goal) : g.answer t ≠ .takes more := by
  have hk : t.kind = .endOfInput := by simpa [Token.isEnd] using ht
  have hoperand : operandAnswer t = .fails := by
    simp [operandAnswer, Parse.isPrefixOperator, Token.prefixOperator?, hk]
  have hstatement : ∀ allowBreak, statementAnswer allowBreak t = .fails := by
    simp [statementAnswer, hk, hoperand, Answer.before]
  cases g with
  | top => exact absurd rfl hg
  | _ =>
    simp [Goal.answer, Answer.before, hoperand, hstatement, Token.isMark, Token.isKeyword,
      Token.isNewline, Token.isSeparator, Token.isEnd, Token.binaryOperator?, Token.identifier?, hk]

/-- Only the goal that goes on up to the end takes it. -/
theorem step_inner {goals goals' : List Goal} {t : Token} (hgoals : .top ∉ goals)
    (h : step goals t = some goals') : t.isEnd = false ∧ .top ∉ goals' := by
  induction goals with
  | nil => cases h
  | cons g goals ih =>
    rw [List.mem_cons, not_or] at hgoals
    rw [step] at h
    have hinner := answer_inner (Ne.symm hgoals.1) t
    cases hanswer : g.answer t with
    | takes more =>
      rw [hanswer] at h hinner
      cases h
      refine ⟨Bool.eq_false_iff.mpr fun ht => ?_, ?_⟩
      · exact answer_end (Ne.symm hgoals.1) ht more hanswer
      · intro hmem
        exact (List.mem_append.mp hmem).elim hinner hgoals.2
    | passes =>
      rw [hanswer] at h
      exact ih hgoals.2 h
    | fails =>
      rw [hanswer] at h
      cases h

theorem isEnd_of_fits {goals : List Goal} (hgoals : .top ∉ goals) {ts : List Token}
    (h : fits goals ts = true) : ∀ t ∈ ts, t.isEnd = false := by
  induction ts generalizing goals with
  | nil => simp
  | cons t ts ih =>
    rw [fits] at h
    split at h
    · cases h
    · next goals' hstep =>
      obtain ⟨ht, hgoals'⟩ := step_inner hgoals hstep
      exact List.forall_mem_cons.mpr ⟨ht, ih hgoals' h⟩

/-- What is read before the end is reached leaves the end. -/
theorem Leads.keeps_end {a b : List Goal} {us rest : List Token} (h : Leads a us rest b)
    (ha : .top ∉ a) (hus : ∃ t ∈ us, t.isEnd = true) : ∃ t ∈ rest, t.isEnd = true := by
  obtain ⟨used, rfl, hused⟩ := h
  obtain ⟨t, ht, hend⟩ := hus
  have hfits : fits a used = true := by simpa [fits] using hused [] List.nil_prefix
  rcases List.mem_append.mp ht with ht | ht
  · exact absurd hend (by simp [isEnd_of_fits ha hfits t ht])
  · exact ⟨t, ht, hend⟩

/-! ### Scripts -/

/-- What the parser of scripts does fits, up to the end or up to the token that it fails at. -/
def ReadsScript (us : List Token) (o : Outcome Program) : Prop :=
  match o with
  | .ok _ => ∃ used e more, us = used ++ e :: more ∧ e.isEnd = true ∧
      fits [.top] (used ++ [e]) = true
  | .error e => e ≠ [] ∧ Leads [.top] us e []

theorem Leads.readsScript {us vs : List Token} {o : Outcome Program}
    (h : Leads [.top] us vs [.top]) (ho : ReadsScript vs o) : ReadsScript us o := by
  cases o with
  | ok p =>
    obtain ⟨used, rfl, hused⟩ := h
    obtain ⟨used', e, more, rfl, hend, hfits⟩ := ho
    refine ⟨used ++ used', e, more, by simp, hend, ?_⟩
    rw [List.append_assoc, hused _ ⟨more, by simp⟩, hfits]
  | error e => exact ⟨ho.1, h.trans ho.2⟩

theorem Reads.bindScript {us vs : List Token} {α : Type} {o : Outcome (Parsed vs α)}
    (ho : Reads [.top] us o [.top]) (hnil : ∀ e, o = .error e → e ≠ [])
    {f : Parsed vs α → Outcome Program} (hf : ∀ p, o = .ok p → ReadsScript p.rest (f p)) :
    ReadsScript us (o >>= f) := by
  cases o with
  | ok p => exact Leads.readsScript ho (hf p rfl)
  | error e => exact ⟨hnil e rfl, ho⟩

theorem ReadsScript.map {us : List Token} {o : Outcome Program} (ho : ReadsScript us o)
    (f : Program → Program) : ReadsScript us (o >>= fun p => .ok (f p)) := by
  cases o with
  | ok p => exact ho
  | error e => exact ho

theorem program_reads (source : List Char) (us : List Token)
    (hus : ∃ t ∈ us, t.isEnd = true) : ReadsScript us (Parse.program source us) := by
  have hlead : Leads [.top] us (us.dropWhile Token.isSeparator) [.top] :=
    leads_dropWhile (fun t ht => step_of_takes [.top] (if_pos ht)) us
  have hdrop : ∃ t ∈ us.dropWhile Token.isSeparator, t.isEnd = true := by
    obtain ⟨t, ht, hend⟩ := hus
    rw [← List.takeWhile_append_dropWhile (p := Token.isSeparator) (l := us)] at ht
    rcases List.mem_append.mp ht with ht | ht
    · have hseparator := plain_separator (List.mem_takeWhile_imp ht)
      exact absurd hend (by simp [hseparator.balanced.notEnd])
    · exact ⟨t, ht, hend⟩
  rw [Parse.program]
  split
  · next hr =>
    rw [hr] at hdrop
    simp at hdrop
  next t more hr =>
    obtain ⟨hseparator, hlength⟩ := Parse.dropWhile_eq_cons hr
    rw [hr] at hlead hdrop
    refine hlead.readsScript ?_
    split
    · next hend =>
      refine ⟨[], t, more, rfl, hend, ?_⟩
      simp [fits, step, Goal.answer, hseparator, hend]
    next hend =>
    split
    · next hfn =>
      have hmore : ∃ u ∈ more, u.isEnd = true := by simpa [hend] using hdrop
      have hinner := function_reads source hfn more []
      refine Reads.bindScript (Reads.take (function_reads source hfn more [.top]) ?_) ?_ ?_
      · exact step_of_takes [.name, .opening, .parameters, .block false, .top]
          (by simp [Goal.answer, hseparator, hend, hfn])
      · intro e he
        rw [he] at hinner
        obtain ⟨u, hu, -⟩ := Leads.keeps_end hinner (by simp) hmore
        exact List.ne_nil_of_mem hu
      · intro p hp
        rw [hp] at hinner
        have hshort : p.rest.length < us.length := Nat.lt_of_lt_of_le p.shorter hlength
        exact (program_reads source p.rest (Leads.keeps_end hinner (by simp) hmore)).map _
    · next hfn =>
      have hinner := statement_reads source false (t :: more) (absorbs_statements false [])
      refine Reads.bindScript (Reads.of_eq (statement_reads source false (t :: more)
        (absorbs_top [])) (step_before (.statement false) [.top] ?_ ?_)) ?_ ?_
      · simp [Goal.answer, hseparator, hend, hfn]
      · exact statementAnswer_ne_passes false t
      · intro e he
        rw [he] at hinner
        obtain ⟨u, hu, -⟩ := Leads.keeps_end hinner (by simp) hdrop
        exact List.ne_nil_of_mem hu
      · intro p hp
        rw [hp] at hinner
        have hshort : p.rest.length < us.length := Nat.lt_of_lt_of_le p.shorter hlength
        exact (program_reads source p.rest (Leads.keeps_end hinner (by simp) hdrop)).map _
termination_by us.length

end Abacus.Derivation
