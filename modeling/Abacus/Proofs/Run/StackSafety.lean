import Abacus.Proofs.Run.Blame
import Abacus.Proofs.Run.Operands

/-!
Safety of the operand stack.

An expression whose terms count up to one operand never fails for want of an operand or for a
surplus of them, whatever it works on; what its calls do is up to the functions. An expression whose
terms do not is never evaluated to a value.
-/
namespace Abacus.Run

/-! ### Calls among the terms -/

/-- The activity is a call among the terms of the expression `e`, which is made when the terms
before it have been run. -/
inductive Makes (rules : Rules) (d : Nat) (e : Expression) (s : State) : Activity → Prop
  | mk {before after : List Term} {p : Int} {n text : String} {es : List Expression}
      {stack : List Operand} {s' : State} (hterms : e.terms = before ++ .call p n text es :: after)
      (hbefore : terms rules d e.context before [] s = .ok stack s') :
      Makes rules d e s ⟨d, .call e.context p n text es, s'⟩

/-- Evaluates an expression; if it is a single call and `allowMissing` is set, the call need not
have a value. -/
def value? (rules : Rules) (d : Nat) (allowMissing : Bool) (e : Expression) :
    Run (Option Decimal) :=
  if allowMissing then evaluateStatement rules d e
  else some <$> evaluate rules d e

section Values

variable {rules : Rules} {d : Nat} {e : Expression} {s s' : State} {f : Failure}

theorem value?_of_error (h : evaluate rules d e s = .error f s') (allowMissing : Bool)
    (he : ∀ c p n text es, e ≠ ⟨c, [.call p n text es]⟩) :
    value? rules d allowMissing e s = .error f s' := by
  have hvalue : (some <$> evaluate rules d e) s = .error f s' := by
    rw [map_eq_pure_bind, bind_run, h]
    rfl
  cases allowMissing with
  | false => exact hvalue
  | true =>
    rw [value?, if_pos rfl, evaluateStatement.eq_def]
    split
    · next c p n text es => exact absurd rfl (he c p n text es)
    · rw [bind_run, h]
      rfl

/-- A failure comes from evaluating the expression, or from the single call that it is. -/
theorem value?_fails {allowMissing : Bool} (h : value? rules d allowMissing e s = .error f s') :
    evaluate rules d e s = .error f s' ∨ ∃ a, Makes rules d e s a ∧ Activity.Fails rules a f := by
  cases allowMissing with
  | false =>
    rw [value?, if_neg (by simp), map_eq_pure_bind] at h
    rcases bind_eq_error_iff.mp h with h | ⟨x, s₁, -, h⟩
    · exact .inl h
    · cases h
  | true =>
    rw [value?, if_pos rfl, evaluateStatement.eq_def] at h
    split at h
    · next c p n text es =>
      have hbefore : terms rules d c [] [] s = .ok [] s := by
        rw [terms]
        rfl
      have hterms : [Term.call p n text es] = [] ++ .call p n text es :: [] := rfl
      exact .inr ⟨_, .mk hterms hbefore, s', h⟩
    · rcases bind_eq_error_iff.mp h with h | ⟨x, s₁, -, h⟩
      · exact .inl h
      · cases h

/-- Evaluation fails at a term or at the end. -/
theorem evaluate_fails (h : evaluate rules d e s = .error f s') :
    (∃ before t after stack s₁, e.terms = before ++ t :: after ∧
      terms rules d e.context before [] s = .ok stack s₁ ∧
      terms rules d e.context [t] stack s₁ = .error f s') ∨
    ∃ stack s₁, terms rules d e.context e.terms [] s = .ok stack s₁ ∧
      conclude e.context stack s₁ = .error f s' := by
  rw [evaluate] at h
  rcases bind_eq_error_iff.mp h with h | h
  · exact .inl (terms_fail h)
  · exact .inr h

/-- How an evaluation fails: in a call, with an error that is reported, or because the operands do
not count up to one. -/
theorem evaluate_fails_cases (h : evaluate rules d e s = .error f s') :
    (∃ a, Makes rules d e s a ∧ Activity.Fails rules a f) ∨ (∃ x, f = .diagnosed x) ∨
      f.ofStack = true ∧ ¬Expression.Counted e := by
  rcases evaluate_fails h with ⟨before, t, after, stack, s₁, hsplit, hbefore, ht⟩ |
    ⟨stack, s₁, hts, hend⟩
  · rcases term_fails ht with ⟨p, n, text, es, rfl, hcall⟩ | hreported | ⟨hstack, hnone⟩
    · exact .inl ⟨_, .mk hsplit hbefore, s', hcall⟩
    · exact .inr (.inl hreported)
    · have hcount : operandsBehind 0 e.terms = none := by
        rw [hsplit, operandsBehind_append, operandsBehind_of_terms hbefore]
        exact operandsBehind_of_none hnone after
      exact .inr (.inr ⟨hstack, by simp [Expression.Counted, hcount]⟩)
  · rcases (conclude_yields e.context stack).of_error hend with ⟨-, hreported⟩ | ⟨hlength, rfl⟩
    · exact .inr (.inl hreported)
    · exact .inr (.inr ⟨rfl, by simp [Expression.Counted, operandsBehind_of_terms hts, hlength]⟩)

/-- What has not been counted up to one operand has no value. -/
theorem evaluate_of_not_counted (he : ¬Expression.Counted e) (rules : Rules) (d : Nat)
    (s : State) : ∃ f s', evaluate rules d e s = .error f s' := by
  cases hr : evaluate rules d e s with
  | error f s' => exact ⟨f, s', rfl⟩
  | ok x s' =>
    rw [evaluate] at hr
    obtain ⟨stack, s₁, hts, hend⟩ := bind_eq_ok_iff.mp hr
    have hlength := (conclude_yields e.context stack).of_ok hend
    exact absurd (operandsBehind_of_terms hts) (by rw [hlength]; exact he)

/-- The evaluation stops no later than at the first term that does not find its operands: each term
before the one it fails at has found them. If there is no such term, it stops at the end. -/
def StopsInTime (rules : Rules) (d : Nat) (e : Expression) (s : State) (f : Failure)
    (s' : State) : Prop :=
  (∃ before t after, e.terms = before ++ t :: after ∧ (operandsBehind 0 before).isSome = true ∧
    terms rules d e.context (before ++ [t]) [] s = .error f s') ∨
  f = .defect (.malformedExpression e.context) ∧ ∃ n, operandsBehind 0 e.terms = some n ∧ n ≠ 1

theorem evaluate_stopsInTime (he : ¬Expression.Counted e)
    (h : evaluate rules d e s = .error f s') : StopsInTime rules d e s f s' := by
  rcases evaluate_fails h with ⟨before, t, after, stack, s₁, hsplit, hbefore, ht⟩ |
    ⟨stack, s₁, hts, hend⟩
  · refine .inl ⟨before, t, after, hsplit, by simp [operandsBehind_of_terms hbefore], ?_⟩
    rw [terms_append, bind_run, hbefore]
    exact ht
  · have hcount := operandsBehind_of_terms hts
    rcases (conclude_yields e.context stack).of_error hend with ⟨hone, -⟩ | ⟨hlength, rfl⟩
    · exact absurd hcount (by rw [hone]; exact he)
    · exact .inr ⟨rfl, stack.length, hcount, hlength⟩

end Values

/-! ### Failures of whole runs -/

/-- A task whose expressions are counted, together with the operands that wait on its stack. -/
def Task.Counted : Task → Prop
  | terms _ ts stack => operandsBehind stack.length ts = some 1 ∧
      ∀ p n text es, .call p n text es ∈ ts → ∀ e ∈ es, Expression.Every Expression.Counted e
  | evaluate e => Expression.Every Expression.Counted e
  | evaluateStatement e => Expression.Every Expression.Counted e
  | evaluateAll es => ∀ e ∈ es, Expression.Every Expression.Counted e
  | call _ _ _ _ es => ∀ e ∈ es, Expression.Every Expression.Counted e
  | statement s => s.Every Expression.Counted
  | statements _ ss => ∀ s ∈ ss, s.Every Expression.Counted
  | block body => ∀ s ∈ body, s.Every Expression.Counted
  | loop _ e body _ _ =>
    Expression.Every Expression.Counted e ∧ ∀ s ∈ body, s.Every Expression.Counted

namespace Activity

variable {rules : Rules}

theorem Begins.counted (hrules : rules.Every Expression.Counted) {a b : Activity}
    (h : Begins rules a b) (ha : a.task.Counted) : b.task.Counted := by
  cases h with
  | afterNumber d c p x rest stack s =>
    exact ⟨ha.1, fun p n text es hmem => ha.2 p n text es (.tail _ hmem)⟩
  | afterName d c p n rest stack s =>
    exact ⟨ha.1, fun p n text es hmem => ha.2 p n text es (.tail _ hmem)⟩
  | callee d c p n text es rest stack s => exact ha.2 p n text es (.head _)
  | afterCall d c p n text es rest stack h =>
    exact ⟨ha.1, fun p n text es hmem => ha.2 p n text es (.tail _ hmem)⟩
  | afterOperator d c p op rest h =>
    obtain ⟨hle, hlength⟩ := (apply_yields c p op _).of_ok h
    refine ⟨?_, fun p n text es hmem => ha.2 p n text es (.tail _ hmem)⟩
    rw [hlength, ← operandsBehind_of_after (Term.operandsAfter_operator hle p)]
    exact ha.1
  | expressionTerms d e s =>
    exact ⟨Expression.Every.self ha, fun _ _ _ _ hmem _ h => Expression.Every.argument ha hmem h⟩
  | singleCall d c p n text es s =>
    exact fun a h => Expression.Every.argument ha (List.mem_singleton_self _) h
  | statementValue d s h => exact ha
  | firstValue d e rest s => exact ha e (.head _)
  | otherValues d e rest h => exact fun e' he => ha e' (.tail _ he)
  | arguments d c p text s hf harity => exact ha
  | body c p text hf harity h hlimit => exact Table.All.find? hrules hf
  | expression d e s => exact ha.direct rfl
  | branchCondition d e body otherwise s => exact ha.direct rfl
  | branchBody d e body otherwise h hx => exact ha.body
  | branchOther d e body other h hx => exact ha.otherwise
  | firstRound d text e body s => exact ⟨ha.direct rfl, ha.loop⟩
  | returned d e s => exact ha.direct rfl
  | printed d e s => exact ha.direct rfl
  | firstStatement d last t rest s => exact ha t (.head _)
  | afterValue d last t rest h => exact fun t' ht => ha t' (.tail _ ht)
  | afterNothing d last t rest h => exact fun t' ht => ha t' (.tail _ ht)
  | blockStatements d body s => exact ha
  | loopCondition d text e body remaining last s => exact ha.1
  | round d text e body remaining last h hx => exact ha.2
  | nextRound d text e body remaining last h hx hbody => exact ha

theorem Leads.counted (hrules : rules.Every Expression.Counted) {a b : Activity}
    (h : Leads rules a b) (ha : a.task.Counted) : b.task.Counted := by
  induction h with
  | refl => exact ha
  | tail _ hbegins ih => exact hbegins.counted hrules ih

/-- No activity on a counted part of a script puts the operand stack at fault. -/
theorem Raises.not_ofStack {a : Activity} {f : Failure} (h : Raises rules a f)
    (ha : a.task.Counted) : f.ofStack = false := by
  cases h with
  | strayParenthesis d c p side rest stack s =>
    cases ha.1
  | operator d c p op rest h =>
    rcases (apply_yields c p op _).of_error h with ⟨x, rfl⟩ | ⟨-, hfew⟩
    · rfl
    · have hcount := ha.1
      rw [operandsBehind_of_none (Term.operandsAfter_of_lt hfew p)] at hcount
      cases hcount
  | conclusion d e h hconclude =>
    rcases (conclude_yields e.context _).of_error hconclude with ⟨-, x, rfl⟩ | ⟨hlength, -⟩
    · rfl
    · have hcount := Expression.Every.self ha
      rw [Expression.Counted, operandsBehind_of_terms h] at hcount
      exact absurd (Option.some.inj hcount) hlength
  | _ => rfl

/-- The activity prints a value that has too many digits to be shown; no value in the calculator's
format has. -/
def PrintsTooManyDigits (rules : Rules) (a : Activity) : Prop :=
  ∃ e x s', a.task = .statement (.printing e) ∧ Run.evaluate rules a.depth e a.state = .ok x s' ∧
    x.display? rules.settings.displayPlaces = none ∧ ¬Format.calculator.Fits x

theorem Raises.prints {a : Activity} (h : Raises rules a (.defect .tooManyDigits)) :
    PrintsTooManyDigits rules a := by
  cases h with
  | operator d c p op rest h =>
    rcases (apply_yields c p op _).of_error h with ⟨x, hx⟩ | ⟨hx, -⟩
    · cases hx
    · cases hx
  | conclusion d e h hconclude =>
    rcases (conclude_yields e.context _).of_error hconclude with ⟨-, x, hx⟩ | ⟨-, hx⟩
    · cases hx
    · cases hx
  | @tooManyDigits d e s s' x h hx =>
    refine ⟨e, x, s', rfl, h, hx, fun hfits => ?_⟩
    obtain ⟨text, htext⟩ := Decimal.display?_of_fits hfits rules.settings.displayPlaces
    rw [hx] at htext
    cases htext

end Activity

theorem Makes.counted {rules : Rules} {d : Nat} {e : Expression} {s : State} {a : Activity}
    (h : Makes rules d e s a) (he : Expression.Every Expression.Counted e) : a.task.Counted := by
  cases h with
  | @mk before after p n text es stack s' hterms hbefore =>
    have hcall : Term.call p n text es ∈ e.terms := by simp [hterms]
    exact fun b hb => he.argument hcall hb

/-- With functions and expressions that are all counted, no operand stack is ever at fault. -/
theorem not_ofStack_of_counted {rules : Rules} (hrules : rules.Every Expression.Counted)
    {a : Activity} (ha : a.task.Counted) {f : Failure} (h : Activity.Fails rules a f) :
    f.ofStack = false := by
  obtain ⟨b, hleads, hraises⟩ := h.exists_origin
  exact hraises.not_ofStack (hleads.counted hrules ha)

/-! ### A function that prints -/

theorem evaluate_name {rules : Rules} {d : Nat} {c : String} {p : Int} {n : String} {s : State}
    {x : Decimal} (h : s.store.get? n = some x) :
    evaluate rules d ⟨c, [.name p n]⟩ s = .ok x s := by
  rw [evaluate, terms, terms, pure_bind, conclude, resolve_of_some h]

/-- A function that prints its argument. -/
def say : Function :=
  ⟨"say", "fn say(x) \x7b print x \x7d", ["x"], [.printing ⟨"x", [.name 0 "x"]⟩]⟩

theorem call_say {rules : Rules} {d : Nat} (c : String) (p : Int) (text : String) {s : State}
    {x : Decimal} (hsay : rules.functions.find? "say" = some say)
    (hlimit : d < rules.settings.callLimit) (hx : s.store.get? "x" = some x)
    (hdisplay : x.display? rules.settings.displayPlaces = none) :
    ∃ s', call rules d c p "say" text [⟨"x", [.name 0 "x"]⟩] s =
      .error (.defect .tooManyDigits) s' := by
  let entered := Activity.entered d text (Table.ofEntries (say.parameters.zip [x])) s
  have hvalue : evaluateAll rules d [⟨"x", [.name 0 "x"]⟩] s = .ok [x] s := by
    rw [evaluateAll, evaluateAll, bind_run, evaluate_name hx]
    rfl
  have hprint : statements rules (d + 1) none say.body entered =
      .error (.defect .tooManyDigits) entered := by
    have hentered : entered.store.get? "x" = some x := rfl
    rw [say, statements, statement, bind_run, bind_run, evaluate_name hentered]
    simp only [andThen, display, hdisplay]
    rfl
  refine ⟨{ entered with store := entered.store.pop }, ?_⟩
  rw [call_of_known hsay rfl, bind_run, hvalue]
  show enter rules d text say [x] s = _
  rw [enter_of_lt hlimit, hprint]
  rfl

/-! ### Counted expressions and others -/

/-- Whether the operand stack of an expression can be at fault is a matter of counting.

If the count comes to one operand, a failure that is not reported comes out of a call, and if the
functions and the arguments are counted as well, it is none of an operand stack. If it does not,
the expression has no value: evaluation fails no later than at the term that has been counted out,
by the stack or with an error that is reported, unless a function that is called before prints a
value that cannot be shown. -/
theorem operand_count_decides (rules : Rules) (d : Nat) (allowMissing : Bool) (e : Expression)
    (s : State) :
    (Expression.Counted e → ∀ f s', value? rules d allowMissing e s = .error f s' →
      (f.isReported = false → ∃ a, Makes rules d e s a ∧ Activity.Fails rules a f) ∧
      (rules.Every Expression.Counted → Expression.Every Expression.Counted e →
        f.ofStack = false)) ∧
    (¬Expression.Counted e → ∃ f s', value? rules d allowMissing e s = .error f s' ∧
      StopsInTime rules d e s f s' ∧
      (f.ofStack = true ∨ f.isReported = true ∨ f = .defect .tooManyDigits ∧
        ∃ a b, Makes rules d e s a ∧ Activity.Leads rules a b ∧
          Activity.PrintsTooManyDigits rules b)) := by
  constructor
  · intro he f s' h
    refine ⟨fun hf => ?_, fun hrules hevery => ?_⟩
    · rcases value?_fails h with h | hcall
      case inr => exact hcall
      rcases evaluate_fails_cases h with hcall | ⟨x, rfl⟩ | ⟨-, hnot⟩
      · exact hcall
      · cases hf
      · exact absurd he hnot
    · rcases value?_fails h with h | ⟨a, hmakes, hfails⟩
      · exact not_ofStack_of_counted hrules (a := ⟨d, .evaluate e, s⟩) hevery ⟨s', h⟩
      · exact not_ofStack_of_counted hrules (hmakes.counted hevery) hfails
  · intro he
    obtain ⟨f, s', h⟩ := evaluate_of_not_counted he rules d s
    have hcall : ∀ c p n text es, e ≠ ⟨c, [.call p n text es]⟩ := by
      rintro c p n text es rfl
      exact he rfl
    refine ⟨f, s', value?_of_error h allowMissing hcall, evaluate_stopsInTime he h, ?_⟩
    rcases evaluate_fails_cases h with ⟨a, hmakes, hfails⟩ | ⟨x, rfl⟩ | ⟨hstack, -⟩
    · cases f with
      | diagnosed x => exact .inr (.inl rfl)
      | limit => exact .inr (.inl rfl)
      | defect x =>
        cases x with
        | tooManyDigits =>
          obtain ⟨b, hleads, hraises⟩ := hfails.exists_origin
          exact .inr (.inr ⟨rfl, a, b, hmakes, hleads, hraises.prints⟩)
        | _ => exact .inl rfl
    · exact .inr (.inl rfl)
    · exact .inl hstack

/-- A sum that is counted, and one that is not and is stopped where it lacks an operand. -/
theorem operand_count_decides_for_sums :
    let rules : Rules := ⟨{}, [("say", say)]⟩
    let sum : Expression := ⟨"1 + y", [.number 0 (.ofNat 1), .name 4 "y", .operator 2 .add]⟩
    let lacking : Expression := ⟨"1 +", [.number 0 (.ofNat 1), .operator 2 .add]⟩
    Expression.Counted sum ∧ rules.Every Expression.Counted ∧
      (∀ (s s' : State) (f : Failure), value? rules 0 true sum s = .error f s' →
        f.ofStack = false) ∧
      ¬Expression.Counted lacking ∧
      ∀ s : State, ∃ f s', value? rules 0 true lacking s = .error f s' ∧
        StopsInTime rules 0 lacking s f s' := by
  intro rules sum lacking
  have hcounted : Expression.Counted sum := by decide
  have hlacking : ¬Expression.Counted lacking := by decide
  have hname : Expression.Every Expression.Counted ⟨"x", [.name 0 "x"]⟩ := by
    intro a ha
    cases ha with
    | self => decide
    | argument ht _ _ => simp at ht
  have hsum : Expression.Every Expression.Counted sum := by
    intro a ha
    cases ha with
    | self => exact hcounted
    | argument ht _ _ => simp [sum] at ht
  have hrules : rules.Every Expression.Counted := by
    intro entry hentry
    obtain rfl := List.mem_singleton.mp hentry
    intro t ht
    obtain rfl := List.mem_singleton.mp ht
    intro u hu e he
    cases hu
    cases he
    exact hname
  refine ⟨hcounted, hrules, fun s s' f hf => ?_, hlacking, fun s => ?_⟩
  · exact ((operand_count_decides rules 0 true sum s).1 hcounted f s' hf).2 hrules hsum
  · obtain ⟨f, s', hf, hstops, -⟩ := (operand_count_decides rules 0 true lacking s).2 hlacking
    exact ⟨f, s', hf, hstops⟩

/-- The exception is needed: a function that is called before the sum misses an operand may be
stopped by a number with 61 digits. -/
theorem printing_fails_before_miscount :
    ¬∀ (rules : Rules) (d : Nat) (allowMissing : Bool) (e : Expression) (s : State),
      ¬Expression.Counted e → ∃ f s', value? rules d allowMissing e s = .error f s' ∧
        (f.ofStack = true ∨ f.isReported = true) := by
  intro h
  let rules : Rules := ⟨{}, [("say", say)]⟩
  let e : Expression :=
    ⟨"say(x) +", [.call 0 "say" "say(x)" [⟨"x", [.name 0 "x"]⟩], .operator 7 .add]⟩
  let s : State := { store := { globals := [("x", ⟨false, 1, 60⟩)] } }
  have hdisplay : Decimal.display? 6 ⟨false, 1, 60⟩ = none := by decide +kernel
  obtain ⟨s₁, hcall⟩ : ∃ s', call rules 0 "say(x) +" 0 "say" "say(x)" [⟨"x", [.name 0 "x"]⟩] s =
      .error (.defect .tooManyDigits) s' :=
    call_say _ _ _ rfl (by decide) rfl hdisplay
  have hvalue : value? rules 0 false e s = .error (.defect .tooManyDigits) s₁ := by
    rw [value?, if_neg (by simp), map_eq_pure_bind, bind_run, evaluate, bind_run, terms, bind_run,
      hcall]
    rfl
  obtain ⟨f, s', hf, hkind⟩ := h rules 0 false e s (by decide)
  rw [hvalue] at hf
  cases hf
  simp [Failure.ofStack, Failure.isReported] at hkind

end Abacus.Run
