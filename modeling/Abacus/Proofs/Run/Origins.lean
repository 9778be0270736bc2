import Abacus.Proofs.Run.Termination

/-!
Where failures come from.

An activity fails by itself, or because an activity that it has begun fails. As no chain of
activities goes on forever, every failure of a run has an origin: an activity that was reached in
the run and that failed by itself.
-/
namespace Abacus.Run

theorem leave_eq_error {o : Ended Ending} {f : Failure} {s : State} (h : leave o = .error f s) :
    ∃ s', o = .error f s' := by
  cases o with
  | ok ending s' => cases h
  | error e s' =>
    cases h
    exact ⟨s', rfl⟩

namespace Activity

variable {rules : Rules}

/-- The activity fails, and no activity that it has begun does. -/
inductive Raises (rules : Rules) : Activity → Failure → Prop
  | strayParenthesis (d : Nat) (c : String) (p : Int) (side : Side) (rest : List Term)
      (stack : List Operand) (s : State) :
      Raises rules ⟨d, .terms c (.parenthesis p side :: rest) stack, s⟩ (.defect .strayParenthesis)
  | operator (d : Nat) (c : String) (p : Int) (op : Operator) (rest : List Term)
      {stack : List Operand} {s s' : State} {f : Failure} (h : apply c p op stack s = .error f s') :
      Raises rules ⟨d, .terms c (.operator p op :: rest) stack, s⟩ f
  | missingValue (d : Nat) (c : String) (p : Int) (n text : String) (es : List Expression)
      (rest : List Term) (stack : List Operand) {s s' : State}
      (h : Run.call rules d c p n text es s = .ok none s') :
      Raises rules ⟨d, .terms c (.call p n text es :: rest) stack, s⟩
        (.diagnosed ⟨c, p, .missingValue⟩)
  | conclusion (d : Nat) (e : Expression) {stack : List Operand} {s s' s'' : State} {f : Failure}
      (h : Run.terms rules d e.context e.terms [] s = .ok stack s')
      (hconclude : conclude e.context stack s' = .error f s'') : Raises rules ⟨d, .evaluate e, s⟩ f
  | unknownName (d : Nat) (c : String) (p : Int) {n : String} (text : String)
      (es : List Expression) (s : State) (hf : rules.functions.find? n = none) :
      Raises rules ⟨d, .call c p n text es, s⟩ (.diagnosed ⟨c, p, .unknownName⟩)
  | argumentCount (d : Nat) (c : String) (p : Int) {n : String} (text : String)
      {es : List Expression} {f : Function} (s : State) (hf : rules.functions.find? n = some f)
      (harity : f.arity ≠ es.length) :
      Raises rules ⟨d, .call c p n text es, s⟩ (.diagnosed ⟨c, p, .argumentCount⟩)
  | callLimit {d : Nat} (c : String) (p : Int) {n : String} (text : String)
      {es : List Expression} {f : Function} {s s' : State} {xs : List Decimal}
      (hf : rules.functions.find? n = some f) (harity : f.arity = es.length)
      (h : Run.evaluateAll rules d es s = .ok xs s') (hlimit : rules.settings.callLimit ≤ d) :
      Raises rules ⟨d, .call c p n text es, s⟩ .limit
  | tooManyDigits (d : Nat) {e : Expression} {s s' : State} {x : Decimal}
      (h : Run.evaluate rules d e s = .ok x s')
      (hx : x.display? rules.settings.displayPlaces = none) :
      Raises rules ⟨d, .statement (.printing e), s⟩ (.defect .tooManyDigits)
  | loopLimit (d : Nat) (text : String) (e : Expression) (body : List Statement)
      (last : Option Decimal) {s s' : State} {x : Decimal}
      (h : Run.evaluate rules d e s = .ok x s') (hx : Numeric.isTrue x = true) :
      Raises rules ⟨d, .loop text e body 0 last, s⟩ .limit

/-- The activity ends in the failure. -/
def Fails (rules : Rules) (a : Activity) (f : Failure) : Prop :=
  ∃ s', a.task.run rules a.depth a.state = .error f s'

/-- The failure is the activity's own, or that of an activity it begins. -/
def Stems (rules : Rules) (a : Activity) (f : Failure) : Prop :=
  Raises rules a f ∨ ∃ b, Begins rules a b ∧ Fails rules b f

section Cases

variable {d : Nat} {s s' : State} {f : Failure}

theorem terms_stems {c : String} {ts : List Term} {stack : List Operand}
    (h : Run.terms rules d c ts stack s = .error f s') :
    Stems rules ⟨d, .terms c ts stack, s⟩ f := by
  cases ts with
  | nil =>
    rw [Run.terms] at h
    cases h
  | cons t rest =>
    cases t with
    | number p x =>
      rw [Run.terms] at h
      exact .inr ⟨_, .afterNumber d c p x rest stack s, s', h⟩
    | name p n =>
      rw [Run.terms] at h
      exact .inr ⟨_, .afterName d c p n rest stack s, s', h⟩
    | call p n text es =>
      rw [Run.terms] at h
      rcases bind_eq_error_iff.mp h with h | ⟨result, s₁, hcall, h⟩
      · exact .inr ⟨_, .callee d c p n text es rest stack s, s', h⟩
      · cases result with
        | none =>
          cases h
          exact .inl (.missingValue d c p n text es rest stack hcall)
        | some x => exact .inr ⟨_, .afterCall d c p n text es rest stack hcall, s', h⟩
    | operator p op =>
      rw [Run.terms] at h
      rcases bind_eq_error_iff.mp h with h | ⟨stack', s₁, happly, h⟩
      · exact .inl (.operator d c p op rest h)
      · exact .inr ⟨_, .afterOperator d c p op rest happly, s', h⟩
    | parenthesis p side =>
      rw [Run.terms] at h
      cases h
      exact .inl (.strayParenthesis d c p side rest stack s)

theorem evaluate_stems {e : Expression} (h : Run.evaluate rules d e s = .error f s') :
    Stems rules ⟨d, .evaluate e, s⟩ f := by
  rw [Run.evaluate] at h
  rcases bind_eq_error_iff.mp h with h | ⟨stack, s₁, hterms, h⟩
  · exact .inr ⟨_, .expressionTerms d e s, s', h⟩
  · exact .inl (.conclusion d e hterms h)

theorem evaluateStatement_stems {e : Expression}
    (h : Run.evaluateStatement rules d e s = .error f s') :
    Stems rules ⟨d, .evaluateStatement e, s⟩ f := by
  rw [Run.evaluateStatement.eq_def] at h
  split at h
  · exact .inr ⟨_, .singleCall d _ _ _ _ _ s, s', h⟩
  · next hcall =>
    rcases bind_eq_error_iff.mp h with h | ⟨x, s₁, -, h⟩
    · exact .inr ⟨_, .statementValue d s hcall, s', h⟩
    · cases h

theorem evaluateAll_stems {es : List Expression}
    (h : Run.evaluateAll rules d es s = .error f s') :
    Stems rules ⟨d, .evaluateAll es, s⟩ f := by
  cases es with
  | nil =>
    rw [Run.evaluateAll] at h
    cases h
  | cons e rest =>
    rw [Run.evaluateAll] at h
    rcases bind_eq_error_iff.mp h with h | ⟨x, s₁, he, h⟩
    · exact .inr ⟨_, .firstValue d e rest s, s', h⟩
    rcases bind_eq_error_iff.mp h with h | ⟨xs, s₂, -, h⟩
    · exact .inr ⟨_, .otherValues d e rest he, s', h⟩
    · cases h

theorem call_stems {c : String} {p : Int} {n text : String} {es : List Expression}
    (h : Run.call rules d c p n text es s = .error f s') :
    Stems rules ⟨d, .call c p n text es, s⟩ f := by
  cases hf : rules.functions.find? n with
  | none =>
    rw [call_of_unknown hf] at h
    cases h
    exact .inl (.unknownName d c p text es s hf)
  | some g =>
    by_cases harity : g.arity = es.length
    · rw [call_of_known hf harity] at h
      rcases bind_eq_error_iff.mp h with h | ⟨xs, s₁, hes, h⟩
      · exact .inr ⟨_, .arguments d c p text s hf harity, s', h⟩
      by_cases hlimit : d < rules.settings.callLimit
      · rw [enter_of_lt hlimit] at h
        obtain ⟨s₂, hbody⟩ := leave_eq_error h
        exact .inr ⟨_, .body c p text hf harity hes hlimit, s₂, hbody⟩
      · rw [enter_of_le (Nat.not_lt.mp hlimit)] at h
        cases h
        exact .inl (.callLimit c p text hf harity hes (Nat.not_lt.mp hlimit))
    · rw [call_of_wrongCount hf harity] at h
      cases h
      exact .inl (.argumentCount d c p text s hf harity)

theorem statement_stems {t : Statement} (h : Run.statement rules d t s = .error f s') :
    Stems rules ⟨d, .statement t, s⟩ f := by
  cases t with
  | expression e =>
    rw [Run.statement] at h
    rcases bind_eq_error_iff.mp h with h | ⟨x, s₁, -, h⟩
    · exact .inr ⟨_, .expression d e s, s', h⟩
    · cases h
  | branch e body otherwise =>
    rw [statement_branch] at h
    rcases bind_eq_error_iff.mp h with h | ⟨x, s₁, he, h⟩
    · exact .inr ⟨_, .branchCondition d e body otherwise s, s', h⟩
    split at h
    · next hx => exact .inr ⟨_, .branchBody d e body otherwise he hx, s', h⟩
    · next hx =>
      cases otherwise with
      | none => cases h
      | some other =>
        exact .inr ⟨_, .branchOther d e body other he (by simpa using hx), s', h⟩
  | loop text e body =>
    rw [Run.statement] at h
    exact .inr ⟨_, .firstRound d text e body s, s', h⟩
  | returning e =>
    rw [Run.statement] at h
    rcases bind_eq_error_iff.mp h with h | ⟨x, s₁, -, h⟩
    · exact .inr ⟨_, .returned d e s, s', h⟩
    · cases h
  | printing e =>
    rw [Run.statement] at h
    rcases bind_eq_error_iff.mp h with h | ⟨x, s₁, he, h⟩
    · exact .inr ⟨_, .printed d e s, s', h⟩
    cases hx : x.display? rules.settings.displayPlaces with
    | none =>
      rw [display, hx] at h
      cases h
      exact .inl (.tooManyDigits d he hx)
    | some text =>
      rw [display, hx] at h
      cases h
  | breaking =>
    rw [Run.statement] at h
    cases h

theorem statements_stems {last : Option Decimal} {ss : List Statement}
    (h : Run.statements rules d last ss s = .error f s') :
    Stems rules ⟨d, .statements last ss, s⟩ f := by
  cases ss with
  | nil =>
    rw [Run.statements] at h
    cases h
  | cons t rest =>
    rw [Run.statements] at h
    rcases bind_eq_error_iff.mp h with h | ⟨signal, s₁, ht, h⟩
    · exact .inr ⟨_, .firstStatement d last t rest s, s', h⟩
    cases signal with
    | value x => exact .inr ⟨_, .afterValue d last t rest ht, s', h⟩
    | nothing => exact .inr ⟨_, .afterNothing d last t rest ht, s', h⟩
    | returned x => cases h
    | broke => cases h

theorem block_stems {body : List Statement} (h : Run.block rules d body s = .error f s') :
    Stems rules ⟨d, .block body, s⟩ f := by
  rw [block_eq] at h
  rcases bind_eq_error_iff.mp h with h | ⟨ending, s₁, -, h⟩
  · exact .inr ⟨_, .blockStatements d body s, s', h⟩
  · cases h

theorem loop_stems {text : String} {e : Expression} {body : List Statement} {remaining : Nat}
    {last : Option Decimal} (h : Run.loop rules d text e body remaining last s = .error f s') :
    Stems rules ⟨d, .loop text e body remaining last, s⟩ f := by
  rw [loop_eq] at h
  rcases bind_eq_error_iff.mp h with h | ⟨x, s₁, he, h⟩
  · exact .inr ⟨_, .loopCondition d text e body remaining last s, s', h⟩
  split at h
  · next hx =>
    cases remaining with
    | zero =>
      cases h
      exact .inl (.loopLimit d text e body last he hx)
    | succ remaining =>
      rw [takeRound] at h
      rcases bind_eq_error_iff.mp h with h | ⟨ending, s₂, hbody, h⟩
      · exact .inr ⟨_, .round d text e body remaining last he hx, s', h⟩
      cases ending with
      | finished last' =>
        exact .inr ⟨_, .nextRound d text e body remaining last he hx hbody, s', h⟩
      | returned y => cases h
      | broke last' => cases h
  · cases h

end Cases

theorem Fails.stems {a : Activity} {f : Failure} (h : Fails rules a f) :
    Stems rules a f := by
  obtain ⟨d, task, s⟩ := a
  obtain ⟨s', h⟩ := h
  cases task with
  | terms c ts stack => exact terms_stems h
  | evaluate e => exact evaluate_stems h
  | evaluateStatement e => exact evaluateStatement_stems h
  | evaluateAll es => exact evaluateAll_stems h
  | call c p n text es => exact call_stems h
  | statement t => exact statement_stems h
  | statements last ss => exact statements_stems h
  | block body => exact block_stems h
  | loop text e body remaining last => exact loop_stems h

/-- A failure is that of some activity of the run by itself. -/
theorem Fails.exists_origin {a : Activity} {f : Failure} (h : Fails rules a f) :
    ∃ b, Leads rules a b ∧ Raises rules b f := by
  induction a using (begins_wellFounded rules).induction with
  | _ a ih =>
    rcases h.stems with hraises | ⟨b, hbegins, hfails⟩
    · exact ⟨a, .refl, hraises⟩
    · obtain ⟨c, hleads, hraises⟩ := ih b hbegins hfails
      exact ⟨c, .head hbegins hleads, hraises⟩

end Activity

end Abacus.Run
