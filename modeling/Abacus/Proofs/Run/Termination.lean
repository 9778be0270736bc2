import Abacus.Proofs.Run.Semantics

/-!
Every run ends.

An activity begins only activities that are smaller: one call deeper, where fewer calls are left, or
on a smaller part of the script, or on the same loop with a round less. So no chain of activities
goes on forever, and whatever the interpreter takes up has a derivation by the rules, which is
finite. The rules derive no other outcome than the one the interpreter computes.
-/
namespace Abacus

namespace Run

/-! ### Activities grow smaller -/

/-- The size of the part of the script that is left to a task. -/
noncomputable def Task.extent : Task → Nat
  | terms _ ts _ => sizeOf ts
  | evaluate e => sizeOf e
  | evaluateStatement e => sizeOf e
  | evaluateAll es => sizeOf es
  | call _ _ _ _ es => sizeOf es
  | statement s => sizeOf s
  | statements _ ss => sizeOf ss
  | block body => sizeOf body
  | loop _ e body _ _ => sizeOf e + sizeOf body

/-- Orders the tasks on the same part of the script. -/
def Task.rank : Task → Nat
  | evaluateStatement _ => 1
  | call _ _ _ _ _ => 1
  | block _ => 1
  | loop _ _ _ remaining _ => remaining
  | _ => 0

namespace Activity

/-- The calls that are left, the part of the script that is left, and the rank of the task. -/
noncomputable def measure (rules : Rules) (a : Activity) : Nat × Nat × Nat :=
  (rules.settings.callLimit - a.depth, a.task.extent, a.task.rank)

def Smaller (x y : Nat × Nat × Nat) : Prop :=
  Prod.Lex (· < ·) (Prod.Lex (· < ·) (· < ·)) x y

theorem smaller_wellFounded : WellFounded Smaller :=
  (Prod.lex Nat.lt_wfRel (Prod.lex Nat.lt_wfRel Nat.lt_wfRel)).wf

/-- A smaller part of the script at the same depth. -/
theorem smaller_of_extent {calls m n i j : Nat} (h : m < n) : Smaller (calls, m, i) (calls, n, j) :=
  .right _ (.left _ _ h)

/-- The same part of the script in a task of lower rank. -/
theorem smaller_of_rank {calls n i j : Nat} (h : i < j) : Smaller (calls, n, i) (calls, n, j) :=
  .right _ (.right _ h)

theorem Begins.smaller {rules : Rules} {a b : Activity} (h : Begins rules a b) :
    Smaller (b.measure rules) (a.measure rules) := by
  cases h with
  | body c p text hf harity h hlimit =>
    exact .left _ _ (Nat.sub_succ_lt_self _ _ hlimit)
  | statementValue d s h => exact smaller_of_rank Nat.zero_lt_one
  | arguments d c p text s hf harity => exact smaller_of_rank Nat.zero_lt_one
  | blockStatements d body s => exact smaller_of_rank Nat.zero_lt_one
  | nextRound d text e body remaining last h hx hbody =>
    exact smaller_of_rank (Nat.lt_succ_self remaining)
  | loopCondition d text e body remaining last s =>
    have hbody := sizeOf_statements_pos body
    refine smaller_of_extent ?_
    simp only [Task.extent]
    omega
  | round d text e body remaining last h hx =>
    have hcondition := sizeOf_expression_pos e
    refine smaller_of_extent ?_
    simp only [Task.extent]
    omega
  | expressionTerms d e s =>
    obtain ⟨context, ts⟩ := e
    refine smaller_of_extent ?_
    simp only [Task.extent, Phrase.mk.sizeOf_spec]
    omega
  | _ =>
    refine smaller_of_extent ?_
    simp +arith [Task.extent]

theorem begins_wellFounded (rules : Rules) : WellFounded fun b a => Begins rules a b :=
  Subrelation.wf (fun h => h.smaller) (InvImage.wf (measure rules) smaller_wellFounded)

end Activity

/-! ### Every run has a derivation -/

mutual

theorem terms_derives (rules : Rules) (d : Nat) (c : String) (ts : List Term)
    (stack : List Operand) (s : State) :
    ∃ u, Derives (.of rules) d (.terms c ts stack) s (terms rules d c ts stack s) u := by
  match ts with
  | [] =>
    rw [terms]
    exact ⟨_, .noTerms⟩
  | .number p x :: rest =>
    obtain ⟨u, h⟩ := terms_derives rules d c rest (.value x :: stack) s
    rw [terms]
    exact ⟨u, .number h⟩
  | .name p n :: rest =>
    obtain ⟨u, h⟩ := terms_derives rules d c rest (.reference n p :: stack) s
    rw [terms]
    exact ⟨u, .name h⟩
  | .call p n text es :: rest =>
    obtain ⟨u, h⟩ := call_derives rules d c p n text es s
    rw [terms, bind_run]
    cases hr : call rules d c p n text es s with
    | error e s' =>
      rw [hr] at h
      exact ⟨u, .callStops h⟩
    | ok result s' =>
      rw [hr] at h
      cases result with
      | none => exact ⟨u, .callMissing h⟩
      | some x =>
        obtain ⟨v, hrest⟩ := terms_derives rules d c rest (.value x :: stack) s'
        exact ⟨_, .callValue h hrest⟩
  | .operator p op :: rest =>
    rw [terms, bind_run]
    cases hr : apply c p op stack s with
    | error e s' => exact ⟨_, .operatorStops hr⟩
    | ok stack' s' =>
      obtain ⟨u, hrest⟩ := terms_derives rules d c rest stack' s'
      exact ⟨u, .operator hr hrest⟩
  | .parenthesis p side :: rest =>
    rw [terms]
    exact ⟨_, .parenthesis⟩
termination_by (rules.settings.callLimit - d, sizeOf ts, 0)

theorem evaluate_derives (rules : Rules) (d : Nat) (e : Expression) (s : State) :
    ∃ u, Derives (.of rules) d (.evaluate e) s (evaluate rules d e s) u := by
  match e with
  | ⟨c, ts⟩ =>
    obtain ⟨u, h⟩ := terms_derives rules d c ts [] s
    rw [evaluate, bind_run]
    exact ⟨u, .evaluate h⟩
termination_by (rules.settings.callLimit - d, sizeOf e, 0)

theorem evaluateStatement_derives (rules : Rules) (d : Nat) (e : Expression) (s : State) :
    ∃ u, Derives (.of rules) d (.evaluateStatement e) s (evaluateStatement rules d e s) u := by
  rw [evaluateStatement.eq_def]
  split
  · next c p n text es =>
    obtain ⟨u, h⟩ := call_derives rules d c p n text es s
    exact ⟨u, .singleCall h⟩
  · next he =>
    obtain ⟨u, h⟩ := evaluate_derives rules d e s
    rw [bind_run]
    exact ⟨u, .statementValue he h⟩
termination_by (rules.settings.callLimit - d, sizeOf e, 1)

theorem evaluateAll_derives (rules : Rules) (d : Nat) (es : List Expression) (s : State) :
    ∃ u, Derives (.of rules) d (.evaluateAll es) s (evaluateAll rules d es s) u := by
  match es with
  | [] =>
    rw [evaluateAll]
    exact ⟨_, .noValues⟩
  | e :: rest =>
    obtain ⟨u, h⟩ := evaluate_derives rules d e s
    rw [evaluateAll, bind_run]
    cases hr : evaluate rules d e s with
    | error f s' =>
      rw [hr] at h
      exact ⟨u, .valueStops h⟩
    | ok x s' =>
      rw [hr] at h
      obtain ⟨v, hrest⟩ := evaluateAll_derives rules d rest s'
      simp only [andThen]
      rw [bind_run]
      exact ⟨_, .values h hrest⟩
termination_by (rules.settings.callLimit - d, sizeOf es, 0)

theorem call_derives (rules : Rules) (d : Nat) (c : String) (p : Int) (n text : String)
    (es : List Expression) (s : State) :
    ∃ u, Derives (.of rules) d (.call c p n text es) s (call rules d c p n text es s) u := by
  cases hf : rules.functions.find? n with
  | none =>
    rw [call_of_unknown hf]
    exact ⟨_, .unknown hf⟩
  | some f =>
    by_cases harity : f.arity = es.length
    · obtain ⟨u, h⟩ := evaluateAll_derives rules d es s
      rw [call_of_known hf harity, bind_run]
      cases hr : evaluateAll rules d es s with
      | error e s' =>
        rw [hr] at h
        exact ⟨u, .argumentStops hf harity h⟩
      | ok xs s' =>
        rw [hr] at h
        by_cases hdepth : d < rules.settings.callLimit
        · -- one call deeper there is one call less left
          obtain ⟨v, hbody⟩ := statements_derives rules (d + 1) none f.body
            (Activity.entered d text (Table.ofEntries (f.parameters.zip xs)) s')
          simp only [andThen]
          rw [enter_of_lt hdepth]
          refine ⟨_, .body hf harity h ?_ hbody⟩
          rintro limit ⟨⟩
          exact hdepth
        · simp only [andThen]
          rw [enter_of_le (Nat.not_lt.mp hdepth)]
          exact ⟨u, .tooDeep hf harity h rfl (Nat.not_lt.mp hdepth)⟩
    · rw [call_of_wrongCount hf harity]
      exact ⟨_, .wrongCount hf harity⟩
termination_by (rules.settings.callLimit - d, sizeOf es, 1)

theorem statement_derives (rules : Rules) (d : Nat) (t : Statement) (s : State) :
    ∃ u, Derives (.of rules) d (.statement t) s (statement rules d t s) u := by
  match t with
  | .expression e =>
    obtain ⟨u, h⟩ := evaluateStatement_derives rules d e s
    rw [statement, bind_run]
    exact ⟨u, .expression h⟩
  | .branch e body otherwise =>
    obtain ⟨u, h⟩ := evaluate_derives rules d e s
    rw [statement_branch, bind_run]
    cases hr : evaluate rules d e s with
    | error f s' =>
      rw [hr] at h
      exact ⟨u, .branchStops h⟩
    | ok x s' =>
      rw [hr] at h
      cases hx : Numeric.isTrue x with
      | true =>
        obtain ⟨v, hbody⟩ := block_derives rules d body s'
        simp only [andThen, hx]
        exact ⟨_, .branchBody h hx hbody⟩
      | false =>
        simp only [andThen, hx]
        match otherwise with
        | none => exact ⟨u, .branchNothing h hx⟩
        | some other =>
          obtain ⟨v, hother⟩ := block_derives rules d other s'
          exact ⟨_, .branchOther h hx hother⟩
  | .loop text e body =>
    obtain ⟨u, h⟩ := loop_derives rules d text e body rules.settings.loopLimit 0 none s
      (by omega)
    rw [statement]
    exact ⟨u, .loop h⟩
  | .returning e =>
    obtain ⟨u, h⟩ := evaluate_derives rules d e s
    rw [statement, bind_run]
    exact ⟨u, .returning h⟩
  | .printing e =>
    obtain ⟨u, h⟩ := evaluate_derives rules d e s
    rw [statement, bind_run]
    exact ⟨u, .printing h⟩
  | .breaking =>
    rw [statement]
    exact ⟨_, .breaking⟩
termination_by (rules.settings.callLimit - d, sizeOf t, 0)

theorem statements_derives (rules : Rules) (d : Nat) (last : Option Decimal) (ss : List Statement)
    (s : State) :
    ∃ u, Derives (.of rules) d (.statements last ss) s (statements rules d last ss s) u := by
  match ss with
  | [] =>
    rw [statements]
    exact ⟨_, .finished⟩
  | t :: rest =>
    obtain ⟨u, h⟩ := statement_derives rules d t s
    rw [statements, bind_run]
    cases hr : statement rules d t s with
    | error e s' =>
      rw [hr] at h
      exact ⟨u, .statementStops h⟩
    | ok signal s' =>
      rw [hr] at h
      cases signal with
      | value x =>
        obtain ⟨v, hrest⟩ := statements_derives rules d (some x) rest s'
        exact ⟨_, .afterValue h hrest⟩
      | nothing =>
        obtain ⟨v, hrest⟩ := statements_derives rules d last rest s'
        exact ⟨_, .afterNothing h hrest⟩
      | returned x => exact ⟨u, .returned h⟩
      | broke => exact ⟨u, .broke h⟩
termination_by (rules.settings.callLimit - d, sizeOf ss, 0)

theorem block_derives (rules : Rules) (d : Nat) (body : List Statement) (s : State) :
    ∃ u, Derives (.of rules) d (.block body) s (block rules d body s) u := by
  obtain ⟨u, h⟩ := statements_derives rules d none body s
  rw [block_eq, bind_run]
  exact ⟨u, .block h⟩
termination_by (rules.settings.callLimit - d, sizeOf body, 1)

theorem loop_derives (rules : Rules) (d : Nat) (text : String) (e : Expression)
    (body : List Statement) (remaining n : Nat) (last : Option Decimal) (s : State)
    (hn : remaining = rules.settings.loopLimit - n) :
    ∃ u, Derives (.of rules) d (.loop text e body n last) s
      (loop rules d text e body remaining last s) u := by
  have := sizeOf_statements_pos body
  have := sizeOf_expression_pos e
  obtain ⟨u, h⟩ := evaluate_derives rules d e s
  rw [loop_eq, bind_run]
  cases hr : evaluate rules d e s with
  | error f s' =>
    rw [hr] at h
    exact ⟨u, .conditionStops h⟩
  | ok x s' =>
    rw [hr] at h
    cases hx : Numeric.isTrue x with
    | false =>
      simp only [andThen, hx]
      exact ⟨u, .loopDone h hx⟩
    | true =>
      simp only [andThen, hx, if_true]
      match remaining with
      | 0 => exact ⟨u, .tooLong h hx rfl (by omega)⟩
      | remaining + 1 =>
        have hrounds : (Regime.of rules).guards.AllowRounds (n + 1) := by
          rintro limit ⟨⟩
          omega
        obtain ⟨v, hbody⟩ := statements_derives rules d last body s'
        rw [takeRound, bind_run]
        cases hb : statements rules d last body s' with
        | error f s'' =>
          rw [hb] at hbody
          exact ⟨_, .roundStops h hx hrounds hbody⟩
        | ok ending s'' =>
          rw [hb] at hbody
          cases ending with
          | returned y => exact ⟨_, .roundReturned h hx hrounds hbody⟩
          | broke last' => exact ⟨_, .roundBroke h hx hrounds hbody⟩
          | finished last' =>
            obtain ⟨w, hloop⟩ :=
              loop_derives rules d text e body remaining (n + 1) last' s'' (by omega)
            exact ⟨_, .round h hx hrounds hbody hloop⟩
termination_by (rules.settings.callLimit - d, sizeOf e + sizeOf body, remaining)

end

theorem Piece.derives (rules : Rules) (d : Nat) (q : Piece) (s : State) :
    ∃ u, Derives (.of rules) d q s (q.run rules d s) u := by
  cases q with
  | terms c ts stack => exact terms_derives rules d c ts stack s
  | evaluate e => exact evaluate_derives rules d e s
  | evaluateStatement e => exact evaluateStatement_derives rules d e s
  | evaluateAll es => exact evaluateAll_derives rules d es s
  | call c p n text es => exact call_derives rules d c p n text es s
  | statement t => exact statement_derives rules d t s
  | statements last ss => exact statements_derives rules d last ss s
  | block body => exact block_derives rules d body s
  | loop text e body n last => exact loop_derives rules d text e body _ n last s rfl

end Run

namespace Session

open Run

theorem ran_result (env : Environment) (p : Program) :
    let defined := (env.defineAll p.functions).1
    (ran env p).result
      = outcome (statements defined.rules defined.depth none p.statements
          { store := defined.store }) := by
  intro defined
  simp only [ran, Environment.run, EStateM.run, Environment.rules, defined]
  cases statements _ _ none p.statements { store := (env.defineAll p.functions).1.store } with
  | ok ending s => rfl
  | error e s => rfl

/-- Every run ends, under any limits: no chain of activities is endless, and each piece of a program
has a derivation, which is of the outcome that the interpreter computes and of no other. So the
statements of every input run to an end, whatever the session holds. -/
theorem every_run_ends :
    (∀ rules : Rules, WellFounded fun b a => Activity.Begins rules a b) ∧
    (∀ (rules : Rules) (d : Nat) (q : Piece) (s : State) (o : Ended q.Result),
      (∃ u, Derives (.of rules) d q s o u) ↔ q.run rules d s = o) ∧
    ∀ (env : Environment) (p : Program),
      let defined := (env.defineAll p.functions).1
      ∃ o u, Derives (.of defined.rules) defined.depth (.statements none p.statements)
        { store := defined.store } o u ∧ (ran env p).result = outcome o := by
  refine ⟨Activity.begins_wellFounded, fun rules d q s o => ⟨?_, ?_⟩, fun env p => ?_⟩
  · rintro ⟨u, h⟩
    exact h.run_eq
  · rintro rfl
    exact q.derives rules d s
  · obtain ⟨u, h⟩ := statements_derives _ (env.defineAll p.functions).1.depth none p.statements _
    exact ⟨_, u, h, ran_result env p⟩

end Session

end Abacus
