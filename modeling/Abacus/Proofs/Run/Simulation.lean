import Abacus.Proofs.Run.Scope
import Abacus.Proofs.Run.Values

/-!
Two runs side by side.

Two scripts that differ in their numbers at most are run from two states. If the numbers of the
scripts and the values in the states are related by a relation that arithmetic, conditions and
display respect, then the runs go the same way: they end in related results or in the same failure,
and in related states. What relates the states is left open; it has to outlast the few steps that
the interpreter is put together from.
-/
namespace Abacus

/-! ### Scripts side by side -/

section Scripts

variable (V : Decimal → Decimal → Prop)

mutual

/-- The same term, but for numbers that are related. -/
inductive Term.Like : Term → Term → Prop
  | number (p : Int) {x y : Decimal} (h : V x y) : Term.Like (.number p x) (.number p y)
  | name (p : Int) (n : String) : Term.Like (.name p n) (.name p n)
  | call (p : Int) (n text : String) {es es' : List Expression} (h : Expressions.Like es es') :
      Term.Like (.call p n text es) (.call p n text es')
  | operator (p : Int) (op : Operator) : Term.Like (.operator p op) (.operator p op)
  | parenthesis (p : Int) (side : Side) : Term.Like (.parenthesis p side) (.parenthesis p side)

inductive Terms.Like : List Term → List Term → Prop
  | nil : Terms.Like [] []
  | cons {t t' : Term} {ts ts' : List Term} (h : Term.Like t t') (hs : Terms.Like ts ts') :
      Terms.Like (t :: ts) (t' :: ts')

inductive Expression.Like : Expression → Expression → Prop
  | mk (context : String) {ts ts' : List Term} (h : Terms.Like ts ts') :
      Expression.Like ⟨context, ts⟩ ⟨context, ts'⟩

inductive Expressions.Like : List Expression → List Expression → Prop
  | nil : Expressions.Like [] []
  | cons {e e' : Expression} {es es' : List Expression} (h : Expression.Like e e')
      (hs : Expressions.Like es es') : Expressions.Like (e :: es) (e' :: es')

end

mutual

/-- The same statement, but for numbers that are related. -/
inductive Statement.Like : Statement → Statement → Prop
  | expression {e e' : Expression} (h : Expression.Like V e e') :
      Statement.Like (.expression e) (.expression e')
  | branch {e e' : Expression} {body body' : List Statement} (h : Expression.Like V e e')
      (hbody : Statements.Like body body') :
      Statement.Like (.branch e body none) (.branch e' body' none)
  | branchElse {e e' : Expression} {body body' other other' : List Statement}
      (h : Expression.Like V e e') (hbody : Statements.Like body body')
      (hother : Statements.Like other other') :
      Statement.Like (.branch e body (some other)) (.branch e' body' (some other'))
  | loop (text : String) {e e' : Expression} {body body' : List Statement}
      (h : Expression.Like V e e') (hbody : Statements.Like body body') :
      Statement.Like (.loop text e body) (.loop text e' body')
  | returning {e e' : Expression} (h : Expression.Like V e e') :
      Statement.Like (.returning e) (.returning e')
  | printing {e e' : Expression} (h : Expression.Like V e e') :
      Statement.Like (.printing e) (.printing e')
  | breaking : Statement.Like .breaking .breaking

inductive Statements.Like : List Statement → List Statement → Prop
  | nil : Statements.Like [] []
  | cons {s s' : Statement} {ss ss' : List Statement} (h : Statement.Like s s')
      (hs : Statements.Like ss ss') : Statements.Like (s :: ss) (s' :: ss')

end

/-- The same function, but for numbers that are related. -/
structure Function.Like (f f' : Function) : Prop where
  name : f.name = f'.name
  text : f.text = f'.text
  parameters : f.parameters = f'.parameters
  body : Statements.Like V f.body f'.body

/-- Under each name there are related entries, or none in either table. -/
def Table.Like {α : Type} (R : α → α → Prop) (t t' : Table α) : Prop :=
  ∀ name, Option.Rel R (t.find? name) (t'.find? name)

structure Rules.Like (rules rules' : Rules) : Prop where
  settings : rules.settings = rules'.settings
  functions : rules.functions.Like (Function.Like V) rules'.functions

inductive Operand.Like : Operand → Operand → Prop
  | value {x y : Decimal} (h : V x y) : Operand.Like (.value x) (.value y)
  | reference (n : String) (p : Int) : Operand.Like (.reference n p) (.reference n p)

inductive Signal.Like : Signal → Signal → Prop
  | value {x y : Decimal} (h : V x y) : Signal.Like (.value x) (.value y)
  | returned {x y : Decimal} (h : V x y) : Signal.Like (.returned x) (.returned y)
  | broke : Signal.Like .broke .broke
  | nothing : Signal.Like .nothing .nothing

inductive Ending.Like : Ending → Ending → Prop
  | finished {last last' : Option Decimal} (h : Option.Rel V last last') :
      Ending.Like (.finished last) (.finished last')
  | returned {x y : Decimal} (h : V x y) : Ending.Like (.returned x) (.returned y)
  | broke {last last' : Option Decimal} (h : Option.Rel V last last') :
      Ending.Like (.broke last) (.broke last')

/-- Related results, or the same error. -/
inductive Numeric.Checked.Like : Numeric.Checked → Numeric.Checked → Prop
  | ok {x y : Decimal} (h : V x y) : Numeric.Checked.Like (.ok x) (.ok y)
  | error (kind : ErrorKind) : Numeric.Checked.Like (.error kind) (.error kind)

end Scripts

section Like

variable {V : Decimal → Decimal → Prop}

theorem Expressions.Like.length {es es' : List Expression} (h : Expressions.Like V es es') :
    es.length = es'.length := by
  match h with
  | .nil => rfl
  | .cons _ hs => exact congrArg (· + 1) hs.length

theorem Terms.Like.exists_call {ts ts' : List Term} (h : Terms.Like V ts ts')
    (hcall : ∃ p n text es, ts' = [.call p n text es]) :
    ∃ p n text es, ts = [.call p n text es] := by
  obtain ⟨p, n, text, es, rfl⟩ := hcall
  cases h with
  | cons ht hrest =>
    cases ht
    cases hrest
    exact ⟨p, n, text, _, rfl⟩

theorem Signal.like_ofLast {last last' : Option Decimal} (h : Option.Rel V last last') :
    Signal.Like V (.ofLast last) (.ofLast last') := by
  cases h with
  | none => exact .nothing
  | some h => exact .value h

theorem Ending.Like.signal {a b : Ending} (h : Ending.Like V a b) :
    Signal.Like V a.signal b.signal := by
  cases h with
  | finished h => exact Signal.like_ofLast h
  | returned h => exact .returned h
  | broke h => exact .broke

theorem Ending.Like.value? {a b : Ending} (h : Ending.Like V a b) :
    Option.Rel V a.value? b.value? := by
  cases h with
  | finished h => exact h
  | returned h => exact .some h
  | broke h => exact h

end Like

/-! ### A script beside itself -/

section Itself

variable {V : Decimal → Decimal → Prop}

mutual

/-- A term is like itself if the relation holds of each of its numbers and that number itself. -/
theorem Term.like_self (t : Term) (h : ∀ x, t.Mentions x → V x x) : Term.Like V t t := by
  match t with
  | .number p x => exact .number p (h x (.number p))
  | .name p n => exact .name p n
  | .call p n text es =>
    exact .call p n text (Expressions.like_self es fun x e he ⟨t, ht, hx⟩ =>
      h x (.argument p n text he ht hx))
  | .operator p op => exact .operator p op
  | .parenthesis p side => exact .parenthesis p side

theorem Terms.like_self (ts : List Term) (h : ∀ x, ∀ t ∈ ts, t.Mentions x → V x x) :
    Terms.Like V ts ts := by
  match ts with
  | [] => exact .nil
  | t :: rest =>
    exact .cons (t.like_self fun x hx => h x t (by simp) hx)
      (Terms.like_self rest fun x u hu hx => h x u (by simp [hu]) hx)

theorem Expressions.like_self (es : List Expression)
    (h : ∀ x, ∀ e ∈ es, Expression.Mentions x e → V x x) : Expressions.Like V es es := by
  match es with
  | [] => exact .nil
  | ⟨context, ts⟩ :: rest =>
    refine .cons (.mk context (Terms.like_self ts fun x t ht hx => ?_))
      (Expressions.like_self rest fun x e he hx => h x e (by simp [he]) hx)
    exact h x ⟨context, ts⟩ (by simp) ⟨t, ht, hx⟩

end

theorem Expression.like_self (e : Expression) (h : ∀ x, Expression.Mentions x e → V x x) :
    Expression.Like V e e := by
  obtain ⟨context, ts⟩ := e
  exact .mk context (Terms.like_self ts fun x t ht hx => h x ⟨t, ht, hx⟩)

mutual

theorem Statement.like_self (s : Statement) (h : ∀ x, s.Mentions x → V x x) :
    Statement.Like V s s := by
  match s with
  | .expression e => exact .expression (e.like_self fun x hx => h x (.expression hx))
  | .branch e body none =>
    exact .branch (e.like_self fun x hx => h x (.branchCondition body none hx))
      (Statements.like_self body fun x s hs hx => h x (.branchBody e none hs hx))
  | .branch e body (some other) =>
    exact .branchElse (e.like_self fun x hx => h x (.branchCondition body (some other) hx))
      (Statements.like_self body fun x s hs hx => h x (.branchBody e (some other) hs hx))
      (Statements.like_self other fun x s hs hx => h x (.branchOther e body hs hx))
  | .loop text e body =>
    exact .loop text (e.like_self fun x hx => h x (.loopCondition text body hx))
      (Statements.like_self body fun x s hs hx => h x (.loopBody text e hs hx))
  | .returning e => exact .returning (e.like_self fun x hx => h x (.returning hx))
  | .printing e => exact .printing (e.like_self fun x hx => h x (.printing hx))
  | .breaking => exact .breaking

theorem Statements.like_self (ss : List Statement) (h : ∀ x, ∀ s ∈ ss, s.Mentions x → V x x) :
    Statements.Like V ss ss := by
  match ss with
  | [] => exact .nil
  | s :: rest =>
    exact .cons (s.like_self fun x hx => h x s (by simp) hx)
      (Statements.like_self rest fun x t ht hx => h x t (by simp [ht]) hx)

end

theorem Function.like_self (f : Function) (h : ∀ x, f.Mentions x → V x x) :
    Function.Like V f f :=
  ⟨rfl, rfl, rfl, Statements.like_self f.body fun x s hs hx => h x ⟨s, hs, hx⟩⟩

end Itself

namespace Run

/-! ### Computations side by side -/

section Paired

variable (S : State → State → Prop)

/-- Both computations end in related results, or in the same failure, and in related states. -/
inductive Matched {α β : Type} (R : α → β → Prop) : Ended α → Ended β → Prop
  | ok {a : α} {b : β} {s s' : State} (hs : S s s') (h : R a b) : Matched R (.ok a s) (.ok b s')
  | error {e : Failure} {s s' : State} (hs : S s s') : Matched R (.error e s) (.error e s')

/-- From related states the computations end alike. -/
def Paired {α β : Type} (R : α → β → Prop) (m : Run α) (m' : Run β) : Prop :=
  ∀ s s' : State, S s s' → Matched S R (m s) (m' s')

end Paired

section Steps

variable {S : State → State → Prop} {α β γ δ : Type} {R : α → β → Prop} {Q : γ → δ → Prop}

theorem paired_pure {a : α} {b : β} (h : R a b) : Paired S R (pure a) (pure b) :=
  fun _ _ hs => .ok hs h

theorem paired_throw (e : Failure) : Paired S R (throw e) (throw e) := fun _ _ hs => .error hs

theorem paired_fail (context : String) (p : Int) (kind : ErrorKind) :
    Paired S R (fail context p kind) (fail context p kind) := paired_throw _

theorem Paired.bind {m : Run α} {m' : Run β} {f : α → Run γ} {f' : β → Run δ}
    (hm : Paired S R m m') (hf : ∀ a b, R a b → Paired S Q (f a) (f' b)) :
    Paired S Q (m >>= f) (m' >>= f') := by
  intro s s' hs
  have hends := hm s s' hs
  rw [bind_run, bind_run]
  generalize m s = o, m' s' = o' at hends
  cases hends with
  | ok ht h => exact hf _ _ h _ _ ht
  | error ht => exact .error ht

end Steps

section Steps

variable {V : Decimal → Decimal → Prop} {S : State → State → Prop}

theorem pop_paired {stack stack' : List Operand} (h : List.Forall₂ (Operand.Like V) stack stack') :
    Paired S (fun top top' => Operand.Like V top.1 top'.1 ∧
      List.Forall₂ (Operand.Like V) top.2 top'.2) (pop stack) (pop stack') := by
  cases h with
  | nil => exact paired_throw _
  | cons h hs => exact paired_pure ⟨h, hs⟩

theorem arithmetic_paired (context : String) (p : Int) {r r' : Numeric.Checked}
    (h : Numeric.Checked.Like V r r') :
    Paired S V (arithmetic context p r) (arithmetic context p r') := by
  cases h with
  | ok h => exact paired_pure h
  | error kind => exact paired_fail context p kind

end Steps

/-- What it takes for two runs to go the same way: `V` relates values, `S` states. -/
structure Simulation (V : Decimal → Decimal → Prop) (S : State → State → Prop) : Prop where
  get {s s' : State} (h : S s s') (name : String) :
    Option.Rel V (s.store.get? name) (s'.store.get? name)
  set {s s' : State} (h : S s s') (name : String) {x y : Decimal} (hx : V x y) :
    S { s with store := s.store.set name x } { s' with store := s'.store.set name y }
  record {s s' : State} (h : S s s') (e : Event) :
    S { s with events := e :: s.events } { s' with events := e :: s'.events }
  print {s s' : State} (h : S s s') (text : String) :
    S { s with out := s.out ++ text } { s' with out := s'.out ++ text }
  push {s s' : State} (h : S s s') (names : List String) {xs ys : List Decimal}
    (hxs : List.Forall₂ V xs ys) :
    S { s with store := s.store.push (Table.ofEntries (names.zip xs)) }
      { s' with store := s'.store.push (Table.ofEntries (names.zip ys)) }
  pop {s s' : State} (h : S s s') :
    S { s with store := s.store.pop } { s' with store := s'.store.pop }
  unary {op : Operator} {compute : Decimal → Numeric.Checked} (h : op.meaning = .unary compute)
    {x y : Decimal} (hx : V x y) : Numeric.Checked.Like V (compute x) (compute y)
  binary {op : Operator} {compute : Decimal → Decimal → Numeric.Checked}
    (h : op.meaning = .binary compute) {x y x' y' : Decimal} (hx : V x y) (hx' : V x' y') :
    Numeric.Checked.Like V (compute x x') (compute y y')
  isTrue {x y : Decimal} (h : V x y) : Numeric.isTrue x = Numeric.isTrue y
  display {x y : Decimal} (h : V x y) (places : Nat) : x.display? places = y.display? places

namespace Simulation

variable {V : Decimal → Decimal → Prop} {S : State → State → Prop}

section Steps

variable (sim : Simulation V S)
include sim

theorem resolve (context : String) {a b : Operand} (h : Operand.Like V a b) :
    Paired S V (Run.resolve context a) (Run.resolve context b) := by
  cases h with
  | value h => exact paired_pure h
  | reference n p =>
    intro s s' hs
    have hget := sim.get hs n
    generalize hx : s.store.get? n = o, hy : s'.store.get? n = o' at hget
    cases hget with
    | none =>
      rw [resolve_of_none hx, resolve_of_none hy]
      exact .error hs
    | some h =>
      rw [resolve_of_some hx, resolve_of_some hy]
      exact .ok hs h

theorem assign (context : String) (p : Int) {x y : Decimal} (hx : V x y) {a b : Operand}
    (h : Operand.Like V a b) :
    Paired S (Operand.Like V) (Run.assign context p x a) (Run.assign context p y b) := by
  cases h with
  | value _ => exact paired_fail context p _
  | reference n q => exact fun s s' hs => .ok (sim.set hs n hx) (.reference n q)

theorem apply (context : String) (p : Int) (op : Operator) {stack stack' : List Operand}
    (h : List.Forall₂ (Operand.Like V) stack stack') :
    Paired S (List.Forall₂ (Operand.Like V)) (Run.apply context p op stack)
      (Run.apply context p op stack') := by
  unfold Run.apply
  split
  · refine (pop_paired h).bind fun (right, stack) (right', stack') ⟨hright, hstack⟩ => ?_
    refine (sim.resolve context hright).bind fun x y hx => ?_
    refine (pop_paired hstack).bind fun (left, stack) (left', stack') ⟨hleft, hstack⟩ => ?_
    refine (sim.assign context p hx hleft).bind fun target target' htarget => ?_
    exact paired_pure (.cons htarget hstack)
  · next compute hop =>
    refine (pop_paired h).bind fun (a, stack) (a', stack') ⟨ha, hstack⟩ => ?_
    refine (sim.resolve context ha).bind fun x y hx => ?_
    refine (arithmetic_paired context p (sim.unary hop hx)).bind fun z w hz => ?_
    exact paired_pure (.cons (.value hz) hstack)
  · next compute hop =>
    refine (pop_paired h).bind fun (right, stack) (right', stack') ⟨hright, hstack⟩ => ?_
    refine (sim.resolve context hright).bind fun x' y' hx' => ?_
    refine (pop_paired hstack).bind fun (left, stack) (left', stack') ⟨hleft, hstack⟩ => ?_
    refine (sim.resolve context hleft).bind fun x y hx => ?_
    refine (arithmetic_paired context p (sim.binary hop hx hx')).bind fun z w hz => ?_
    exact paired_pure (.cons (.value hz) hstack)

theorem conclude (context : String) {stack stack' : List Operand}
    (h : List.Forall₂ (Operand.Like V) stack stack') :
    Paired S V (Run.conclude context stack) (Run.conclude context stack') := by
  cases h with
  | nil => exact paired_throw _
  | cons h hs =>
    cases hs with
    | nil => exact sim.resolve context h
    | cons _ _ => exact paired_throw _

theorem printing (settings : Settings) {x y : Decimal} (h : V x y) :
    Paired S (Signal.Like V)
      (do let text ← Run.display settings x; Run.print (text ++ "\n"); pure .nothing)
      (do let text ← Run.display settings y; Run.print (text ++ "\n"); pure .nothing) := by
  unfold Run.display
  rw [sim.display h settings.displayPlaces]
  split
  · exact fun s s' hs => .ok (sim.print hs _) .nothing
  · exact paired_throw _

theorem leave {o o' : Ended Ending} (h : Matched S (Ending.Like V) o o') :
    Matched S (Option.Rel V) (Run.leave o) (Run.leave o') := by
  cases h with
  | ok hs h => exact .ok (sim.pop hs) h.value?
  | error hs => exact .error (sim.pop hs)

end Steps

/-! ### All that the interpreter does -/

theorem evaluateStatement_of_ne {rules : Rules} {depth : Nat} {context : String} {ts : List Term}
    (h : ∀ p n text es, ts ≠ [.call p n text es]) :
    Run.evaluateStatement rules depth ⟨context, ts⟩
      = Run.evaluate rules depth ⟨context, ts⟩ >>= fun x => pure (some x) := by
  rw [Run.evaluateStatement]
  rintro c p n text es ⟨⟩
  exact h p n text es rfl

/-- Functions of both sides go the same way when they are called at the given depth. -/
def Enters (V : Decimal → Decimal → Prop) (S : State → State → Prop) (rules rules' : Rules)
    (depth : Nat) : Prop :=
  ∀ (text : String) (f f' : Function), Function.Like V f f' → ∀ xs ys, List.Forall₂ V xs ys →
    Paired S (Option.Rel V) (enter rules depth text f xs) (enter rules' depth text f' ys)

section Scripts

variable {rules rules' : Rules} {depth : Nat}

theorem call_of_values (hrules : rules.Like V rules') (henters : Enters V S rules rules' depth)
    (context : String) (p : Int) (n text : String) {es es' : List Expression}
    (hlength : es.length = es'.length)
    (hes : Paired S (List.Forall₂ V) (Run.evaluateAll rules depth es)
      (Run.evaluateAll rules' depth es')) :
    Paired S (Option.Rel V) (Run.call rules depth context p n text es)
      (Run.call rules' depth context p n text es') := by
  have hfunction := hrules.functions n
  generalize hf : rules.functions.find? n = o at hfunction
  generalize hf' : rules'.functions.find? n = o' at hfunction
  cases hfunction with
  | none =>
    rw [call_of_unknown hf, call_of_unknown hf']
    exact paired_fail context p _
  | @some f f' hlike =>
    have harities : f.arity = f'.arity := congrArg List.length hlike.parameters
    by_cases harity : f.arity = es.length
    · rw [call_of_known hf harity, call_of_known hf' (by rw [← harities, harity, hlength])]
      exact hes.bind fun xs ys hxs => henters text f f' hlike xs ys hxs
    · rw [call_of_wrongCount hf harity,
        call_of_wrongCount hf' (by rwa [← harities, ← hlength])]
      exact paired_fail context p _

mutual

theorem terms (sim : Simulation V S) (hrules : rules.Like V rules')
    (henters : Enters V S rules rules' depth) (context : String) {ts ts' : List Term}
    (h : Terms.Like V ts ts') {stack stack' : List Operand}
    (hstack : List.Forall₂ (Operand.Like V) stack stack') :
    Paired S (List.Forall₂ (Operand.Like V)) (Run.terms rules depth context ts stack)
      (Run.terms rules' depth context ts' stack') := by
  match h with
  | .nil =>
    rw [Run.terms, Run.terms]
    exact paired_pure hstack
  | .cons (.number p hx) hrest =>
    rw [Run.terms, Run.terms]
    exact terms sim hrules henters context hrest (.cons (.value hx) hstack)
  | .cons (.name p n) hrest =>
    rw [Run.terms, Run.terms]
    exact terms sim hrules henters context hrest (.cons (.reference n p) hstack)
  | .cons (.call p n text hes) hrest =>
    rw [Run.terms, Run.terms]
    refine (call_of_values hrules henters context p n text hes.length
      (evaluateAll sim hrules henters hes)).bind fun result result' hresult => ?_
    cases hresult with
    | none => exact paired_fail context p _
    | some hx => exact terms sim hrules henters context hrest (.cons (.value hx) hstack)
  | .cons (.operator p op) hrest =>
    rw [Run.terms, Run.terms]
    refine (sim.apply context p op hstack).bind fun stack stack' hstack => ?_
    exact terms sim hrules henters context hrest hstack
  | .cons (.parenthesis p side) hrest =>
    rw [Run.terms, Run.terms]
    exact paired_throw _

theorem evaluate (sim : Simulation V S) (hrules : rules.Like V rules')
    (henters : Enters V S rules rules' depth) {e e' : Expression} (h : Expression.Like V e e') :
    Paired S V (Run.evaluate rules depth e) (Run.evaluate rules' depth e') := by
  match h with
  | .mk context hts =>
    rw [Run.evaluate, Run.evaluate]
    exact (terms sim hrules henters context hts .nil).bind fun stack stack' hstack =>
      sim.conclude context hstack

theorem evaluateAll (sim : Simulation V S) (hrules : rules.Like V rules')
    (henters : Enters V S rules rules' depth) {es es' : List Expression}
    (h : Expressions.Like V es es') :
    Paired S (List.Forall₂ V) (Run.evaluateAll rules depth es)
      (Run.evaluateAll rules' depth es') := by
  match h with
  | .nil =>
    rw [Run.evaluateAll, Run.evaluateAll]
    exact paired_pure .nil
  | .cons he hes =>
    rw [Run.evaluateAll, Run.evaluateAll]
    refine (evaluate sim hrules henters he).bind fun x y hx => ?_
    exact (evaluateAll sim hrules henters hes).bind fun xs ys hxs => paired_pure (.cons hx hxs)

end

theorem evaluateStatement (sim : Simulation V S) (hrules : rules.Like V rules')
    (henters : Enters V S rules rules' depth) {e e' : Expression} (h : Expression.Like V e e') :
    Paired S (Option.Rel V) (Run.evaluateStatement rules depth e)
      (Run.evaluateStatement rules' depth e') := by
  have hvalue := sim.evaluate hrules henters h
  cases h with
  | @mk context ts ts' hts =>
    by_cases hcall : ∃ p n text es, ts = [.call p n text es]
    · obtain ⟨p, n, text, es, rfl⟩ := hcall
      cases hts with
      | cons ht hrest =>
        cases ht with
        | call _ _ _ hes =>
          cases hrest
          rw [Run.evaluateStatement, Run.evaluateStatement]
          exact call_of_values hrules henters context p n text hes.length
            (sim.evaluateAll hrules henters hes)
    · have hcall' := mt hts.exists_call hcall
      rw [evaluateStatement_of_ne fun p n text es hts => hcall ⟨p, n, text, es, hts⟩,
        evaluateStatement_of_ne fun p n text es hts => hcall' ⟨p, n, text, es, hts⟩]
      exact hvalue.bind fun x y hx => paired_pure (.some hx)

theorem block_of_statements {body body' : List Statement}
    (h : Paired S (Ending.Like V) (Run.statements rules depth none body)
      (Run.statements rules' depth none body')) :
    Paired S (Signal.Like V) (Run.block rules depth body) (Run.block rules' depth body') := by
  rw [block_eq, block_eq]
  exact h.bind fun ending ending' hending => paired_pure hending.signal

/-- Loops go the same way round by round. -/
theorem loop_of_body (sim : Simulation V S) (hrules : rules.Like V rules') (text : String)
    {e e' : Expression} {body body' : List Statement}
    (he : Paired S V (Run.evaluate rules depth e) (Run.evaluate rules' depth e'))
    (hbody : ∀ last last', Option.Rel V last last' → Paired S (Ending.Like V)
      (Run.statements rules depth last body) (Run.statements rules' depth last' body'))
    (remaining : Nat) {last last' : Option Decimal} (hlast : Option.Rel V last last') :
    Paired S (Signal.Like V) (Run.loop rules depth text e body remaining last)
      (Run.loop rules' depth text e' body' remaining last') := by
  induction remaining generalizing last last' with
  | zero =>
    rw [loop_eq, loop_eq]
    refine he.bind fun x y hx => ?_
    rw [sim.isTrue hx]
    split
    · rw [takeRound, takeRound, hrules.settings]
      exact fun s s' hs => .error (sim.record hs _)
    · exact paired_pure (Signal.like_ofLast hlast)
  | succ remaining ih =>
    rw [loop_eq, loop_eq]
    refine he.bind fun x y hx => ?_
    rw [sim.isTrue hx]
    split
    · refine (hbody last last' hlast).bind fun ending ending' hending => ?_
      cases hending with
      | finished hlast => exact ih hlast
      | returned hy => exact paired_pure (.returned hy)
      | broke hlast => exact paired_pure (Signal.like_ofLast hlast)
    · exact paired_pure (Signal.like_ofLast hlast)

mutual

theorem statement (sim : Simulation V S) (hrules : rules.Like V rules')
    (henters : Enters V S rules rules' depth) {t t' : Statement} (h : Statement.Like V t t') :
    Paired S (Signal.Like V) (Run.statement rules depth t) (Run.statement rules' depth t') := by
  match h with
  | .expression he =>
    rw [Run.statement, Run.statement]
    exact (sim.evaluateStatement hrules henters he).bind fun last last' hlast =>
      paired_pure (Signal.like_ofLast hlast)
  | .branch he hbody =>
    rw [statement_branch, statement_branch]
    refine (sim.evaluate hrules henters he).bind fun x y hx => ?_
    rw [sim.isTrue hx]
    split
    · exact block_of_statements (statements sim hrules henters .none hbody)
    · exact paired_pure .nothing
  | .branchElse he hbody hother =>
    rw [statement_branch, statement_branch]
    refine (sim.evaluate hrules henters he).bind fun x y hx => ?_
    rw [sim.isTrue hx]
    split
    · exact block_of_statements (statements sim hrules henters .none hbody)
    · exact block_of_statements (statements sim hrules henters .none hother)
  | .loop text he hbody =>
    rw [Run.statement, Run.statement, ← hrules.settings]
    exact sim.loop_of_body hrules text (sim.evaluate hrules henters he)
      (fun last last' hlast => statements sim hrules henters hlast hbody) _ .none
  | .returning he =>
    rw [Run.statement, Run.statement]
    exact (sim.evaluate hrules henters he).bind fun x y hx => paired_pure (.returned hx)
  | .printing he =>
    rw [Run.statement, Run.statement, ← hrules.settings]
    exact (sim.evaluate hrules henters he).bind fun x y hx => sim.printing rules.settings hx
  | .breaking =>
    rw [Run.statement, Run.statement]
    exact paired_pure .broke

theorem statements (sim : Simulation V S) (hrules : rules.Like V rules')
    (henters : Enters V S rules rules' depth) {last last' : Option Decimal}
    (hlast : Option.Rel V last last') {ss ss' : List Statement} (h : Statements.Like V ss ss') :
    Paired S (Ending.Like V) (Run.statements rules depth last ss)
      (Run.statements rules' depth last' ss') := by
  match h with
  | .nil =>
    rw [Run.statements, Run.statements]
    exact paired_pure (.finished hlast)
  | .cons ht hrest =>
    rw [Run.statements, Run.statements]
    refine (statement sim hrules henters ht).bind fun signal signal' hsignal => ?_
    cases hsignal with
    | value hx => exact statements sim hrules henters (.some hx) hrest
    | nothing => exact statements sim hrules henters hlast hrest
    | returned hx => exact paired_pure (.returned hx)
    | broke => exact paired_pure (.broke hlast)

end

end Scripts

/-- Calls can only nest so deep, so functions go the same way at every depth. -/
theorem enters (sim : Simulation V S) {rules rules' : Rules} (hrules : rules.Like V rules')
    (depth : Nat) : Enters V S rules rules' depth := by
  intro text f f' hf xs ys hxs s s' hs
  have hsettings := hrules.settings
  by_cases hdepth : depth < rules.settings.callLimit
  · rw [enter_of_lt hdepth, enter_of_lt (hsettings ▸ hdepth), ← hf.parameters]
    have hentered := sim.record (sim.push hs f.parameters hxs) (.calling text (depth + 1))
    have hbody := sim.statements hrules (enters sim hrules (depth + 1)) .none hf.body
    exact sim.leave (hbody _ _ hentered)
  · have hlimit := Nat.not_lt.mp hdepth
    rw [enter_of_le hlimit, enter_of_le (hsettings ▸ hlimit), ← hsettings]
    exact .error (sim.record hs _)
termination_by rules.settings.callLimit - depth

/-- Programs that are alike go the same way. -/
theorem run (sim : Simulation V S) {rules rules' : Rules} (hrules : rules.Like V rules')
    (depth : Nat) {ss ss' : List Statement} (h : Statements.Like V ss ss') :
    Paired S (Ending.Like V) (Run.statements rules depth none ss)
      (Run.statements rules' depth none ss') :=
  sim.statements hrules (sim.enters hrules depth) .none h

end Simulation

end Run

end Abacus
