import Abacus.Proofs.Run.Semantics

/-!
Execution depends on the active variables only.

Two runs of the same script, among variables that are active with the same bindings, are told apart
by nothing a script can see: they give the same result or fail in the same way, print the same text
and leave the same bindings, whatever the callers' variables and the globals are. The limits may be
different ones, if as many calls are left in both. So what a function does is decided by its
arguments, and statements do the same on their own, without variables, as in the body of a function
without parameters.
-/
namespace Abacus

namespace Store

theorem get?_set_self (s : Store) (name : String) (x : Decimal) :
    (s.set name x).get? name = some x := by
  unfold Store.set
  split
  · next hframes => simp [get?, active, hframes]
  · simp [get?, active]

theorem get?_set_of_ne (s : Store) {name other : String} (h : other ≠ name) (x : Decimal) :
    (s.set name x).get? other = s.get? other := by
  unfold Store.set
  split
  · next hframes => simp [get?, active, hframes, Table.find?_put_of_ne h]
  · next hframes => simp [get?, active, hframes, Table.find?_put_of_ne h]

/-- The active variables have the same bindings. -/
def SameScope (s s' : Store) : Prop := ∀ name, s.get? name = s'.get? name

theorem SameScope.set {s s' : Store} (h : s.SameScope s') (name : String) (x : Decimal) :
    (s.set name x).SameScope (s'.set name x) := by
  intro other
  by_cases hname : other = name
  · subst hname
    rw [get?_set_self, get?_set_self]
  · rw [get?_set_of_ne s hname, get?_set_of_ne s' hname, h other]

theorem sameScope_push (s s' : Store) (frame : Table Decimal) :
    (s.push frame).SameScope (s'.push frame) := fun _ => rfl

end Store

/-- The rules differ in the limits at most, and leave as many calls. -/
structure Rules.Corresponds (rules : Rules) (depth : Nat) (rules' : Rules) (depth' : Nat) :
    Prop where
  functions : ∀ name, rules.functions.find? name = rules'.functions.find? name
  loopLimit : rules.settings.loopLimit = rules'.settings.loopLimit
  displayPlaces : rules.settings.displayPlaces = rules'.settings.displayPlaces
  budget : rules.settings.callLimit - depth = rules'.settings.callLimit - depth'

theorem Rules.Corresponds.deeper {rules rules' : Rules} {depth depth' : Nat}
    (h : rules.Corresponds depth rules' depth') :
    rules.Corresponds (depth + 1) rules' (depth' + 1) := by
  have hbudget := h.budget
  exact ⟨h.functions, h.loopLimit, h.displayPlaces, by omega⟩

namespace Run

/-! ### Computations that agree -/

/-- The computations give the same result, or fail in the same way, and what they have printed at
the end goes on from the given texts in the same way. -/
structure Tells {α : Type} (m m' : Run α) (s s' : State) (out out' : String) : Prop where
  outcome : outcome (m s) = outcome (m' s')
  text : ∃ text, (final m s).out = out ++ text ∧ (final m' s').out = out' ++ text

/-- The computations give the same result, or fail in the same way, print the same text and leave
the same bindings. -/
structure Agrees {α : Type} (m m' : Run α) (s s' : State) : Prop
    extends Tells m m' s s' s.out s'.out where
  scope : (final m s).store.SameScope (final m' s').store

/-- The computations agree wherever the same bindings are active. -/
def Alike {α : Type} (m m' : Run α) : Prop :=
  ∀ s s' : State, s.store.SameScope s'.store → Agrees m m' s s'

theorem outcome_bind {α β : Type} (m : Run α) (f : α → Run β) (s : State) :
    outcome ((m >>= f) s) = match m s with
      | .ok a s' => outcome (f a s')
      | .error e _ => .error e := by
  rw [bind_run]
  cases m s with
  | ok a s' => rfl
  | error e s' => rfl

section Mapped

variable {α β : Type} (m : Run α) (g : α → β) (s : State)

theorem outcome_mapped : outcome ((do return g (← m)) s) = (outcome (m s)).map g := by
  rw [outcome_bind]
  cases m s with
  | ok a t => rfl
  | error e t => rfl

theorem final_mapped : final (do return g (← m)) s = final m s := by
  rw [final_bind, final]
  cases m s with
  | ok a t => rfl
  | error e t => rfl

end Mapped

/-- Computations that agree end in the same result or in the same failure, each in a state of its
own. -/
theorem Agrees.cases {α : Type} {m m' : Run α} {s s' : State} (h : Agrees m m' s s') :
    (∃ a t t', m s = .ok a t ∧ m' s' = .ok a t') ∨
      ∃ e t t', m s = .error e t ∧ m' s' = .error e t' := by
  have houtcome := h.outcome
  cases hr : m s with
  | ok a t =>
    cases hr' : m' s' with
    | ok a' t' =>
      rw [hr, hr'] at houtcome
      cases houtcome
      exact .inl ⟨a, t, t', rfl, rfl⟩
    | error e' t' =>
      rw [hr, hr'] at houtcome
      cases houtcome
  | error e t =>
    cases hr' : m' s' with
    | ok a' t' =>
      rw [hr, hr'] at houtcome
      cases houtcome
    | error e' t' =>
      rw [hr, hr'] at houtcome
      cases houtcome
      exact .inr ⟨e, t, t', rfl, rfl⟩

section Steps

variable {α β : Type}

/-- Computations that print nothing. -/
theorem Agrees.silent {m m' : Run α} {s s' : State}
    (houtcome : Run.outcome (m s) = Run.outcome (m' s'))
    (hout : (final m s).out = s.out) (hout' : (final m' s').out = s'.out)
    (hscope : (final m s).store.SameScope (final m' s').store) : Agrees m m' s s' := by
  refine ⟨⟨houtcome, "", ?_, ?_⟩, hscope⟩
  · rw [hout, String.append_empty]
  · rw [hout', String.append_empty]

/-- Only what the computations do in the two states matters. -/
theorem Agrees.congr {m m' k k' : Run α} {s s' : State} (h : Agrees k k' s s') (hm : m s = k s)
    (hm' : m' s' = k' s') : Agrees m m' s s' := by
  refine ⟨⟨?_, ?_⟩, ?_⟩
  · rw [hm, hm']
    exact h.outcome
  · rw [final, final, hm, hm']
    exact h.text
  · rw [final, final, hm, hm']
    exact h.scope

theorem alike_pure (a : α) : Alike (pure a) (pure a) := fun _ _ h => .silent rfl rfl rfl h

theorem alike_throw (e : Failure) : Alike (throw e : Run α) (throw e) :=
  fun _ _ h => .silent rfl rfl rfl h

theorem alike_fail (context : String) (p : Int) (kind : ErrorKind) :
    Alike (fail context p kind : Run α) (fail context p kind) := alike_throw _

/-- A script cannot see which events are recorded. -/
theorem alike_record (e e' : Event) : Alike (record e) (record e') :=
  fun _ _ h => .silent rfl rfl rfl h

theorem alike_print (text : String) : Alike (print text) (print text) :=
  fun _ _ h => ⟨⟨rfl, text, rfl, rfl⟩, h⟩

theorem Alike.bind {m m' : Run α} {f f' : α → Run β} (hm : Alike m m')
    (hf : ∀ a, Alike (f a) (f' a)) : Alike (m >>= f) (m' >>= f') := by
  intro s s' h
  have hfirst := hm s s' h
  obtain ⟨text, ht, ht'⟩ := hfirst.text
  have hscope := hfirst.scope
  rcases hfirst.cases with ⟨a, t, t', hr, hr'⟩ | ⟨e, t, t', hr, hr'⟩
  · rw [final_of_ok hr] at ht hscope
    rw [final_of_ok hr'] at ht' hscope
    have hrest := hf a t t' hscope
    obtain ⟨more, hu, hu'⟩ := hrest.text
    refine ⟨⟨?_, text ++ more, ?_, ?_⟩, ?_⟩
    · rw [outcome_bind, outcome_bind, hr, hr']
      exact hrest.outcome
    · rw [final_bind, hr]
      simp only
      rw [hu, ht, String.append_assoc]
    · rw [final_bind, hr']
      simp only
      rw [hu', ht', String.append_assoc]
    · rw [final_bind, final_bind, hr, hr']
      exact hrest.scope
  · rw [final, hr] at ht hscope
    rw [final, hr'] at ht' hscope
    refine ⟨⟨?_, text, ?_, ?_⟩, ?_⟩
    · rw [outcome_bind, outcome_bind, hr, hr']
    · rw [final_bind, hr]
      exact ht
    · rw [final_bind, hr']
      exact ht'
    · rw [final_bind, final_bind, hr, hr']
      exact hscope

end Steps

theorem resolve_of_some {s : State} {name : String} {x : Decimal} (h : s.store.get? name = some x)
    (context : String) (p : Int) : resolve context (.reference name p) s = .ok x s := by
  have hget : (get : Run State) s = .ok s s := rfl
  rw [resolve, bind_run, hget]
  simp only [andThen, h]
  rfl

theorem resolve_of_none {s : State} {name : String} (h : s.store.get? name = none)
    (context : String) (p : Int) :
    resolve context (.reference name p) s = fail context p .unknownName s := by
  have hget : (get : Run State) s = .ok s s := rfl
  rw [resolve, bind_run, hget]
  simp only [andThen, h]

theorem resolve_alike (context : String) (a : Operand) :
    Alike (resolve context a) (resolve context a) := by
  cases a with
  | value x => exact alike_pure x
  | reference name p =>
    intro s s' h
    have hsame := h name
    cases hx : s.store.get? name with
    | some x =>
      have hx' : s'.store.get? name = some x := hsame.symm.trans hx
      exact (alike_pure x s s' h).congr (resolve_of_some hx context p)
        (resolve_of_some hx' context p)
    | none =>
      have hx' : s'.store.get? name = none := hsame.symm.trans hx
      exact (alike_fail context p .unknownName s s' h).congr (resolve_of_none hx context p)
        (resolve_of_none hx' context p)

theorem pop_alike (stack : List Operand) : Alike (pop stack) (pop stack) := by
  cases stack with
  | nil => exact alike_throw _
  | cons a stack => exact alike_pure _

theorem arithmetic_alike (context : String) (p : Int) (r : Numeric.Checked) :
    Alike (arithmetic context p r) (arithmetic context p r) := by
  cases r with
  | ok x => exact alike_pure x
  | error kind => exact alike_fail context p kind

theorem set_alike (name : String) (x : Decimal) :
    Alike (modify fun s => { s with store := s.store.set name x } : Run PUnit)
      (modify fun s => { s with store := s.store.set name x }) :=
  fun _ _ h => .silent rfl rfl rfl (h.set name x)

theorem assign_alike (context : String) (p : Int) (x : Decimal) (a : Operand) :
    Alike (assign context p x a) (assign context p x a) := by
  cases a with
  | value _ => exact alike_fail context p _
  | reference name q => exact (set_alike name x).bind fun _ => alike_pure _

theorem apply_alike (context : String) (p : Int) (op : Operator) (stack : List Operand) :
    Alike (apply context p op stack) (apply context p op stack) := by
  unfold apply
  split
  · refine (pop_alike stack).bind fun (right, stack) => ?_
    refine (resolve_alike context right).bind fun x => ?_
    refine (pop_alike stack).bind fun (left, stack) => ?_
    exact (assign_alike context p x left).bind fun target => alike_pure _
  · refine (pop_alike stack).bind fun (operand, stack) => ?_
    refine (resolve_alike context operand).bind fun x => ?_
    exact (arithmetic_alike context p _).bind fun result => alike_pure _
  · refine (pop_alike stack).bind fun (right, stack) => ?_
    refine (resolve_alike context right).bind fun y => ?_
    refine (pop_alike stack).bind fun (left, stack) => ?_
    refine (resolve_alike context left).bind fun x => ?_
    exact (arithmetic_alike context p _).bind fun result => alike_pure _

theorem conclude_alike (context : String) (stack : List Operand) :
    Alike (conclude context stack) (conclude context stack) := by
  unfold conclude
  split
  · exact resolve_alike context _
  · exact alike_throw _

theorem display_alike {settings settings' : Settings}
    (h : settings.displayPlaces = settings'.displayPlaces) (x : Decimal) :
    Alike (display settings x) (display settings' x) := by
  unfold display
  rw [h]
  split
  · exact alike_pure _
  · exact alike_throw _

/-! ### Calls -/

/-- What a call comes to, told by its body. -/
structure Leaves (m : Run (Option Decimal)) (s : State) (body : Run Ending) (t : State) : Prop where
  outcome : outcome (m s) = (outcome (body t)).map Ending.value?
  out : (final m s).out = (final body t).out
  store : (final m s).store = (final body t).store.pop

theorem leaves_of_eq {m : Run (Option Decimal)} {body : Run Ending} {s t : State}
    (h : m s = leave (body t)) : Leaves m s body t := by
  refine ⟨?_, ?_, ?_⟩
  · rw [h]
    cases body t with
    | ok ending u => rfl
    | error e u => rfl
  all_goals
    rw [final, final, h]
    cases body t with
    | ok ending u => rfl
    | error e u => rfl

/-- The caller's variables are after a call what they were before. -/
theorem enter_store (rules : Rules) (depth : Nat) (text : String) (f : Function)
    (xs : List Decimal) (s : State) : (final (enter rules depth text f xs) s).store = s.store := by
  by_cases hdepth : depth < rules.settings.callLimit
  · rw [(leaves_of_eq (enter_of_lt hdepth text f xs s)).store]
    have hbody := (compositional_keepsStore rules).statements (depth + 1) none f.body
      (Activity.entered depth text (Table.ofEntries (f.parameters.zip xs)) s)
    exact hbody.pop_push
  · rw [final, enter_of_le (Nat.not_lt.mp hdepth)]

section Tasks

variable {rules rules' : Rules}

/-- What a function does is decided by the values it is called with, if that is so of its body. -/
theorem enter_tells {depth depth' : Nat} (h : rules.Corresponds depth rules' depth') {f : Function}
    (hbody : depth < rules.settings.callLimit → Alike (statements rules (depth + 1) none f.body)
      (statements rules' (depth' + 1) none f.body))
    (text text' : String) (xs : List Decimal) (s s' : State) :
    Tells (enter rules depth text f xs) (enter rules' depth' text' f xs) s s' s.out s'.out := by
  have hbudget := h.budget
  by_cases hdepth : depth < rules.settings.callLimit
  · have hdepth' : depth' < rules'.settings.callLimit := by omega
    have hleaves := leaves_of_eq (enter_of_lt hdepth text f xs s)
    have hleaves' := leaves_of_eq (enter_of_lt hdepth' text' f xs s')
    -- the frame is all that a body can see, and it is the same in both calls
    let frame := Table.ofEntries (f.parameters.zip xs)
    have hagrees := hbody hdepth (Activity.entered depth text frame s)
      (Activity.entered depth' text' frame s') (Store.sameScope_push s.store s'.store frame)
    obtain ⟨printed, ht, ht'⟩ := hagrees.text
    refine ⟨?_, printed, ?_, ?_⟩
    · rw [hleaves.outcome, hleaves'.outcome, hagrees.outcome]
    · rw [hleaves.out, ht]
      rfl
    · rw [hleaves'.out, ht']
      rfl
  · have hdepth' : rules'.settings.callLimit ≤ depth' := by omega
    have hlimit := enter_of_le (Nat.not_lt.mp hdepth) text f xs s
    have hlimit' := enter_of_le hdepth' text' f xs s'
    refine ⟨?_, "", ?_, ?_⟩
    · rw [hlimit, hlimit']
      rfl
    · rw [final, hlimit, String.append_empty]
    · rw [final, hlimit', String.append_empty]

theorem enter_alike {depth depth' : Nat} (h : rules.Corresponds depth rules' depth') {f : Function}
    (hbody : depth < rules.settings.callLimit → Alike (statements rules (depth + 1) none f.body)
      (statements rules' (depth' + 1) none f.body)) (text : String) (xs : List Decimal) :
    Alike (enter rules depth text f xs) (enter rules' depth' text f xs) := by
  intro s s' hscope
  refine ⟨enter_tells h hbody text text xs s s', ?_⟩
  rw [enter_store, enter_store]
  exact hscope

/-! ### All that the interpreter does -/

mutual

theorem terms_alike {depth depth' : Nat} (h : rules.Corresponds depth rules' depth')
    (context : String) (ts : List Term) (stack : List Operand) :
    Alike (terms rules depth context ts stack) (terms rules' depth' context ts stack) := by
  match ts with
  | [] =>
    rw [terms, terms]
    exact alike_pure _
  | .number p x :: rest =>
    rw [terms, terms]
    exact terms_alike h context rest _
  | .name p n :: rest =>
    rw [terms, terms]
    exact terms_alike h context rest _
  | .call p n text arguments :: rest =>
    rw [terms, terms]
    refine (call_alike h context p n text arguments).bind fun result => ?_
    cases result with
    | some x => exact terms_alike h context rest _
    | none => exact alike_fail context p _
  | .operator p op :: rest =>
    rw [terms, terms]
    exact (apply_alike context p op stack).bind fun stack => terms_alike h context rest stack
  | .parenthesis p side :: rest =>
    rw [terms, terms]
    exact alike_throw _
termination_by (rules.settings.callLimit - depth, sizeOf ts, 0)

theorem evaluate_alike {depth depth' : Nat} (h : rules.Corresponds depth rules' depth')
    (e : Expression) :
    Alike (evaluate rules depth e) (evaluate rules' depth' e) := by
  match e with
  | ⟨context, ts⟩ =>
    rw [evaluate, evaluate]
    exact (terms_alike h context ts []).bind fun stack => conclude_alike context stack
termination_by (rules.settings.callLimit - depth, sizeOf e, 0)

theorem evaluateStatement_alike {depth depth' : Nat} (h : rules.Corresponds depth rules' depth')
    (e : Expression) :
    Alike (evaluateStatement rules depth e) (evaluateStatement rules' depth' e) := by
  rw [evaluateStatement.eq_def, evaluateStatement.eq_def]
  split
  · exact call_alike h _ _ _ _ _
  · exact (evaluate_alike h e).bind fun x => alike_pure _
termination_by (rules.settings.callLimit - depth, sizeOf e, 1)

theorem evaluateAll_alike {depth depth' : Nat} (h : rules.Corresponds depth rules' depth')
    (es : List Expression) :
    Alike (evaluateAll rules depth es) (evaluateAll rules' depth' es) := by
  match es with
  | [] =>
    rw [evaluateAll, evaluateAll]
    exact alike_pure _
  | e :: rest =>
    rw [evaluateAll, evaluateAll]
    refine (evaluate_alike h e).bind fun x => ?_
    exact (evaluateAll_alike h rest).bind fun xs => alike_pure _
termination_by (rules.settings.callLimit - depth, sizeOf es, 0)

theorem call_alike {depth depth' : Nat} (h : rules.Corresponds depth rules' depth')
    (context : String) (p : Int) (n text : String) (es : List Expression) :
    Alike (call rules depth context p n text es) (call rules' depth' context p n text es) := by
  have hsame := h.functions n
  cases hf : rules.functions.find? n with
  | none =>
    rw [call_of_unknown hf, call_of_unknown (hsame.symm.trans hf)]
    exact alike_fail context p _
  | some f =>
    have hf' : rules'.functions.find? n = some f := hsame.symm.trans hf
    by_cases harity : f.arity = es.length
    · rw [call_of_known hf harity, call_of_known hf' harity]
      refine (evaluateAll_alike h es).bind fun xs => enter_alike h (fun hdepth => ?_) text xs
      exact statements_alike h.deeper none f.body
    · rw [call_of_wrongCount hf harity, call_of_wrongCount hf' harity]
      exact alike_fail context p _
termination_by (rules.settings.callLimit - depth, sizeOf es, 1)

theorem statement_alike {depth depth' : Nat} (h : rules.Corresponds depth rules' depth')
    (t : Statement) :
    Alike (statement rules depth t) (statement rules' depth' t) := by
  match t with
  | .expression e =>
    rw [statement, statement]
    exact (evaluateStatement_alike h e).bind fun x => alike_pure _
  | .branch e body otherwise =>
    rw [statement_branch, statement_branch]
    refine (evaluate_alike h e).bind fun x => ?_
    split
    · exact block_alike h body
    · match otherwise with
      | none => exact alike_pure _
      | some other => exact block_alike h other
  | .loop text e body =>
    rw [statement, statement, ← h.loopLimit]
    exact loop_alike h text e body _ none
  | .returning e =>
    rw [statement, statement]
    exact (evaluate_alike h e).bind fun x => alike_pure _
  | .printing e =>
    rw [statement, statement]
    refine (evaluate_alike h e).bind fun x => ?_
    refine (display_alike h.displayPlaces x).bind fun text => ?_
    exact (alike_print _).bind fun _ => alike_pure _
  | .breaking =>
    rw [statement, statement]
    exact alike_pure _
termination_by (rules.settings.callLimit - depth, sizeOf t, 0)

theorem statements_alike {depth depth' : Nat} (h : rules.Corresponds depth rules' depth')
    (last : Option Decimal) (ss : List Statement) :
    Alike (statements rules depth last ss) (statements rules' depth' last ss) := by
  match ss with
  | [] =>
    rw [statements, statements]
    exact alike_pure _
  | t :: rest =>
    rw [statements, statements]
    refine (statement_alike h t).bind fun signal => ?_
    cases signal with
    | value x => exact statements_alike h (some x) rest
    | nothing => exact statements_alike h last rest
    | returned x => exact alike_pure _
    | broke => exact alike_pure _
termination_by (rules.settings.callLimit - depth, sizeOf ss, 0)

theorem block_alike {depth depth' : Nat} (h : rules.Corresponds depth rules' depth')
    (body : List Statement) :
    Alike (block rules depth body) (block rules' depth' body) := by
  rw [block_eq, block_eq]
  exact (statements_alike h none body).bind fun ending => alike_pure _
termination_by (rules.settings.callLimit - depth, sizeOf body, 1)

theorem loop_alike {depth depth' : Nat} (h : rules.Corresponds depth rules' depth')
    (text : String) (e : Expression) (body : List Statement) (remaining : Nat)
    (last : Option Decimal) :
    Alike (loop rules depth text e body remaining last)
      (loop rules' depth' text e body remaining last) := by
  have := sizeOf_statements_pos body
  have := sizeOf_expression_pos e
  rw [loop_eq, loop_eq]
  refine (evaluate_alike h e).bind fun x => ?_
  split
  · match remaining with
    | 0 => exact (alike_record _ _).bind fun _ => alike_throw _
    | remaining + 1 =>
      refine (statements_alike h last body).bind fun ending => ?_
      cases ending with
      | finished last' => exact loop_alike h text e body remaining last'
      | returned y => exact alike_pure _
      | broke last' => exact alike_pure _
  · exact alike_pure _
termination_by (rules.settings.callLimit - depth, sizeOf e + sizeOf body, remaining)

end

theorem Task.alike {depth depth' : Nat} (h : rules.Corresponds depth rules' depth') (t : Task) :
    Alike (t.run rules depth) (t.run rules' depth') := by
  cases t with
  | terms context ts stack => exact terms_alike h context ts stack
  | evaluate e => exact evaluate_alike h e
  | evaluateStatement e => exact evaluateStatement_alike h e
  | evaluateAll es => exact evaluateAll_alike h es
  | call context p n text arguments => exact call_alike h context p n text arguments
  | statement s => exact statement_alike h s
  | statements last ss => exact statements_alike h last ss
  | block body => exact block_alike h body
  | loop text condition body remaining last => exact loop_alike h text condition body remaining last

end Tasks

/-! ### Functions and their callers -/

section Calls

variable {rules rules' : Rules} {d d' : Nat} {n : String} {f : Function}

theorem call_of_values {es : List Expression} {s t : State} {xs : List Decimal}
    (hf : rules.functions.find? n = some f) (harity : f.arity = es.length)
    (h : evaluateAll rules d es s = .ok xs t) (c : String) (p : Int) (text : String) :
    call rules d c p n text es s = enter rules d text f xs t := by
  rw [call_of_known hf harity, bind_run, h]
  rfl

/-- Two calls with the same values, wherever they come from. -/
theorem call_tells {es es' : List Expression} {s s' t t' : State} {xs : List Decimal}
    (h : rules.Corresponds d rules' d') (hf : rules.functions.find? n = some f)
    (harity : f.arity = es.length) (harity' : f.arity = es'.length)
    (hes : evaluateAll rules d es s = .ok xs t) (hes' : evaluateAll rules' d' es' s' = .ok xs t')
    (c c' : String) (p p' : Int) (text text' : String) :
    Tells (call rules d c p n text es) (call rules' d' c' p' n text' es') s s' t.out t'.out := by
  have hf' : rules'.functions.find? n = some f := (h.functions n).symm.trans hf
  have hcall := call_of_values hf harity hes c p text
  have hcall' := call_of_values hf' harity' hes' c' p' text'
  have htells := enter_tells h (fun _ => statements_alike h.deeper none f.body) text text' xs t t'
  refine ⟨?_, ?_⟩
  · rw [hcall, hcall']
    exact htells.outcome
  · rw [final, final, hcall, hcall']
    exact htells.text

/-- Statements on their own, without variables, and as the body of a function. -/
theorem body_tells (h : rules.Corresponds d rules' (d' + 1))
    (hlimit : d' < rules'.settings.callLimit) (hf : rules'.functions.find? n = some f)
    (hparameters : f.parameters = []) (c : String) (p : Int) (text : String) (s s' : State)
    (hs : ∀ name, s.store.get? name = none) :
    Tells (do return (← statements rules d none f.body).value?) (call rules' d' c p n text [])
      s s' s.out s'.out := by
  have harity : f.arity = ([] : List Expression).length := by
    rw [Function.arity, hparameters]
    rfl
  have hnone : evaluateAll rules' d' [] s' = .ok [] s' := by
    rw [evaluateAll]
    rfl
  have hcall := call_of_values hf harity hnone c p text
  rw [enter_of_lt hlimit, hparameters] at hcall
  have hleaves := leaves_of_eq hcall
  have hscope : s.store.SameScope (Activity.entered d' text [] s').store := hs
  have hagrees := statements_alike h none f.body s _ hscope
  obtain ⟨printed, ht, ht'⟩ := hagrees.text
  refine ⟨?_, printed, ?_, ?_⟩
  · rw [outcome_mapped, hagrees.outcome]
    exact hleaves.outcome.symm
  · rw [final_mapped, ht]
  · rw [hleaves.out]
    exact ht'

end Calls

/-- Execution depends on the active variables only. Whatever is carried out among the same bindings,
with as many calls left, has the same outcome, prints the same text and leaves the same bindings. A
call with the same values has the same outcome and prints the same, whatever the callers' variables
and the globals are. And statements on their own, where no variable is bound, do what they do as the
body of a function without parameters. -/
theorem execution_depends_on_active_variables_only :
    (∀ (rules rules' : Rules) (d d' : Nat), rules.Corresponds d rules' d' →
      ∀ (t : Task) (s s' : State), s.store.SameScope s'.store →
        Agrees (t.run rules d) (t.run rules' d') s s') ∧
    (∀ (rules rules' : Rules) (d d' : Nat), rules.Corresponds d rules' d' →
      ∀ (n : String) (f : Function), rules.functions.find? n = some f →
      ∀ (es es' : List Expression), f.arity = es.length → f.arity = es'.length →
      ∀ (s s' t t' : State) (xs : List Decimal), evaluateAll rules d es s = .ok xs t →
        evaluateAll rules' d' es' s' = .ok xs t' →
        ∀ (c c' : String) (p p' : Int) (text text' : String),
          Tells (call rules d c p n text es) (call rules' d' c' p' n text' es') s s'
            t.out t'.out) ∧
    ∀ (rules rules' : Rules) (d d' : Nat), rules.Corresponds d rules' (d' + 1) →
      d' < rules'.settings.callLimit →
      ∀ (n : String) (f : Function), rules'.functions.find? n = some f → f.parameters = [] →
      ∀ (c : String) (p : Int) (text : String) (s s' : State),
        (∀ name, s.store.get? name = none) →
        Tells (do return (← statements rules d none f.body).value?)
          (call rules' d' c p n text []) s s' s.out s'.out :=
  ⟨fun _ _ _ _ h t => t.alike h,
    fun _ _ _ _ h _ _ hf _ _ harity harity' _ _ _ _ _ hes hes' =>
      call_tells h hf harity harity' hes hes',
    fun _ _ _ _ h hlimit _ _ hf hparameters => body_tells h hlimit hf hparameters⟩

/-- A call among the same variables as globals and in a frame, calls with the value of a variable
and with a number, and a call on its own and in a function. -/
theorem execution_depends_on_active_variables_only_across_frames :
    let one : Expression := ⟨"1", [.number 0 .one]⟩
    let x : Expression := ⟨"x", [.name 0 "x"]⟩
    let call (e : Expression) : Expression := ⟨"f(x)", [.call 0 "f" "f(x)" [e]]⟩
    let f : Function := ⟨"f", "fn f(x) x", ["x"], [.printing x]⟩
    let g : Function := ⟨"g", "fn g() f(1)", [], [.expression (call one)]⟩
    let rules : Rules := ⟨{ callLimit := 3 }, [("f", f), ("g", g)]⟩
    let rules' : Rules := ⟨{ callLimit := 2 }, [("f", f), ("g", g)]⟩
    let s : State := { store := ⟨[("x", .zero)], [[("x", .one)]]⟩ }
    let s' : State := { store := ⟨[("x", .one)], []⟩ }
    let bare : State := { store := {} }
    rules.Corresponds 1 rules' 0 ∧
    (s.store.SameScope s'.store ∧
      Agrees ((Task.statement (.expression (call x))).run rules 1)
        ((Task.statement (.expression (call x))).run rules' 0) s s') ∧
    (evaluateAll rules 1 [x] s = .ok [.one] s ∧ evaluateAll rules' 0 [one] bare = .ok [.one] bare ∧
      Tells (Run.call rules 1 "f(x)" 0 "f" "f(x)" [x]) (Run.call rules' 0 "f(1)" 0 "f" "f(1)" [one])
        s bare s.out bare.out) ∧
    rules'.Corresponds 0 rules (0 + 1) ∧
      Tells (do return (← statements rules' 0 none g.body).value?)
        (Run.call rules 0 "g()" 0 "g" "g()" []) bare s' bare.out s'.out := by
  intro one x call f g rules rules' s s' bare
  have h : rules.Corresponds 1 rules' 0 := ⟨fun _ => rfl, rfl, rfl, rfl⟩
  have h' : rules'.Corresponds 0 rules (0 + 1) := ⟨fun _ => rfl, rfl, rfl, rfl⟩
  have hscope : s.store.SameScope s'.store := fun _ => rfl
  have hx : evaluateAll rules 1 [x] s = .ok [.one] s :=
    (Derives.values (.evaluate (.name .noTerms)) .noValues).run_eq
  have hone : evaluateAll rules' 0 [one] bare = .ok [.one] bare :=
    (Derives.values (.evaluate (.number .noTerms)) .noValues).run_eq
  obtain ⟨hsame, hcalls, hbodies⟩ := execution_depends_on_active_variables_only
  exact ⟨h, ⟨hscope, hsame rules rules' 1 0 h _ s s' hscope⟩,
    ⟨hx, hone, hcalls rules rules' 1 0 h "f" f rfl [x] [one] rfl rfl s bare s bare [.one] hx hone
      _ _ _ _ _ _⟩,
    h', hbodies rules' rules 0 0 h' (by decide) "g" g rfl rfl _ _ _ bare s' fun _ => rfl⟩

end Run

end Abacus
