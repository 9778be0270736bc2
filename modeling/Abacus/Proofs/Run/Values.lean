import Abacus.Proofs.Run.Activity
import Abacus.Proofs.Run.Answers
import Mathlib

/-!
Every value of a session fits the calculator's format.

This holds between inputs and at every moment in between: of the variables of all active calls, of
the numbers in the functions, and of the operands on the stack. The arithmetic never leaves the
format, the numbers of a script are rounded into it when they are read, and a step of the
interpreter moves values about or computes new ones from those that fit.
-/
namespace Abacus

open Format (calculator calculator_fits_iff)

/-! ### Numbers in scripts -/

/-- The number `x` stands in a term, be it in the argument of a call. -/
inductive Term.Mentions (x : Decimal) : Term → Prop
  | number (p : Int) : Mentions x (.number p x)
  | argument (p : Int) (n text : String) {es : List Expression} {e : Expression} {t : Term}
      (he : e ∈ es) (ht : t ∈ e.terms) (h : Mentions x t) : Mentions x (.call p n text es)

def Expression.Mentions (x : Decimal) (e : Expression) : Prop := ∃ t ∈ e.terms, t.Mentions x

/-- The number `x` stands somewhere in a statement. -/
inductive Statement.Mentions (x : Decimal) : Statement → Prop
  | expression {e : Expression} (h : e.Mentions x) : Mentions x (.expression e)
  | branchCondition {e : Expression} (body : List Statement) (otherwise : Option (List Statement))
      (h : e.Mentions x) : Mentions x (.branch e body otherwise)
  | branchBody (e : Expression) {body : List Statement} (otherwise : Option (List Statement))
      {s : Statement} (hs : s ∈ body) (h : Mentions x s) : Mentions x (.branch e body otherwise)
  | branchOther (e : Expression) (body : List Statement) {other : List Statement} {s : Statement}
      (hs : s ∈ other) (h : Mentions x s) : Mentions x (.branch e body (some other))
  | loopCondition (text : String) {e : Expression} (body : List Statement) (h : e.Mentions x) :
      Mentions x (.loop text e body)
  | loopBody (text : String) (e : Expression) {body : List Statement} {s : Statement}
      (hs : s ∈ body) (h : Mentions x s) : Mentions x (.loop text e body)
  | returning {e : Expression} (h : e.Mentions x) : Mentions x (.returning e)
  | printing {e : Expression} (h : e.Mentions x) : Mentions x (.printing e)

def Function.Mentions (x : Decimal) (f : Function) : Prop := ∃ s ∈ f.body, s.Mentions x

theorem Tree.sound_of_mem_expressions {arguments : List (String × Tree)}
    (h : SoundArguments arguments) {e : Expression} (he : e ∈ expressions arguments) :
    Expression.Sound e := by
  induction arguments with
  | nil => simp [expressions] at he
  | cons a rest ih =>
    obtain ⟨context, t⟩ := a
    rw [expressions] at he
    rcases List.mem_cons.mp he with rfl | he
    · exact ⟨t, rfl, h.1⟩
    · exact ih h.2 he

theorem Tree.sound_of_mem_postorder {t : Tree} (h : t.Sound) {x : Term} (hx : x ∈ t.postorder) :
    x.Sound := by
  match t with
  | number p y =>
    obtain rfl := List.mem_singleton.mp hx
    exact h
  | name p n =>
    obtain rfl := List.mem_singleton.mp hx
    trivial
  | call p n text arguments =>
    rw [postorder] at hx
    obtain rfl := List.mem_singleton.mp hx
    exact ⟨arguments, rfl, h⟩
  | unary p op hop u =>
    rw [postorder] at hx
    rcases List.mem_append.mp hx with hx | hx
    · exact sound_of_mem_postorder (t := u) h hx
    · obtain rfl := List.mem_singleton.mp hx
      trivial
  | binary p op hop l r =>
    rw [postorder] at hx
    rcases List.mem_append.mp hx with hx | hx
    · rcases List.mem_append.mp hx with hx | hx
      · exact sound_of_mem_postorder (t := l) h.1 hx
      · exact sound_of_mem_postorder (t := r) h.2 hx
    · obtain rfl := List.mem_singleton.mp hx
      trivial
  | assignment p l r =>
    rw [postorder] at hx
    rcases List.mem_append.mp hx with hx | hx
    · rcases List.mem_append.mp hx with hx | hx
      · exact sound_of_mem_postorder (t := l) h.1 hx
      · exact sound_of_mem_postorder (t := r) h.2 hx
    · obtain rfl := List.mem_singleton.mp hx
      trivial

theorem Expression.Sound.terms {e : Expression} (h : Expression.Sound e) :
    ∀ t ∈ e.terms, t.Sound := by
  obtain ⟨tree, hterms, htree⟩ := h
  intro t ht
  rw [hterms] at ht
  exact tree.sound_of_mem_postorder htree ht

/-- The arguments of a sound call are sound expressions. -/
theorem Term.Sound.arguments {p : Int} {n text : String} {es : List Expression}
    (h : (Term.call p n text es).Sound) : ∀ e ∈ es, Expression.Sound e := by
  obtain ⟨arguments, rfl, harguments⟩ := h
  exact fun e he => Tree.sound_of_mem_expressions harguments he

theorem Term.Sound.fits {x : Decimal} {t : Term} (h : t.Sound) (hx : t.Mentions x) :
    calculator.Fits x := by
  induction hx with
  | number p => exact h
  | argument p n text he ht _ ih => exact ih ((h.arguments _ he).terms _ ht)

theorem Expression.Sound.fits {x : Decimal} {e : Expression} (h : Expression.Sound e)
    (hx : e.Mentions x) : calculator.Fits x := by
  obtain ⟨t, ht, hx⟩ := hx
  exact (h.terms t ht).fits hx

theorem Statement.Sound.fits {x : Decimal} {s : Statement} (h : s.Sound) (hx : s.Mentions x) :
    calculator.Fits x := by
  induction hx with
  | expression hx =>
    cases h with
    | expression he => exact he.fits hx
  | branchCondition body otherwise hx =>
    cases h with
    | branch hcondition hbody hother => exact hcondition.fits hx
  | branchBody e otherwise hs _ ih =>
    cases h with
    | branch hcondition hbody hother => exact ih (hbody _ hs)
  | branchOther e body hs _ ih =>
    cases h with
    | branch hcondition hbody hother => exact ih (hother _ rfl _ hs)
  | loopCondition text body hx =>
    cases h with
    | loop _ hcondition hbody => exact hcondition.fits hx
  | loopBody text e hs _ ih =>
    cases h with
    | loop _ hcondition hbody => exact ih (hbody _ hs)
  | returning hx =>
    cases h with
    | returning he => exact he.fits hx
  | printing hx =>
    cases h with
    | printing he => exact he.fits hx

/-- Every number in a function fits the calculator's format. -/
def Function.InRange (f : Function) : Prop := ∀ x, f.Mentions x → calculator.Fits x

theorem Function.Sound.inRange {f : Function} (h : f.Sound) : f.InRange := by
  rintro x ⟨s, hs, hx⟩
  exact (h s hs).fits hx

/-! ### Arithmetic -/

namespace Numeric

/-- Reading a number and computing with numbers that fit give a number that fits, or an error. -/
structure StaysInRange : Prop where
  literal (whole fraction : List Char) : InRange (literal whole fraction)
  ofText (text : String) : InRange (ofText text)
  constants (b : Bool) : calculator.Fits pi ∧ calculator.Fits (.ofBool b)
  unary {op : Operator} {compute : Decimal → Checked} (h : op.meaning = .unary compute)
    {x : Decimal} (hx : calculator.Fits x) : InRange (compute x)
  binary {op : Operator} {compute : Decimal → Decimal → Checked} (h : op.meaning = .binary compute)
    {x y : Decimal} (hx : calculator.Fits x) (hy : calculator.Fits y) : InRange (compute x y)
  angles {x : Decimal} (hx : calculator.Fits x) : InRange (toRadians x) ∧ InRange (toDegrees x)

theorem staysInRange : StaysInRange where
  literal := literal_inRange
  ofText text := inRange_check _ fun x h => by
    obtain ⟨y, -, hy⟩ := Option.bind_eq_some_iff.mp h
    exact Format.round_fits Format.calculator_proper hy
  constants b := ⟨fits_pi, fits_ofBool b⟩
  unary h _ hx := Operator.unary_inRange h hx
  binary h x y _ _ := Operator.binary_inRange h x y
  angles {x} _ := ⟨multiply_inRange x _, multiply_inRange x _⟩

end Numeric

namespace Run

/-! ### Computations that keep the variables in range -/

/-- From variables that fit, `m` ends with variables that fit, and if it does not fail, in a result
with the property. -/
def Ranged {α : Type} (m : Run α) (holds : α → Prop) : Prop :=
  ∀ s : State, s.store.InRange →
    (final m s).store.InRange ∧ ∀ a s', m s = .ok a s' → holds a

section Steps

variable {α β : Type} {holds : α → Prop} {holds' : β → Prop}

theorem Safe.ranged {m : Run α} (h : Safe m holds) : Ranged m holds := by
  intro s hs
  have hm := h s hs
  rw [final]
  cases hr : m s with
  | ok a s' =>
    rw [hr] at hm
    refine ⟨hm.1, ?_⟩
    rintro b s'' ⟨⟩
    exact hm.2
  | error e s' =>
    rw [hr] at hm
    exact ⟨hm.1, by rintro b s'' ⟨⟩⟩

theorem Ranged.of_ok {m : Run α} (h : Ranged m holds) {s s' : State} (hs : s.store.InRange)
    {a : α} (hr : m s = .ok a s') : s'.store.InRange ∧ holds a := by
  obtain ⟨hfinal, hresult⟩ := h s hs
  rw [final_of_ok hr] at hfinal
  exact ⟨hfinal, hresult a s' hr⟩

theorem ranged_pure {a : α} (h : holds a) : Ranged (pure a) holds := (safe_pure h).ranged

theorem ranged_throw (e : Failure) : Ranged (throw e : Run α) holds :=
  fun _ hs => ⟨hs, by rintro a s' ⟨⟩⟩

theorem Ranged.bind {m : Run α} {f : α → Run β} (hm : Ranged m holds)
    (hf : ∀ a, holds a → Ranged (f a) holds') : Ranged (m >>= f) holds' := by
  intro s hs
  rw [final_bind]
  simp only [Bind.bind, EStateM.bind]
  cases hr : m s with
  | ok a s' =>
    obtain ⟨hs', ha⟩ := hm.of_ok hs hr
    exact hf a ha s' hs'
  | error e s' =>
    have hfinal := (hm s hs).1
    rw [final, hr] at hfinal
    exact ⟨hfinal, by rintro b s'' ⟨⟩⟩

end Steps

theorem pop_ranged {stack : List Operand} (h : ∀ a ∈ stack, a.InRange) :
    Ranged (pop stack) fun top => top.1.InRange ∧ ∀ a ∈ top.2, a.InRange := by
  cases stack with
  | nil => exact ranged_throw _
  | cons a stack => exact ranged_pure (List.forall_mem_cons.mp h)

theorem assign_ranged (context : String) (p : Int) {x : Decimal} (hx : calculator.Fits x)
    (a : Operand) : Ranged (assign context p x a) Operand.InRange := by
  cases a with
  | value _ => exact ranged_throw _
  | reference name q => exact (set_safe name hx).ranged.bind fun _ _ => ranged_pure trivial

/-- An operator leaves operands that fit, whether or not there were enough of them. -/
theorem apply_ranged (context : String) (p : Int) (op : Operator) {stack : List Operand}
    (h : ∀ a ∈ stack, a.InRange) :
    Ranged (apply context p op stack) fun stack => ∀ a ∈ stack, a.InRange := by
  unfold apply
  split
  · refine (pop_ranged h).bind fun ⟨right, stack⟩ ⟨hright, hstack⟩ => ?_
    refine (resolve_safe context hright).ranged.bind fun x hx => ?_
    refine (pop_ranged hstack).bind fun ⟨left, stack⟩ ⟨_, hstack⟩ => ?_
    refine (assign_ranged context p hx left).bind fun target htarget => ?_
    exact ranged_pure (List.forall_mem_cons.mpr ⟨htarget, hstack⟩)
  · next compute hop =>
    refine (pop_ranged h).bind fun ⟨operand, stack⟩ ⟨hoperand, hstack⟩ => ?_
    refine (resolve_safe context hoperand).ranged.bind fun x hx => ?_
    have hrange := Operator.unary_inRange hop hx
    refine (arithmetic_safe context p hrange).ranged.bind fun y hy => ?_
    exact ranged_pure (List.forall_mem_cons.mpr ⟨hy, hstack⟩)
  · next compute hop =>
    refine (pop_ranged h).bind fun ⟨right, stack⟩ ⟨hright, hstack⟩ => ?_
    refine (resolve_safe context hright).ranged.bind fun y _ => ?_
    refine (pop_ranged hstack).bind fun ⟨left, stack⟩ ⟨hleft, hstack⟩ => ?_
    refine (resolve_safe context hleft).ranged.bind fun x _ => ?_
    have hrange := Operator.binary_inRange hop x y
    refine (arithmetic_safe context p hrange).ranged.bind fun z hz => ?_
    exact ranged_pure (List.forall_mem_cons.mpr ⟨hz, hstack⟩)

section Tasks

variable {rules : Rules} (hrules : rules.functions.All Function.Sound) (depth : Nat)
include hrules

theorem evaluateAll_safe {es : List Expression} (hes : ∀ e ∈ es, Expression.Sound e) :
    Safe (evaluateAll rules depth es) fun xs => ∀ x ∈ xs, calculator.Fits x := by
  induction es with
  | nil =>
    rw [evaluateAll]
    exact safe_pure (by simp)
  | cons e rest ih =>
    obtain ⟨he, hrest⟩ := List.forall_mem_cons.mp hes
    rw [evaluateAll]
    refine (evaluate_safe (safeCallees hrules depth) he).bind fun x hx => ?_
    refine (ih hrest).bind fun xs hxs => ?_
    exact safe_pure (List.forall_mem_cons.mpr ⟨hx, hxs⟩)

theorem call_safe (context : String) (p : Int) (n text : String) {es : List Expression}
    (hes : ∀ e ∈ es, Expression.Sound e) :
    Safe (call rules depth context p n text es) fun last => ∀ x ∈ last, calculator.Fits x := by
  rw [Tree.call_eq_invoke]
  have harguments := evaluateAll_safe hrules depth hes
  exact invoke_safe (safeCallees hrules depth) context p n text _ harguments

/-- Terms need not be those of a tree to leave operands that fit. -/
theorem terms_ranged (context : String) {ts : List Term} (hts : ∀ t ∈ ts, t.Sound)
    {stack : List Operand} (hstack : ∀ a ∈ stack, a.InRange) :
    Ranged (terms rules depth context ts stack) fun stack => ∀ a ∈ stack, a.InRange := by
  induction ts generalizing stack with
  | nil =>
    rw [terms]
    exact ranged_pure hstack
  | cons t rest ih =>
    obtain ⟨ht, hrest⟩ := List.forall_mem_cons.mp hts
    cases t with
    | number p x =>
      rw [terms]
      exact ih hrest (List.forall_mem_cons.mpr ⟨ht, hstack⟩)
    | name p n =>
      rw [terms]
      exact ih hrest (List.forall_mem_cons.mpr ⟨trivial, hstack⟩)
    | call p n text es =>
      rw [terms]
      refine (call_safe hrules depth context p n text ht.arguments).ranged.bind
        fun result hresult => ?_
      cases result with
      | none => exact ranged_throw _
      | some x => exact ih hrest (List.forall_mem_cons.mpr ⟨hresult x rfl, hstack⟩)
    | operator p op =>
      rw [terms]
      exact (apply_ranged context p op hstack).bind fun stack hstack => ih hrest hstack
    | parenthesis p side =>
      rw [terms]
      exact ranged_throw _

end Tasks

namespace Task

/-- The operands that wait on the stack. -/
def operands : Task → List Operand
  | terms _ _ stack => stack
  | _ => []

/-- A task whose script is sound and whose values fit the calculator's format. -/
def Sound : Task → Prop
  | terms _ ts stack => (∀ t ∈ ts, t.Sound) ∧ ∀ a ∈ stack, a.InRange
  | evaluate e => Expression.Sound e
  | evaluateStatement e => Expression.Sound e
  | evaluateAll es => ∀ e ∈ es, Expression.Sound e
  | call _ _ _ _ es => ∀ e ∈ es, Expression.Sound e
  | statement s => s.Sound
  | statements last ss => (∀ x ∈ last, calculator.Fits x) ∧ ∀ s ∈ ss, s.Sound
  | block body => ∀ s ∈ body, s.Sound
  | loop _ e body _ last =>
    Expression.Sound e ∧ (∀ s ∈ body, s.Sound) ∧ ∀ x ∈ last, calculator.Fits x

theorem Sound.operands {t : Task} (h : t.Sound) : ∀ a ∈ t.operands, a.InRange := by
  cases t with
  | terms context ts stack => exact h.2
  | _ =>
    intro a ha
    cases ha

theorem Sound.final {rules : Rules} (hrules : rules.functions.All Function.Sound) (depth : Nat)
    {t : Task} (h : t.Sound) {s : State} (hs : s.store.InRange) :
    (Run.final (t.run rules depth) s).store.InRange := by
  have hcallees := safeCallees hrules depth
  cases t with
  | terms context ts stack => exact (terms_ranged hrules depth context h.1 h.2 s hs).1
  | evaluate e => exact ((evaluate_safe hcallees h).ranged s hs).1
  | evaluateStatement e => exact ((evaluateStatement_safe hcallees h).ranged s hs).1
  | evaluateAll es => exact ((evaluateAll_safe hrules depth h).ranged s hs).1
  | call context p n text es => exact ((call_safe hrules depth context p n text h).ranged s hs).1
  | statement st => exact ((statement_safe hcallees h).ranged s hs).1
  | statements last ss => exact ((statements_safe hcallees h.1 h.2).ranged s hs).1
  | block body => exact ((block_safe hcallees h).ranged s hs).1
  | loop text e body remaining last =>
    exact ((loop_safe hcallees text h.1 h.2.1 remaining h.2.2).ranged s hs).1

end Task

/-! ### Every moment of a run -/

namespace Activity

/-- An activity of a sound task among variables that fit. -/
structure Sound (a : Activity) : Prop where
  task : a.task.Sound
  store : a.state.store.InRange

theorem Begins.sound {rules : Rules} (hrules : rules.functions.All Function.Sound)
    {a b : Activity} (h : Begins rules a b) (ha : a.Sound) : b.Sound := by
  obtain ⟨htask, hs⟩ := ha
  have hevaluate : ∀ {d : Nat} {e : Expression} {s s' : State} {x : Decimal},
      Expression.Sound e → s.store.InRange → Run.evaluate rules d e s = .ok x s' →
        s'.store.InRange ∧ calculator.Fits x :=
    fun {d} _ _ _ _ he hs h => (evaluate_safe (safeCallees hrules d) he).ranged.of_ok hs h
  have hstatement : ∀ {d : Nat} {t : Statement} {s s' : State} {signal : Signal},
      t.Sound → s.store.InRange → Run.statement rules d t s = .ok signal s' →
        s'.store.InRange ∧ signal.InRange :=
    fun {d} _ _ _ _ ht hs h => (statement_safe (safeCallees hrules d) ht).ranged.of_ok hs h
  cases h with
  | afterNumber d c p x rest stack s =>
    obtain ⟨hx, hrest⟩ := List.forall_mem_cons.mp htask.1
    exact ⟨⟨hrest, List.forall_mem_cons.mpr ⟨hx, htask.2⟩⟩, hs⟩
  | afterName d c p n rest stack s =>
    obtain ⟨-, hrest⟩ := List.forall_mem_cons.mp htask.1
    exact ⟨⟨hrest, List.forall_mem_cons.mpr ⟨trivial, htask.2⟩⟩, hs⟩
  | callee d c p n text es rest stack s =>
    obtain ⟨hcall, -⟩ := List.forall_mem_cons.mp htask.1
    exact ⟨hcall.arguments, hs⟩
  | afterCall d c p n text es rest stack h =>
    obtain ⟨hcall, hrest⟩ := List.forall_mem_cons.mp htask.1
    obtain ⟨hs', hx⟩ := (call_safe hrules d c p n text hcall.arguments).ranged.of_ok hs h
    exact ⟨⟨hrest, List.forall_mem_cons.mpr ⟨hx _ rfl, htask.2⟩⟩, hs'⟩
  | afterOperator d c p op rest h =>
    obtain ⟨-, hrest⟩ := List.forall_mem_cons.mp htask.1
    obtain ⟨hs', hstack⟩ := (apply_ranged c p op htask.2).of_ok hs h
    exact ⟨⟨hrest, hstack⟩, hs'⟩
  | expressionTerms d e s => exact ⟨⟨Expression.Sound.terms htask, by simp⟩, hs⟩
  | singleCall d c p n text es s =>
    have hcall := Expression.Sound.terms htask _ (List.mem_singleton.mpr rfl)
    exact ⟨hcall.arguments, hs⟩
  | statementValue d s h => exact ⟨htask, hs⟩
  | firstValue d e rest s => exact ⟨(List.forall_mem_cons.mp htask).1, hs⟩
  | otherValues d e rest h =>
    obtain ⟨he, hrest⟩ := List.forall_mem_cons.mp htask
    exact ⟨hrest, (hevaluate he hs h).1⟩
  | arguments d c p text s hf harity => exact ⟨htask, hs⟩
  | body c p text hf harity h hlimit =>
    obtain ⟨hs', hxs⟩ := (evaluateAll_safe hrules _ htask).ranged.of_ok hs h
    refine ⟨⟨by simp, hrules.find? hf⟩, hs'.push (.ofEntries fun e he => ?_)⟩
    exact hxs e.2 (List.of_mem_zip he).2
  | expression d e s =>
    cases htask with
    | expression he => exact ⟨he, hs⟩
  | branchCondition d e body otherwise s =>
    cases htask with
    | branch hcondition hbody hother => exact ⟨hcondition, hs⟩
  | branchBody d e body otherwise h hx =>
    cases htask with
    | branch hcondition hbody hother => exact ⟨hbody, (hevaluate hcondition hs h).1⟩
  | branchOther d e body other h hx =>
    cases htask with
    | branch hcondition hbody hother => exact ⟨hother _ rfl, (hevaluate hcondition hs h).1⟩
  | firstRound d text e body s =>
    cases htask with
    | loop _ hcondition hbody => exact ⟨⟨hcondition, hbody, by simp⟩, hs⟩
  | returned d e s =>
    cases htask with
    | returning he => exact ⟨he, hs⟩
  | printed d e s =>
    cases htask with
    | printing he => exact ⟨he, hs⟩
  | firstStatement d last t rest s => exact ⟨(List.forall_mem_cons.mp htask.2).1, hs⟩
  | afterValue d last t rest h =>
    obtain ⟨ht, hrest⟩ := List.forall_mem_cons.mp htask.2
    obtain ⟨hs', hx⟩ := hstatement ht hs h
    exact ⟨⟨fits_some hx, hrest⟩, hs'⟩
  | afterNothing d last t rest h =>
    obtain ⟨ht, hrest⟩ := List.forall_mem_cons.mp htask.2
    exact ⟨⟨htask.1, hrest⟩, (hstatement ht hs h).1⟩
  | blockStatements d body s => exact ⟨⟨by simp, htask⟩, hs⟩
  | loopCondition d text e body remaining last s => exact ⟨htask.1, hs⟩
  | round d text e body remaining last h hx =>
    exact ⟨⟨htask.2.2, htask.2.1⟩, (hevaluate htask.1 hs h).1⟩
  | nextRound d text e body remaining last h hx hbody =>
    obtain ⟨hs', -⟩ := hevaluate htask.1 hs h
    obtain ⟨hs'', hlast⟩ :=
      (statements_safe (safeCallees hrules d) htask.2.2 htask.2.1).ranged.of_ok hs' hbody
    exact ⟨⟨htask.1, htask.2.1, hlast⟩, hs''⟩

theorem Leads.sound {rules : Rules} (hrules : rules.functions.All Function.Sound)
    {a b : Activity} (h : Leads rules a b) (ha : a.Sound) : b.Sound := by
  induction h with
  | refl => exact ha
  | tail _ hbegins ih => exact hbegins.sound hrules ih

end Activity

end Run

/-! ### Sessions -/

namespace Session

open Run

/-- The rules under which a program is executed. -/
def rulesOf (env : Environment) (p : Program) : Rules := (env.defineAll p.functions).1.rules

/-- The activity that executing a program starts with. -/
def start (env : Environment) (p : Program) : Activity :=
  let defined := (env.defineAll p.functions).1
  ⟨defined.depth, .statements none p.statements, { store := defined.store }⟩

/-- Every value of a moment fits the calculator's format. -/
structure InRange (rules : Rules) (a : Activity) : Prop where
  functions : rules.functions.All Function.InRange
  store : a.state.store.InRange
  operands : ∀ x ∈ a.task.operands, x.InRange
  afterwards : (a.final rules).store.InRange

theorem parse_sound {source : String} {p : Program} (h : parse source = .ok p) : p.Sound := by
  rw [parse] at h
  cases hts : tokenize source with
  | error d =>
    rw [hts] at h
    cases h
  | ok ts =>
    rw [hts] at h
    exact parseTokens_sound (tokenize_sound hts) h

theorem moment_inRange {settings : Settings} {env : Environment} (h : Reachable settings env)
    {source : String} {p : Program} (hp : parse source = .ok p) {a : Activity}
    (ha : Activity.Leads (rulesOf env p) (start env p) a) : InRange (rulesOf env p) a := by
  have hsound := parse_sound hp
  have hdefined := h.sound.defineAll hsound.functions
  have hrules : (rulesOf env p).functions.All Function.Sound := hdefined.functions
  have hstart : (start env p).Sound := ⟨⟨by simp, hsound.statements⟩, hdefined.store⟩
  have hmoment : a.Sound := ha.sound hrules hstart
  exact {
    functions := fun e he => (hrules e he).inRange
    store := hmoment.store
    operands := hmoment.task.operands
    afterwards := hmoment.task.final hrules a.depth hmoment.store }

/-- Between the inputs of a session and at every moment of answering one, all values fit the
calculator's format: 28 digits, no place below the 55th decimal one and no leading digit above the
29th. -/
theorem every_value_fits :
    (∀ x : Decimal, calculator.Fits x ↔
      x.coefficient < 10 ^ (28 : Nat) ∧ -55 ≤ x.exponent ∧ x.adjusted ≤ 28) ∧
    (∀ (negative : Bool) (e : Int), calculator.Fits ⟨negative, 0, e⟩ ↔ -55 ≤ e ∧ e ≤ 28) ∧
    Numeric.StaysInRange ∧
    ∀ (settings : Settings) (env : Environment), Reachable settings env →
      env.store.InRange ∧ env.functions.All Function.InRange ∧
      ∀ (source : String) (p : Program) (a : Activity), parse source = .ok p →
        Activity.Leads (rulesOf env p) (start env p) a → InRange (rulesOf env p) a := by
  refine ⟨fun x => calculator_fits_iff, fun negative e => ?_, Numeric.staysInRange, ?_⟩
  · refine ⟨fun h => ?_, fun h => Numeric.fits_zero negative h.1 h.2⟩
    have hgreatest : Decimal.adjusted ⟨negative, 0, e⟩ ≤ 28 := h.greatest
    simp only [Decimal.adjusted, digitCount_zero] at hgreatest
    exact ⟨h.least, by omega⟩
  · intro settings env h
    refine ⟨h.sound.store, fun e he => (h.sound.functions e he).inRange, ?_⟩
    intro source p a hp ha
    exact moment_inRange h hp ha

/-- The moment at which a number is put on top of two names. -/
theorem every_value_fits_during_sum :
    let env := (process { settings := {} } "x = 1 / 3").environment
    let source := "y = x + pi"
    let rest : List Term := [.operator 6 .add, .operator 2 .assign]
    let e : Expression := ⟨source, .name 0 "y" :: .name 4 "x" :: .number 8 Numeric.pi :: rest⟩
    let p : Program := ⟨[.expression e], []⟩
    let stack : List Operand := [.value Numeric.pi, .reference "x" 4, .reference "y" 0]
    let a : Activity := ⟨env.depth, .terms source rest stack, { store := env.store }⟩
    Reachable {} env ∧ parse source = .ok p ∧ Activity.Leads (rulesOf env p) (start env p) a ∧
      InRange (rulesOf env p) a := by
  intro env source rest e p stack a
  have hreachable : Reachable {} env := .process .fresh _
  have hparse : parse source = .ok p := by cbv
  have hleads : Activity.Leads (rulesOf env p) (start env p) a := by
    refine .tail (.tail (.tail (.tail (.tail (.tail (.single (.firstStatement _ _ _ _ _))
      (.expression _ _ _)) (.statementValue _ _ ?_)) (.expressionTerms _ _ _))
      (.afterName _ _ _ _ _ _ _)) (.afterName _ _ _ _ _ _ _)) (.afterNumber _ _ _ _ _ _ _)
    intro c q n text es h
    have hlength : rest.length + 3 = 1 := congrArg (·.terms.length) h
    cases hlength
  exact ⟨hreachable, hparse, hleads,
    (every_value_fits.2.2.2 {} env hreachable).2.2 source p a hparse hleads⟩

end Session

end Abacus
