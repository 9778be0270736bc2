import Abacus.Proofs.Numeric.Errors
import Abacus.Proofs.Run.Safety
import Abacus.Proofs.Script.Parts

/-!
Where diagnostics come from.

Evaluation reports an error against the text of the expression that it works on, at the position of
one of its terms: a name that waits on the stack keeps the position it had in the source. So each
diagnostic of a run marks a term of an expression of the script or of a function.
-/
namespace Abacus

/-- The diagnostic is raised against a term of the expression. -/
structure Diagnostic.Marks (d : Diagnostic) (e : Expression) : Prop where
  context : d.context = e.context
  position : ∃ x ∈ e.terms, d.position = x.position
  kind : d.kind.isFatal = false

/-- An operand on the stack of an expression: a name there is one of the expression's terms. -/
def Operand.Of (e : Expression) : Operand → Prop
  | value _ => True
  | reference name position => .name position name ∈ e.terms

/-- Every expression in the functions has the property. -/
def Rules.Every (holds : Expression → Prop) (rules : Rules) : Prop :=
  rules.functions.All (Function.Every holds)

namespace Run

/-- A diagnostic that `m` stops with marks an expression from `allowed`, and a result has the
property. -/
def Blames {α : Type} (allowed : Expression → Prop) (m : Run α) (holds : α → Prop) : Prop :=
  ∀ s : State, match m s with
    | .ok a _ => holds a
    | .error failure _ => ∀ d, failure = .diagnosed d → ∃ e, allowed e ∧ d.Marks e

variable {allowed : Expression → Prop}

section Steps

variable {α β : Type} {holds : α → Prop} {holds' : β → Prop}

theorem blames_pure {a : α} (h : holds a) : Blames allowed (pure a) holds := fun _ => h

theorem blames_throw {failure : Failure} (h : ∀ d, failure ≠ .diagnosed d) :
    Blames allowed (throw failure : Run α) holds := fun _ d hd => absurd hd (h d)

theorem blames_fail {e : Expression} (he : allowed e) {x : Term} (hx : x ∈ e.terms)
    {kind : ErrorKind} (hkind : kind.isFatal = false) :
    Blames allowed (fail e.context x.position kind : Run α) holds := by
  rintro s _ ⟨⟩
  exact ⟨e, he, rfl, ⟨x, hx, rfl⟩, hkind⟩

theorem Blames.bind {m : Run α} {f : α → Run β} (hm : Blames allowed m holds)
    (hf : ∀ a, holds a → Blames allowed (f a) holds') : Blames allowed (m >>= f) holds' := by
  intro s
  have h := hm s
  simp only [Bind.bind, EStateM.bind]
  cases hr : m s with
  | ok a s' =>
    rw [hr] at h
    exact hf a h s'
  | error e s' =>
    rw [hr] at h
    exact h

theorem Blames.inFrame {m : Run α} (hm : Blames allowed m holds) (frame : Table Decimal) :
    Blames allowed (inFrame frame m) holds := by
  intro s
  have h := hm { s with store := s.store.push frame }
  rw [Run.inFrame]
  cases hr : m { s with store := s.store.push frame } with
  | ok a s' =>
    rw [hr] at h
    exact h
  | error e s' =>
    rw [hr] at h
    exact h

end Steps

theorem get_blames : Blames allowed (get : Run State) fun _ => True := fun _ => trivial

theorem modify_blames (f : State → State) :
    Blames allowed (modify f : Run PUnit) fun _ => True := fun _ => trivial

theorem record_blames (event : Event) : Blames allowed (record event) fun _ => True :=
  modify_blames _

theorem print_blames (text : String) : Blames allowed (print text) fun _ => True := modify_blames _

theorem display_blames (settings : Settings) (x : Decimal) :
    Blames allowed (display settings x) fun _ => True := by
  unfold display
  split
  · exact blames_pure trivial
  · exact blames_throw (by simp)

/-! ### Operators -/

section Operators

variable {e : Expression} (he : allowed e)
include he

theorem resolve_blames {a : Operand} (ha : a.Of e) :
    Blames allowed (resolve e.context a) fun _ => True := by
  cases a with
  | value x => exact blames_pure trivial
  | reference name p =>
    refine get_blames.bind fun s _ => ?_
    split
    · exact blames_pure trivial
    · exact blames_fail he ha rfl

theorem arithmetic_blames {x : Term} (hx : x ∈ e.terms) {r : Numeric.Checked}
    (hr : Numeric.Ordinary r) :
    Blames allowed (arithmetic e.context x.position r) fun _ => True := by
  cases r with
  | ok y => exact blames_pure trivial
  | error kind => exact blames_fail he hx (hr kind rfl)

theorem assign_blames {x : Term} (hx : x ∈ e.terms) (y : Decimal) {a : Operand} (ha : a.Of e) :
    Blames allowed (assign e.context x.position y a) (Operand.Of e) := by
  cases a with
  | value _ => exact blames_fail he hx rfl
  | reference name p => exact (modify_blames _).bind fun _ _ => blames_pure ha

theorem conclude_blames {stack : List Operand} (hstack : ∀ a ∈ stack, a.Of e) :
    Blames allowed (conclude e.context stack) fun _ => True := by
  unfold conclude
  split
  · exact resolve_blames he (hstack _ (by simp))
  · exact blames_throw (by simp)

end Operators

theorem pop_blames {e : Expression} {stack : List Operand} (hstack : ∀ a ∈ stack, a.Of e) :
    Blames allowed (pop stack) fun (top, rest) => top.Of e ∧ ∀ a ∈ rest, a.Of e := by
  cases stack with
  | nil => exact blames_throw (by simp)
  | cons a stack => exact blames_pure (List.forall_mem_cons.mp hstack)

theorem apply_blames {e : Expression} (he : allowed e) {p : Int} {op : Operator}
    (hx : .operator p op ∈ e.terms) {stack : List Operand} (hstack : ∀ a ∈ stack, a.Of e) :
    Blames allowed (apply e.context p op stack) fun stack => ∀ a ∈ stack, a.Of e := by
  have hvalue : ∀ {x : Decimal} {stack : List Operand}, (∀ a ∈ stack, a.Of e) →
      ∀ a ∈ Operand.value x :: stack, a.Of e := fun h => List.forall_mem_cons.mpr ⟨trivial, h⟩
  unfold apply
  split
  · refine (pop_blames hstack).bind fun (right, stack) ⟨hright, hstack⟩ => ?_
    refine (resolve_blames he hright).bind fun y _ => ?_
    refine (pop_blames hstack).bind fun (left, stack) ⟨hleft, hstack⟩ => ?_
    refine (assign_blames he hx y hleft).bind fun target htarget => ?_
    exact blames_pure (List.forall_mem_cons.mpr ⟨htarget, hstack⟩)
  · next compute hop =>
    refine (pop_blames hstack).bind fun (operand, stack) ⟨hoperand, hstack⟩ => ?_
    refine (resolve_blames he hoperand).bind fun x _ => ?_
    refine (arithmetic_blames he hx (Operator.unary_ordinary hop x)).bind fun result _ => ?_
    exact blames_pure (hvalue hstack)
  · next compute hop =>
    refine (pop_blames hstack).bind fun (right, stack) ⟨hright, hstack⟩ => ?_
    refine (resolve_blames he hright).bind fun y _ => ?_
    refine (pop_blames hstack).bind fun (left, stack) ⟨hleft, hstack⟩ => ?_
    refine (resolve_blames he hleft).bind fun x _ => ?_
    refine (arithmetic_blames he hx (Operator.binary_ordinary hop x y)).bind fun result _ => ?_
    exact blames_pure (hvalue hstack)

/-! ### Expressions and statements -/

section Interpreter

variable {rules : Rules}

mutual

theorem terms_blames (hrules : rules.Every allowed) (depth : Nat) {e : Expression}
    (he : Expression.Every allowed e) {ts : List Term} (hts : ts ⊆ e.terms) {stack : List Operand}
    (hstack : ∀ a ∈ stack, a.Of e) :
    Blames allowed (terms rules depth e.context ts stack) fun stack => ∀ a ∈ stack, a.Of e := by
  match ts with
  | [] =>
    rw [terms]
    exact blames_pure hstack
  | .number p x :: rest =>
    rw [terms]
    have hrest := (List.cons_subset.mp hts).2
    exact terms_blames hrules depth he hrest (List.forall_mem_cons.mpr ⟨trivial, hstack⟩)
  | .name p n :: rest =>
    obtain ⟨hname, hrest⟩ := List.cons_subset.mp hts
    -- the name waits on the stack, and may be reported as unknown only by a later operator
    rw [terms]
    exact terms_blames hrules depth he hrest (List.forall_mem_cons.mpr ⟨hname, hstack⟩)
  | .call p n text arguments :: rest =>
    obtain ⟨hcall, hrest⟩ := List.cons_subset.mp hts
    rw [terms]
    refine (call_blames hrules depth he hcall).bind fun result _ => ?_
    split
    · exact terms_blames hrules depth he hrest (List.forall_mem_cons.mpr ⟨trivial, hstack⟩)
    · exact blames_fail he.self hcall rfl
  | .operator p op :: rest =>
    obtain ⟨hoperator, hrest⟩ := List.cons_subset.mp hts
    rw [terms]
    refine (apply_blames he.self hoperator hstack).bind fun stack hstack => ?_
    exact terms_blames hrules depth he hrest hstack
  | .parenthesis p side :: rest =>
    rw [terms]
    exact blames_throw (by simp)
termination_by (rules.settings.callLimit - depth, sizeOf ts, 0)

theorem evaluate_blames (hrules : rules.Every allowed) (depth : Nat) {e : Expression}
    (he : Expression.Every allowed e) :
    Blames allowed (evaluate rules depth e) fun _ => True := by
  match e with
  | ⟨context, ts⟩ =>
    rw [evaluate]
    refine (terms_blames hrules depth he (List.Subset.refl _) (by simp)).bind fun stack hstack => ?_
    exact conclude_blames he.self hstack
termination_by (rules.settings.callLimit - depth, sizeOf e, 0)

theorem evaluateStatement_blames (hrules : rules.Every allowed) (depth : Nat) {e : Expression}
    (he : Expression.Every allowed e) :
    Blames allowed (evaluateStatement rules depth e) fun _ => True := by
  rw [evaluateStatement.eq_def]
  split
  · exact call_blames hrules depth he (List.mem_singleton_self _)
  · exact (evaluate_blames hrules depth he).bind fun x _ => blames_pure trivial
termination_by (rules.settings.callLimit - depth, sizeOf e, 1)

theorem evaluateAll_blames (hrules : rules.Every allowed) (depth : Nat) {es : List Expression}
    (hes : ∀ e ∈ es, Expression.Every allowed e) :
    Blames allowed (evaluateAll rules depth es) fun _ => True := by
  match es with
  | [] =>
    rw [evaluateAll]
    exact blames_pure trivial
  | e :: rest =>
    obtain ⟨he, hrest⟩ := List.forall_mem_cons.mp hes
    rw [evaluateAll]
    refine (evaluate_blames hrules depth he).bind fun x _ => ?_
    exact (evaluateAll_blames hrules depth hrest).bind fun xs _ => blames_pure trivial
termination_by (rules.settings.callLimit - depth, sizeOf es, 0)

theorem call_blames (hrules : rules.Every allowed) (depth : Nat) {e : Expression}
    (he : Expression.Every allowed e) {p : Int} {n text : String} {arguments : List Expression}
    (hcall : .call p n text arguments ∈ e.terms) :
    Blames allowed (call rules depth e.context p n text arguments) fun _ => True := by
  rw [call]
  split
  · exact blames_fail he.self hcall rfl
  next f hf =>
  split
  · exact blames_fail he.self hcall rfl
  refine (evaluateAll_blames hrules depth fun a ha => he.argument hcall ha).bind fun xs _ => ?_
  split
  · have hbody := Table.All.find? hrules hf
    refine Blames.inFrame ((record_blames _).bind fun _ _ => ?_) _
    refine (statements_blames hrules (depth + 1) none hbody).bind fun ending _ => ?_
    cases ending with
    | finished last => exact blames_pure trivial
    | broke last => exact blames_pure trivial
    | returned x => exact blames_pure trivial
  · exact (record_blames _).bind fun _ _ => blames_throw (by simp)
termination_by (rules.settings.callLimit - depth, sizeOf arguments, 1)

theorem statement_blames (hrules : rules.Every allowed) (depth : Nat) {s : Statement}
    (hs : s.Every allowed) :
    Blames allowed (statement rules depth s) fun _ => True := by
  match s with
  | .expression e =>
    rw [statement]
    refine (evaluateStatement_blames hrules depth (hs.direct rfl)).bind fun _ _ => ?_
    exact blames_pure trivial
  | .branch condition body none =>
    rw [statement]
    refine (evaluate_blames hrules depth (hs.direct rfl)).bind fun x _ => ?_
    split
    · exact block_blames hrules depth hs.body
    · exact blames_pure trivial
  | .branch condition body (some other) =>
    rw [statement]
    refine (evaluate_blames hrules depth (hs.direct rfl)).bind fun x _ => ?_
    split
    · exact block_blames hrules depth hs.body
    · exact block_blames hrules depth hs.otherwise
  | .loop text condition body =>
    rw [statement]
    exact loop_blames hrules depth text (hs.direct rfl) hs.loop _ none
  | .returning e =>
    rw [statement]
    exact (evaluate_blames hrules depth (hs.direct rfl)).bind fun x _ => blames_pure trivial
  | .printing e =>
    rw [statement]
    refine (evaluate_blames hrules depth (hs.direct rfl)).bind fun x _ => ?_
    refine (display_blames rules.settings x).bind fun text _ => ?_
    exact (print_blames _).bind fun _ _ => blames_pure trivial
  | .breaking =>
    rw [statement]
    exact blames_pure trivial
termination_by (rules.settings.callLimit - depth, sizeOf s, 0)

theorem statements_blames (hrules : rules.Every allowed) (depth : Nat) (last : Option Decimal)
    {ss : List Statement} (hss : ∀ s ∈ ss, s.Every allowed) :
    Blames allowed (statements rules depth last ss) fun _ => True := by
  match ss with
  | [] =>
    rw [statements]
    exact blames_pure trivial
  | s :: rest =>
    obtain ⟨hs, hrest⟩ := List.forall_mem_cons.mp hss
    rw [statements]
    refine (statement_blames hrules depth hs).bind fun signal _ => ?_
    cases signal with
    | value x => exact statements_blames hrules depth (some x) hrest
    | nothing => exact statements_blames hrules depth last hrest
    | returned x => exact blames_pure trivial
    | broke => exact blames_pure trivial
termination_by (rules.settings.callLimit - depth, sizeOf ss, 0)

theorem block_blames (hrules : rules.Every allowed) (depth : Nat) {body : List Statement}
    (hbody : ∀ s ∈ body, s.Every allowed) :
    Blames allowed (block rules depth body) fun _ => True := by
  rw [block]
  refine (statements_blames hrules depth none hbody).bind fun ending _ => ?_
  cases ending with
  | finished last => exact blames_pure trivial
  | returned x => exact blames_pure trivial
  | broke last => exact blames_pure trivial
termination_by (rules.settings.callLimit - depth, sizeOf body, 1)

theorem loop_blames (hrules : rules.Every allowed) (depth : Nat) (text : String)
    {condition : Expression} (hcondition : Expression.Every allowed condition)
    {body : List Statement} (hbody : ∀ s ∈ body, s.Every allowed) (remaining : Nat)
    (last : Option Decimal) :
    Blames allowed (loop rules depth text condition body remaining last) fun _ => True := by
  have := sizeOf_statements_pos body
  have := sizeOf_expression_pos condition
  match remaining with
  | 0 =>
    rw [loop]
    refine (evaluate_blames hrules depth hcondition).bind fun x _ => ?_
    split
    · exact (record_blames _).bind fun _ _ => blames_throw (by simp)
    · exact blames_pure trivial
  | remaining + 1 =>
    rw [loop]
    refine (evaluate_blames hrules depth hcondition).bind fun x _ => ?_
    split
    · refine (statements_blames hrules depth last hbody).bind fun ending _ => ?_
      cases ending with
      | finished last => exact loop_blames hrules depth text hcondition hbody remaining last
      | returned x => exact blames_pure trivial
      | broke last => exact blames_pure trivial
    · exact blames_pure trivial
termination_by (rules.settings.callLimit - depth, sizeOf condition + sizeOf body, remaining)

end

end Interpreter

end Run

end Abacus
