import Abacus.Proofs.Run.Origins
import Abacus.Proofs.Run.Scope

/-!
Counting operands.

How many operands a list of terms leaves on the stack, and whether each of its operators finds
enough of them there, does not depend on the values: it can be counted beforehand. An operator that
is applied, and a list of terms that is run, changes the number of operands as it has been counted,
or fails; it fails for want of operands only where the count says so.
-/
namespace Abacus

/-! ### The count -/

/-- The number of operands behind a term, if there are `n` before it; none if these are too few, or
if the term has no place in postfix order. -/
def Term.operandsAfter (n : Nat) : Term → Option Nat
  | number _ _ => some (n + 1)
  | name _ _ => some (n + 1)
  | call _ _ _ _ => some (n + 1)
  | operator _ op => if op.arity ≤ n then some (n + 1 - op.arity) else none
  | parenthesis _ _ => none

/-- The number of operands behind some terms, if each of them finds enough. -/
def operandsBehind (n : Nat) (ts : List Term) : Option Nat := ts.foldlM Term.operandsAfter n

/-- Each operator finds its operands, and in the end there is one. -/
def Expression.Counted (e : Expression) : Prop := operandsBehind 0 e.terms = some 1

instance : DecidablePred Expression.Counted := fun e =>
  inferInstanceAs (Decidable (operandsBehind 0 e.terms = some 1))

theorem Term.operandsAfter_operator {n : Nat} {op : Operator} (h : op.arity ≤ n) (p : Int) :
    (operator p op).operandsAfter n = some (n + 1 - op.arity) := if_pos h

theorem Term.operandsAfter_of_lt {n : Nat} {op : Operator} (h : n < op.arity) (p : Int) :
    (operator p op).operandsAfter n = none := if_neg (Nat.not_le.mpr h)

theorem operandsBehind_cons (n : Nat) (t : Term) (ts : List Term) :
    operandsBehind n (t :: ts) = t.operandsAfter n >>= (operandsBehind · ts) :=
  List.foldlM_cons

/-- A term that leaves `m` operands, and the terms behind it. -/
theorem operandsBehind_of_after {n m : Nat} {t : Term} (h : t.operandsAfter n = some m)
    (ts : List Term) : operandsBehind n (t :: ts) = operandsBehind m ts := by
  rw [operandsBehind_cons, h]
  rfl

theorem operandsBehind_of_none {n : Nat} {t : Term} (h : t.operandsAfter n = none)
    (ts : List Term) : operandsBehind n (t :: ts) = none := by
  rw [operandsBehind_cons, h]
  rfl

theorem operandsBehind_append (n : Nat) (ts us : List Term) :
    operandsBehind n (ts ++ us) = operandsBehind n ts >>= (operandsBehind · us) :=
  List.foldlM_append

/-- An operator has as many operands as its meaning takes. -/
theorem Operator.arity_eq (op : Operator) : op.arity = match op.meaning with
    | .unary _ => 1
    | .binary _ => 2
    | .assignment => 2 := by
  cases op <;> rfl

/-- The failure is one of the operand stack: an operator, the end of the expression or a stray
parenthesis found it in the wrong state. -/
def Failure.ofStack : Failure → Bool
  | .defect .missingOperand => true
  | .defect (.malformedExpression _) => true
  | .defect .strayParenthesis => true
  | _ => false

/-- The failure is an error of the script, which is reported, or a guard's. -/
def Failure.isReported : Failure → Bool
  | .diagnosed _ => true
  | .limit => true
  | .defect _ => false

namespace Run

/-! ### Operators -/

/-- A result of `m` has the property `holds`, and a failure has the property `may`. -/
def Yields {α : Type} (m : Run α) (holds : α → Prop) (may : Failure → Prop) : Prop :=
  ∀ s : State, match m s with
    | .ok a _ => holds a
    | .error f _ => may f

section Steps

variable {α β : Type} {holds : α → Prop} {holds' : β → Prop} {may : Failure → Prop}

theorem yields_pure {a : α} (h : holds a) : Yields (pure a) holds may := fun _ => h

theorem yields_throw {f : Failure} (h : may f) : Yields (throw f : Run α) holds may := fun _ => h

theorem Yields.bind {m : Run α} {f : α → Run β} (hm : Yields m holds may)
    (hf : ∀ a, holds a → Yields (f a) holds' may) : Yields (m >>= f) holds' may := by
  intro s
  have h := hm s
  rw [bind_run]
  cases hr : m s with
  | ok a s' =>
    rw [hr] at h
    exact hf a h s'
  | error e s' =>
    rw [hr] at h
    exact h

theorem Yields.of_ok {m : Run α} (h : Yields m holds may) {s s' : State} {a : α}
    (hr : m s = .ok a s') : holds a := by
  have hs := h s
  rw [hr] at hs
  exact hs

theorem Yields.of_error {m : Run α} (h : Yields m holds may) {s s' : State} {f : Failure}
    (hr : m s = .error f s') : may f := by
  have hs := h s
  rw [hr] at hs
  exact hs

end Steps

/-- How operators fail: with an error that is reported, or for want of operands. -/
def OperatorFailure (op : Operator) (stack : List Operand) (f : Failure) : Prop :=
  (∃ d, f = .diagnosed d) ∨ f = .defect .missingOperand ∧ stack.length < op.arity

section Operators

variable {may : Failure → Prop} (hmay : ∀ d, may (.diagnosed d)) (context : String)
include hmay

theorem resolve_yields (a : Operand) : Yields (resolve context a) (fun _ => True) may := by
  intro s
  cases a with
  | value x => exact trivial
  | reference name p =>
    cases hx : s.store.get? name with
    | some x =>
      rw [resolve_of_some hx]
      exact trivial
    | none =>
      rw [resolve_of_none hx]
      exact hmay _

theorem arithmetic_yields (p : Int) (r : Numeric.Checked) :
    Yields (arithmetic context p r) (fun _ => True) may := by
  cases r with
  | ok x => exact yields_pure trivial
  | error kind => exact yields_throw (hmay _)

theorem assign_yields (p : Int) (x : Decimal) (a : Operand) :
    Yields (assign context p x a) (fun _ => True) may := by
  cases a with
  | value _ => exact yields_throw (hmay _)
  | reference name q => exact fun _ => trivial

end Operators

/-- An operator replaces its operands by one, and fails for want of them only if there are too
few. -/
theorem apply_yields (context : String) (p : Int) (op : Operator) (stack : List Operand) :
    Yields (apply context p op stack)
      (fun stack' => op.arity ≤ stack.length ∧ stack'.length = stack.length + 1 - op.arity)
      (OperatorFailure op stack) := by
  have hreported : ∀ d, OperatorFailure op stack (.diagnosed d) := fun d => .inl ⟨d, rfl⟩
  have harity := op.arity_eq
  unfold apply
  cases hmeaning : op.meaning with
  | unary compute =>
    rw [hmeaning] at harity
    simp only at harity
    match stack with
    | [] => exact yields_throw (.inr ⟨rfl, by simp [harity]⟩)
    | a :: stack =>
      refine (resolve_yields hreported context a).bind fun x _ => ?_
      refine (arithmetic_yields hreported context p (compute x)).bind fun y _ => ?_
      exact yields_pure (by simp [harity])
  | binary compute =>
    rw [hmeaning] at harity
    simp only at harity
    match stack with
    | [] => exact yields_throw (.inr ⟨rfl, by simp [harity]⟩)
    | [a] =>
      refine (resolve_yields hreported context a).bind fun y _ => ?_
      exact yields_throw (.inr ⟨rfl, by simp [harity]⟩)
    | a :: b :: stack =>
      refine (resolve_yields hreported context a).bind fun y _ => ?_
      refine (resolve_yields hreported context b).bind fun x _ => ?_
      refine (arithmetic_yields hreported context p (compute x y)).bind fun z _ => ?_
      exact yields_pure (by simp [harity])
  | assignment =>
    rw [hmeaning] at harity
    simp only at harity
    match stack with
    | [] => exact yields_throw (.inr ⟨rfl, by simp [harity]⟩)
    | [a] =>
      refine (resolve_yields hreported context a).bind fun y _ => ?_
      exact yields_throw (.inr ⟨rfl, by simp [harity]⟩)
    | a :: b :: stack =>
      refine (resolve_yields hreported context a).bind fun x _ => ?_
      refine (assign_yields hreported context p x b).bind fun target _ => ?_
      exact yields_pure (by simp [harity])

/-- The end of an expression finds one operand, which may be an unknown name, or it fails. -/
theorem conclude_yields (context : String) (stack : List Operand) :
    Yields (conclude context stack) (fun _ => stack.length = 1) fun f =>
      (stack.length = 1 ∧ ∃ d, f = .diagnosed d) ∨
        stack.length ≠ 1 ∧ f = .defect (.malformedExpression context) := by
  match stack with
  | [] => exact yields_throw (.inr ⟨by simp, rfl⟩)
  | [a] =>
    have hresolve : Yields (resolve context a) (fun _ => True) fun f => ∃ d, f = .diagnosed d :=
      resolve_yields (fun d => ⟨d, rfl⟩) context a
    intro s
    rw [conclude]
    cases hr : resolve context a s with
    | ok x s' => rfl
    | error f s' => exact .inl ⟨rfl, hresolve.of_error hr⟩
  | a :: b :: stack => exact yields_throw (.inr ⟨by simp, rfl⟩)

/-! ### Terms -/

section Terms

variable {rules : Rules} {d : Nat} {context : String}

theorem terms_cons (t : Term) (rest : List Term) (stack : List Operand) :
    terms rules d context (t :: rest) stack =
      terms rules d context [t] stack >>= terms rules d context rest := by
  cases t with
  | number p x => simp only [terms, pure_bind]
  | name p n => simp only [terms, pure_bind]
  | call p n text es =>
    simp only [terms, bind_assoc]
    refine bind_congr fun result => ?_
    cases result with
    | none => rfl
    | some x => rw [pure_bind]
  | operator p op => simp only [terms, bind_assoc, pure_bind]
  | parenthesis p side =>
    simp only [terms]
    rfl

theorem terms_append (ts us : List Term) (stack : List Operand) :
    terms rules d context (ts ++ us) stack =
      terms rules d context ts stack >>= terms rules d context us := by
  induction ts generalizing stack with
  | nil => rw [List.nil_append, terms, pure_bind]
  | cons t rest ih =>
    rw [List.cons_append, terms_cons, terms_cons t rest, bind_assoc]
    exact bind_congr ih

/-- A term changes the number of operands as it has been counted. -/
theorem term_counts {t : Term} {stack stack' : List Operand} {s s' : State}
    (h : terms rules d context [t] stack s = .ok stack' s') :
    t.operandsAfter stack.length = some stack'.length := by
  cases t with
  | number p x =>
    rw [terms, terms] at h
    cases h
    rfl
  | name p n =>
    rw [terms, terms] at h
    cases h
    rfl
  | call p n text es =>
    rw [terms] at h
    obtain ⟨result, s₁, -, h⟩ := bind_eq_ok_iff.mp h
    cases result with
    | none => cases h
    | some x =>
      simp only [terms] at h
      cases h
      rfl
  | operator p op =>
    rw [terms] at h
    obtain ⟨stack₁, s₁, happly, h⟩ := bind_eq_ok_iff.mp h
    rw [terms] at h
    cases h
    obtain ⟨hle, hlength⟩ := (apply_yields context p op stack).of_ok happly
    rw [Term.operandsAfter_operator hle, hlength]
  | parenthesis p side =>
    rw [terms] at h
    cases h

/-- A term fails with the failure of its call, with an error that is reported, or because it has
been counted out. -/
theorem term_fails {t : Term} {stack : List Operand} {s s' : State} {f : Failure}
    (h : terms rules d context [t] stack s = .error f s') :
    (∃ p n text es, t = .call p n text es ∧ call rules d context p n text es s = .error f s') ∨
      (∃ x, f = .diagnosed x) ∨ f.ofStack = true ∧ t.operandsAfter stack.length = none := by
  cases t with
  | number p x =>
    rw [terms, terms] at h
    cases h
  | name p n =>
    rw [terms, terms] at h
    cases h
  | call p n text es =>
    rw [terms] at h
    rcases bind_eq_error_iff.mp h with h | ⟨result, s₁, -, h⟩
    · exact .inl ⟨p, n, text, es, rfl, h⟩
    · cases result with
      | none =>
        cases h
        exact .inr (.inl ⟨_, rfl⟩)
      | some x =>
        simp only [terms] at h
        cases h
  | operator p op =>
    rw [terms] at h
    rcases bind_eq_error_iff.mp h with h | ⟨stack', s₁, -, h⟩
    · rcases (apply_yields context p op stack).of_error h with hreported | ⟨rfl, hfew⟩
      · exact .inr (.inl hreported)
      · exact .inr (.inr ⟨rfl, Term.operandsAfter_of_lt hfew p⟩)
    · rw [terms] at h
      cases h
  | parenthesis p side =>
    rw [terms] at h
    cases h
    exact .inr (.inr ⟨rfl, rfl⟩)

theorem terms_count {ts : List Term} {stack stack' : List Operand} {s s' : State}
    (h : terms rules d context ts stack s = .ok stack' s') :
    operandsBehind stack.length ts = some stack'.length := by
  induction ts generalizing stack s with
  | nil =>
    rw [terms] at h
    cases h
    rfl
  | cons t rest ih =>
    rw [terms_cons] at h
    obtain ⟨stack₁, s₁, hfirst, h⟩ := bind_eq_ok_iff.mp h
    rw [operandsBehind_of_after (term_counts hfirst)]
    exact ih h

theorem operandsBehind_of_terms {ts : List Term} {stack : List Operand} {s s' : State}
    (h : terms rules d context ts [] s = .ok stack s') :
    operandsBehind 0 ts = some stack.length := terms_count h

/-- Of terms that fail there is a first one that does. -/
theorem terms_fail {ts : List Term} {stack : List Operand} {s s' : State} {f : Failure}
    (h : terms rules d context ts stack s = .error f s') :
    ∃ before t after stack₁ s₁, ts = before ++ t :: after ∧
      terms rules d context before stack s = .ok stack₁ s₁ ∧
      terms rules d context [t] stack₁ s₁ = .error f s' := by
  induction ts generalizing stack s with
  | nil =>
    rw [terms] at h
    cases h
  | cons t rest ih =>
    rw [terms_cons] at h
    rcases bind_eq_error_iff.mp h with h | ⟨stack₁, s₁, hfirst, h⟩
    · exact ⟨[], t, rest, stack, s, rfl, by rw [terms]; rfl, h⟩
    · obtain ⟨before, u, after, stack₂, s₂, rfl, hbefore, hu⟩ := ih h
      refine ⟨t :: before, u, after, stack₂, s₂, rfl, ?_, hu⟩
      rw [terms_cons, bind_run, hfirst]
      exact hbefore

end Terms

end Run

end Abacus
