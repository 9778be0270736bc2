import Abacus.Proofs.Run.Scope

/-!
Names that are resolved late.

On the stack a name stays unresolved until an operator takes it off, and an assignment leaves the
name it has assigned to. An eager evaluation reads a name where it meets it, and an assignment has
the value that it assigns. The two can be told apart only by an expression that assigns to a name
and uses it elsewhere: if every name that is assigned occurs just once, no name that waits on the
stack is assigned to in the meantime, and both evaluations succeed in the same cases, with the same
value and in the same state.
-/
namespace Abacus

/-! ### Eager evaluation -/

namespace Tree

open Run (resolve arithmetic fail)

section Evaluation

variable (callee? : String → Option Callee)

mutual

/-- Evaluates a tree from left to right. A name is read at once, except where it is assigned to, and
an assignment has the value that it assigns. -/
def eager (context : String) : Tree → Run Decimal
  | number _ x => pure x
  | name p n => resolve context (.reference n p)
  | call p n text arguments => do
    let result ← invoke callee? context p n text arguments.length (eagerValues arguments)
    match result with
    | some x => pure x
    | none => fail context p .missingValue
  | unary p op h t => do
    let x ← eager context t
    arithmetic context p (op.unaryValue h x)
  | binary p op h l r => do
    let x ← eager context l
    let y ← eager context r
    arithmetic context p (op.binaryValue h x y)
  | assignment _ (name _ n) r => do
    let x ← eager context r
    modify fun s => { s with store := s.store.set n x }
    pure x
  | assignment p l r => do
    let _ ← eager context l
    let _ ← eager context r
    fail context p .invalidAssignment

/-- Evaluates the arguments of a call from left to right. -/
def eagerValues : List (String × Tree) → Run (List Decimal)
  | [] => pure []
  | (context, t) :: rest => do
    let x ← eager context t
    let xs ← eagerValues rest
    return x :: xs

end

/-- The value of a tree that stands as a statement: a call need not have one. -/
def eagerStatement (context : String) : Tree → Run (Option Decimal)
  | call p n text arguments =>
    invoke callee? context p n text arguments.length (eagerValues callee? arguments)
  | t => do return some (← t.eager callee? context)

end Evaluation

/-! ### The variables of a tree -/

/-- What a name is used for where it occurs. -/
inductive Use where
  | read
  | write
deriving DecidableEq

mutual

/-- The names that occur as variables, also in the arguments of calls. -/
def uses : Tree → List (String × Use)
  | number _ _ => []
  | name _ n => [(n, .read)]
  | call _ _ _ arguments => argumentUses arguments
  | unary _ _ _ t => t.uses
  | binary _ _ _ l r => l.uses ++ r.uses
  | assignment _ (name _ n) r => (n, .write) :: r.uses
  | assignment _ l r => l.uses ++ r.uses

def argumentUses : List (String × Tree) → List (String × Use)
  | [] => []
  | (_, t) :: rest => t.uses ++ argumentUses rest

end

mutual

/-- Whether there is a name on the left of every assignment. -/
def assignsToNames : Tree → Bool
  | number _ _ => true
  | name _ _ => true
  | call _ _ _ arguments => argumentsAssignToNames arguments
  | unary _ _ _ t => t.assignsToNames
  | binary _ _ _ l r => l.assignsToNames && r.assignsToNames
  | assignment _ (name _ _) r => r.assignsToNames
  | assignment _ _ _ => false

def argumentsAssignToNames : List (String × Tree) → Bool
  | [] => true
  | (_, t) :: rest => t.assignsToNames && argumentsAssignToNames rest

end

/-- No name that is written occurs a second time. -/
def WritesOnce (us : List (String × Use)) : Prop :=
  ∀ n, (n, .write) ∈ us → (us.map Prod.fst).count n = 1

/-- What holds of the uses in two parts of an expression. The first part does not mention what the
second one writes. -/
theorem writesOnce_append {us vs : List (String × Use)} (h : WritesOnce (us ++ vs)) :
    WritesOnce us ∧ WritesOnce vs ∧ ∀ n ∈ us.map Prod.fst, (n, Use.write) ∉ vs := by
  have hcount : ∀ n, (n, Use.write) ∈ us ++ vs →
      (us.map Prod.fst).count n + (vs.map Prod.fst).count n = 1 := by
    intro n hn
    have hn := h n hn
    rwa [List.map_append, List.count_append] at hn
  have hpos : ∀ (ws : List (String × Use)) n u, (n, u) ∈ ws → 0 < (ws.map Prod.fst).count n :=
    fun ws n u hn => List.count_pos_iff.mpr (List.mem_map_of_mem hn)
  refine ⟨fun n hn => ?_, fun n hn => ?_, fun n hn hwrite => ?_⟩
  · have := hcount n (List.mem_append_left vs hn)
    have := hpos us n _ hn
    omega
  · have := hcount n (List.mem_append_right us hn)
    have := hpos vs n _ hn
    omega
  · have := hcount n (List.mem_append_right us hwrite)
    have := hpos vs n _ hwrite
    have := List.count_pos_iff.mpr hn
    omega

end Tree

/-! ### Computations that succeed alike -/

namespace Run

/-- Wherever one of the computations succeeds the other one does, with the same result and in the
same state. -/
def SucceedsAlike {α : Type} (m m' : Run α) : Prop :=
  ∀ s a s', m s = .ok a s' ↔ m' s = .ok a s'

namespace SucceedsAlike

variable {α β : Type} {m m' m'' : Run α}

theorem refl (m : Run α) : SucceedsAlike m m := fun _ _ _ => Iff.rfl

theorem trans (h : SucceedsAlike m m') (h' : SucceedsAlike m' m'') : SucceedsAlike m m'' :=
  fun s a t => (h s a t).trans (h' s a t)

theorem bind (h : SucceedsAlike m m') {f f' : α → Run β} (hf : ∀ a, SucceedsAlike (f a) (f' a)) :
    SucceedsAlike (m >>= f) (m' >>= f') := by
  intro s b t
  rw [bind_eq_ok_iff, bind_eq_ok_iff]
  refine exists_congr fun a => exists_congr fun u => ?_
  rw [h s a u, hf a u b t]

/-- What follows need only succeed alike after results that there can be. -/
theorem bind_of_ok {f f' : α → Run β}
    (hf : ∀ s a t, m s = .ok a t → SucceedsAlike (f a) (f' a)) :
    SucceedsAlike (m >>= f) (m >>= f') := by
  intro s b t
  rw [bind_eq_ok_iff, bind_eq_ok_iff]
  refine exists_congr fun a => exists_congr fun u => and_congr_right fun hm => ?_
  exact hf s a u hm u b t

end SucceedsAlike

/-! ### Computations that keep a name -/

/-- If the computation succeeds, the name means afterwards what it meant before. -/
def KeepsName {α : Type} (n : String) (m : Run α) : Prop :=
  ∀ s a t, m s = .ok a t → t.store.get? n = s.store.get? n

/-- What an operand stands for. -/
def valueIn (s : State) : Operand → Option Decimal
  | .value x => some x
  | .reference n _ => s.store.get? n

theorem resolve_value (context : String) (x : Decimal) :
    resolve context (.value x) = pure x := rfl

theorem resolve_eq_ok_iff {context : String} {a : Operand} {s t : State} {x : Decimal} :
    resolve context a s = .ok x t ↔ valueIn s a = some x ∧ t = s := by
  cases a with
  | value y =>
    have hok : resolve context (.value y) s = .ok y s := by
      rw [resolve_value]
      rfl
    simp [hok, valueIn, eq_comm]
  | reference n p =>
    cases hn : s.store.get? n with
    | some y => simp [resolve_of_some hn, valueIn, hn, eq_comm]
    | none =>
      have hfail : resolve context (.reference n p) s ≠ .ok x t := by
        rw [resolve_of_none hn]
        exact nofun
      simp [hfail, valueIn, hn]

namespace KeepsName

variable {α β : Type} {n : String}

theorem pure (a : α) : KeepsName n (Pure.pure a : Run α) := by
  rintro s b t ⟨⟩
  rfl

theorem fail (context : String) (p : Int) (kind : ErrorKind) :
    KeepsName n (Run.fail context p kind : Run α) := by
  rintro s b t ⟨⟩

theorem bind {m : Run α} {f : α → Run β} (hm : KeepsName n m) (hf : ∀ a, KeepsName n (f a)) :
    KeepsName n (m >>= f) := by
  intro s b t h
  obtain ⟨a, u, hma, hfa⟩ := bind_eq_ok_iff.mp h
  rw [hf a u b t hfa, hm s a u hma]

theorem resolve (context : String) (a : Operand) : KeepsName n (Run.resolve context a) := by
  intro s x t h
  rw [(resolve_eq_ok_iff.mp h).2]

theorem arithmetic (context : String) (p : Int) (r : Numeric.Checked) :
    KeepsName n (Run.arithmetic context p r) := by
  cases r with
  | ok x => exact pure x
  | error kind => exact fail context p kind

theorem set {other : String} (h : n ≠ other) (x : Decimal) :
    KeepsName n (modify fun s => { s with store := s.store.set other x } : Run PUnit) := by
  rintro s a t ⟨⟩
  exact Store.get?_set_of_ne s.store h x

/-- Calls leave the names of the caller alone. -/
theorem callee {rules : Rules} {depth : Nat} {name : String} {f : Callee}
    (h : rules.callee? depth name = some f) (text : String) (xs : List Decimal) :
    KeepsName n (f.run text xs) := by
  obtain ⟨g, -, rfl⟩ := Option.map_eq_some_iff.mp h
  intro s x t hrun
  have hrun : enter rules depth text g xs s = .ok x t := hrun
  have hstore := enter_store rules depth text g xs s
  rw [final_of_ok hrun] at hstore
  rw [hstore]

end KeepsName

/-- A name may be looked up before a computation that keeps it. -/
theorem resolve_first {α β : Type} (context : String) {a : Operand} {m : Run α}
    (h : ∀ n p, a = .reference n p → KeepsName n m) (k : Decimal → α → Run β) :
    SucceedsAlike (do let y ← m; let x ← resolve context a; k x y)
      (do let x ← resolve context a; let y ← m; k x y) := by
  have hkeeps : ∀ s y t, m s = .ok y t → valueIn t a = valueIn s a := by
    intro s y t hm
    cases a with
    | value x => rfl
    | reference n p => exact h n p rfl s y t hm
  intro s b t
  simp only [bind_eq_ok_iff, resolve_eq_ok_iff]
  constructor
  · rintro ⟨y, u, hm, x, v, ⟨hx, rfl⟩, hk⟩
    exact ⟨x, s, ⟨(hkeeps s y v hm).symm.trans hx, rfl⟩, y, v, hm, hk⟩
  · rintro ⟨x, v, ⟨hx, rfl⟩, y, u, hm, hk⟩
    exact ⟨y, u, hm, x, u, ⟨(hkeeps v y u hm).trans hx, rfl⟩, hk⟩

end Run

namespace Tree

open Run

section Names

variable (rules : Rules) (depth : Nat) {n : String}

theorem invoke_keepsName (context : String) (p : Int) (name text : String) (count : Nat)
    {values : Run (List Decimal)} (h : KeepsName n values) :
    KeepsName n (invoke (rules.callee? depth) context p name text count values) := by
  unfold invoke
  cases hf : rules.callee? depth name with
  | none => exact .fail context p _
  | some f =>
    simp only
    split
    · exact .fail context p _
    · exact h.bind fun xs => .callee hf text xs

theorem exists_target {p : Int} {l r : Tree} (h : (assignment p l r).assignsToNames = true) :
    ∃ q m, l = name q m := by
  cases l with
  | name q m => exact ⟨q, m, rfl⟩
  | _ => simp [assignsToNames] at h

mutual

/-- An evaluation changes the names that it writes. -/
theorem operand_keepsName (context : String) (t : Tree) (ht : t.assignsToNames = true)
    (hn : (n, Use.write) ∉ t.uses) : KeepsName n (t.operand (rules.callee? depth) context) := by
  match t with
  | number p x => exact .pure _
  | name p m => exact .pure _
  | call p m text arguments =>
    rw [operand]
    rw [assignsToNames] at ht
    rw [uses] at hn
    refine .bind (invoke_keepsName rules depth context p m text _
      (values_keepsName arguments ht hn)) fun result => ?_
    cases result with
    | some x => exact .pure _
    | none => exact .fail context p _
  | unary p op h t =>
    rw [operand]
    rw [assignsToNames] at ht
    rw [uses] at hn
    refine .bind (operand_keepsName context t ht hn) fun a => ?_
    exact .bind (.resolve context a) fun x => .bind (.arithmetic context p _) fun _ => .pure _
  | binary p op h l r =>
    rw [operand]
    rw [assignsToNames, Bool.and_eq_true] at ht
    rw [uses, List.mem_append, not_or] at hn
    refine .bind (operand_keepsName context l ht.1 hn.1) fun a => ?_
    refine .bind (operand_keepsName context r ht.2 hn.2) fun b => ?_
    refine .bind (.resolve context b) fun y => .bind (.resolve context a) fun x => ?_
    exact .bind (.arithmetic context p _) fun _ => .pure _
  | assignment p l r =>
    obtain ⟨q, m, rfl⟩ := exists_target ht
    rw [operand, operand, pure_bind]
    rw [assignsToNames] at ht
    rw [uses, List.mem_cons, not_or] at hn
    have hne : n ≠ m := fun h => hn.1 (by rw [h])
    refine .bind (operand_keepsName context r ht hn.2) fun b => ?_
    exact .bind (.resolve context b) fun x => .bind (.set hne x) fun _ => .pure _

theorem values_keepsName (arguments : List (String × Tree))
    (ht : argumentsAssignToNames arguments = true)
    (hn : (n, Use.write) ∉ argumentUses arguments) :
    KeepsName n (values (rules.callee? depth) arguments) := by
  match arguments with
  | [] => exact .pure _
  | (context, t) :: rest =>
    rw [values]
    rw [argumentsAssignToNames, Bool.and_eq_true] at ht
    rw [argumentUses, List.mem_append, not_or] at hn
    refine .bind (operand_keepsName context t ht.1 hn.1) fun a => ?_
    refine .bind (.resolve context a) fun x => ?_
    exact .bind (values_keepsName rest ht.2 hn.2) fun xs => .pure _

end

theorem evaluate_keepsName (context : String) {t : Tree} (ht : t.assignsToNames = true)
    (hn : (n, Use.write) ∉ t.uses) : KeepsName n (t.evaluate (rules.callee? depth) context) :=
  (operand_keepsName rules depth context t ht hn).bind fun a => .resolve context a

/-- What is left unresolved is a name of the tree. -/
theorem mem_uses_of_operand {callee? : String → Option Callee} {context : String} {t : Tree}
    (ht : t.assignsToNames = true) {s s' : State} {p : Int}
    (h : t.operand callee? context s = .ok (.reference n p) s') : n ∈ t.uses.map Prod.fst := by
  -- calls and operators other than assignment leave a value
  have hvalue : ∀ {m : Run Decimal} {u : State},
      (do return Operand.value (← m)) u ≠ .ok (.reference n p) s' := by
    intro m u h
    obtain ⟨x, v, -, hx⟩ := bind_eq_ok_iff.mp h
    cases hx
  cases t with
  | number q x => cases h
  | name q m =>
    cases h
    simp [uses]
  | call q m text arguments =>
    rw [operand] at h
    obtain ⟨result, u, -, h⟩ := bind_eq_ok_iff.mp h
    cases result <;> cases h
  | unary q op hop t =>
    rw [operand] at h
    obtain ⟨a, u, -, h⟩ := bind_eq_ok_iff.mp h
    obtain ⟨x, v, -, h⟩ := bind_eq_ok_iff.mp h
    exact absurd h hvalue
  | binary q op hop l r =>
    rw [operand] at h
    obtain ⟨a, u, -, h⟩ := bind_eq_ok_iff.mp h
    obtain ⟨b, v, -, h⟩ := bind_eq_ok_iff.mp h
    obtain ⟨y, w, -, h⟩ := bind_eq_ok_iff.mp h
    obtain ⟨x, w', -, h⟩ := bind_eq_ok_iff.mp h
    exact absurd h hvalue
  | assignment q l r =>
    obtain ⟨q', m, rfl⟩ := exists_target ht
    rw [operand, operand, pure_bind] at h
    obtain ⟨b, u, -, h⟩ := bind_eq_ok_iff.mp h
    obtain ⟨x, v, -, h⟩ := bind_eq_ok_iff.mp h
    cases h
    simp [uses]

end Names

/-! ### Late and eager evaluation -/

/-- Every assignment is to a name, and a name that is assigned occurs just once. -/
structure AssignsOnce (t : Tree) : Prop where
  targets : t.assignsToNames = true
  once : WritesOnce t.uses

section LateAndEager

variable (rules : Rules) (depth : Nat)

theorem invoke_succeedsAlike (callee? : String → Option Callee) (context : String) (p : Int)
    (name text : String) (count : Nat) {values values' : Run (List Decimal)}
    (h : SucceedsAlike values values') :
    SucceedsAlike (invoke callee? context p name text count values)
      (invoke callee? context p name text count values') := by
  unfold invoke
  split
  · exact .refl _
  · split
    · exact .refl _
    · exact h.bind fun xs => .refl _

/-- A name that waits for the right operand means the same after it. -/
theorem binary_resolves_first (context : String) (p : Int) {op : Operator}
    (hop : op.leftAssociative = true) {l r : Tree} (h : (binary p op hop l r).AssignsOnce) :
    SucceedsAlike ((binary p op hop l r).evaluate (rules.callee? depth) context) (do
      let x ← l.evaluate (rules.callee? depth) context
      let y ← r.evaluate (rules.callee? depth) context
      arithmetic context p (op.binaryValue hop x y)) := by
  have ⟨htargets, honce⟩ := h
  rw [assignsToNames, Bool.and_eq_true] at htargets
  rw [uses] at honce
  have hdisjoint := (writesOnce_append honce).2.2
  simp only [evaluate, operand, bind_assoc, pure_bind, resolve_value, bind_pure]
  apply SucceedsAlike.bind_of_ok
  intro s a s' hl
  -- what waits is a name of the left side, and the right side assigns to none of these
  have hkeeps : ∀ n q, a = .reference n q →
      KeepsName n (r.evaluate (rules.callee? depth) context) := by
    rintro n q rfl
    have hn := mem_uses_of_operand htargets.1 hl
    exact evaluate_keepsName rules depth context htargets.2 (hdisjoint n hn)
  have hfirst := resolve_first context hkeeps fun x y =>
    arithmetic context p (op.binaryValue hop x y)
  simpa only [evaluate, bind_assoc] using hfirst

/-- An assignment stands for the name that it has just assigned to. -/
theorem assignment_has_value (context : String) (p q : Int) (n : String) (r : Tree) :
    (assignment p (name q n) r).evaluate (rules.callee? depth) context = (do
      let x ← r.evaluate (rules.callee? depth) context
      modify fun s => { s with store := s.store.set n x }
      pure x) := by
  simp only [evaluate, operand, pure_bind, bind_assoc]
  refine bind_congr fun b => bind_congr fun x => ?_
  funext s
  let assigned : State := { s with store := s.store.set n x }
  have hn : assigned.store.get? n = some x := Store.get?_set_self s.store n x
  exact resolve_of_some hn context q

mutual

theorem evaluate_succeedsAlike_eager (context : String) (t : Tree) (h : t.AssignsOnce) :
    SucceedsAlike (t.evaluate (rules.callee? depth) context)
      (t.eager (rules.callee? depth) context) := by
  have ⟨htargets, honce⟩ := h
  match t with
  | number p x => exact .refl _
  | name p n => exact .refl _
  | call p n text arguments =>
    rw [assignsToNames] at htargets
    rw [uses] at honce
    have hvalues := values_succeedsAlike_eager arguments htargets honce
    rw [evaluate, operand, eager, bind_assoc]
    refine (invoke_succeedsAlike _ context p n text _ hvalues).bind fun result => ?_
    cases result with
    | some x => exact .refl _
    | none => exact .refl _
  | unary p op hop t =>
    rw [assignsToNames] at htargets
    rw [uses] at honce
    have ht := evaluate_succeedsAlike_eager context t ⟨htargets, honce⟩
    have hunary : (unary p op hop t).evaluate (rules.callee? depth) context = (do
        let x ← t.evaluate (rules.callee? depth) context
        arithmetic context p (op.unaryValue hop x)) := by
      simp only [evaluate, operand, bind_assoc, pure_bind, resolve_value, bind_pure]
    rw [hunary, eager]
    exact ht.bind fun x => .refl _
  | binary p op hop l r =>
    have hfirst := binary_resolves_first rules depth context p hop h
    rw [assignsToNames, Bool.and_eq_true] at htargets
    rw [uses] at honce
    have ⟨hleft, hright, _⟩ := writesOnce_append honce
    have hl := evaluate_succeedsAlike_eager context l ⟨htargets.1, hleft⟩
    have hr := evaluate_succeedsAlike_eager context r ⟨htargets.2, hright⟩
    rw [eager]
    exact hfirst.trans (hl.bind fun x => hr.bind fun y => .refl _)
  | assignment p l r =>
    obtain ⟨q, n, rfl⟩ := exists_target htargets
    rw [assignsToNames] at htargets
    rw [uses, ← List.singleton_append] at honce
    have hright := (writesOnce_append honce).2.1
    have hr := evaluate_succeedsAlike_eager context r ⟨htargets, hright⟩
    rw [assignment_has_value, eager]
    exact hr.bind fun x => .refl _

theorem values_succeedsAlike_eager (arguments : List (String × Tree))
    (htargets : argumentsAssignToNames arguments = true)
    (honce : WritesOnce (argumentUses arguments)) :
    SucceedsAlike (values (rules.callee? depth) arguments)
      (eagerValues (rules.callee? depth) arguments) := by
  match arguments with
  | [] => exact .refl _
  | (context, t) :: rest =>
    rw [argumentsAssignToNames, Bool.and_eq_true] at htargets
    rw [argumentUses] at honce
    have ⟨hfirst, hrest, _⟩ := writesOnce_append honce
    have ht := evaluate_succeedsAlike_eager context t ⟨htargets.1, hfirst⟩
    have hvalues := values_succeedsAlike_eager rest htargets.2 hrest
    have hlate : values (rules.callee? depth) ((context, t) :: rest) = (do
        let x ← t.evaluate (rules.callee? depth) context
        let xs ← values (rules.callee? depth) rest
        return x :: xs) := by
      rw [values, evaluate, bind_assoc]
    rw [hlate, eagerValues]
    exact ht.bind fun x => hvalues.bind fun xs => .refl _

end

theorem evaluateStatement_succeedsAlike_eager (context : String) {t : Tree} (h : t.AssignsOnce) :
    SucceedsAlike (t.evaluateStatement (rules.callee? depth) context)
      (t.eagerStatement (rules.callee? depth) context) := by
  have hvalue := evaluate_succeedsAlike_eager rules depth context t h
  cases t with
  | call p n text arguments =>
    have ⟨htargets, honce⟩ := h
    rw [assignsToNames] at htargets
    rw [uses] at honce
    exact invoke_succeedsAlike _ context p n text _
      (values_succeedsAlike_eager rules depth arguments htargets honce)
  | _ => exact hvalue.bind fun x => .refl _

end LateAndEager

/-- Names may be resolved late. Of an expression that assigns to names only, and to none that occurs
in it a second time, the value on the stack and the eager value are there in the same cases. They
are then the same, and so are the variables that are left, the output and the log. As a statement
the expression may be a call without a value. -/
theorem late_binding_is_unobservable (rules : Rules) (depth : Nat) (context : String) {t : Tree}
    (h : t.AssignsOnce) :
    SucceedsAlike (Run.evaluate rules depth ⟨context, t.postorder⟩)
      (t.eager (rules.callee? depth) context) ∧
    SucceedsAlike (Run.evaluateStatement rules depth ⟨context, t.postorder⟩)
      (t.eagerStatement (rules.callee? depth) context) := by
  rw [evaluate_postorder, evaluateStatement_postorder]
  exact ⟨evaluate_succeedsAlike_eager rules depth context t h,
    evaluateStatement_succeedsAlike_eager rules depth context h⟩

-- a name that is assigned twice tells the two apart: late evaluation compares one with one
example :
    let context := "(x = 0) < (x = 1)"
    let t : Tree := binary 8 .less rfl (assignment 3 (name 1 "x") (number 5 .zero))
      (assignment 13 (name 11 "x") (number 15 .one))
    let s : State := { store := {} }
    let s' : State := { store := ⟨[("x", .one)], []⟩ }
    t.evaluate (fun _ => none) context s = .ok .zero s' ∧
      t.eager (fun _ => none) context s = .ok .one s' :=
  ⟨rfl, rfl⟩

/-- While `x` waits to be compared, an argument is assigned to another name. -/
theorem late_binding_is_unobservable_across_call :
    let f : Function := ⟨"f", "fn f(a) return a", ["a"], [.returning ⟨"a", [.name 15 "a"]⟩]⟩
    let rules : Rules := ⟨{}, [("f", f)]⟩
    let context := "x < f(y = 1)"
    let argument : Tree := assignment 8 (name 6 "y") (number 10 .one)
    let t : Tree := binary 2 .less rfl (name 0 "x") (call 4 "f" "f(y = 1)" [("y = 1", argument)])
    let s : State := { store := ⟨[("x", .zero)], []⟩ }
    let s' : State :=
      { store := ⟨[("x", .zero), ("y", .one)], []⟩, events := [.calling "f(y = 1)" 1] }
    t.AssignsOnce ∧
      Run.evaluate rules 0 ⟨context, t.postorder⟩ s = .ok .one s' ∧
      t.eager (rules.callee? 0) context s = .ok .one s' := by
  intro f rules context argument t s s'
  have huses : t.uses = [("x", .read), ("y", .write)] := by
    simp [t, argument, uses, argumentUses]
  have ht : t.AssignsOnce := by
    refine ⟨rfl, fun n hn => ?_⟩
    rw [huses] at hn ⊢
    obtain rfl : n = "y" := by simpa using hn
    rfl
  let e : Expression := ⟨"y = 1", [.name 6 "y", .number 10 .one, .operator 8 .assign]⟩
  have hterms : t.postorder = [.name 0 "x", .call 4 "f" "f(y = 1)" [e], .operator 2 .less] := rfl
  let assigned : State := { store := ⟨[("x", .zero), ("y", .one)], []⟩ }
  have hassign : Derives (.of rules) 0 (.terms "y = 1" e.terms []) s
      (.ok [.reference "y" 6] assigned) {} := .name (.number (.operator rfl .noTerms))
  have hvalues : Derives (.of rules) 0 (.evaluateAll [e]) s (.ok [.one] assigned) {} :=
    .values (.evaluate hassign) .noValues
  let entered := Activity.entered 0 "f(y = 1)" [("a", .one)] assigned
  have hreturn : Derives (.of rules) 1 (.statement (.returning ⟨"a", [.name 15 "a"]⟩)) entered
      (.ok (.returned .one) entered) {} := .returning (.evaluate (.name .noTerms))
  have hbody : Derives (.of rules) 1 (.statements none f.body) entered
      (.ok (.returned .one) entered) {} := .returned hreturn
  have hcall : Derives (.of rules) 0 (.call context 4 "f" "f(y = 1)" [e]) s
      (.ok (some .one) s') { depth := 1 } :=
    .body rfl rfl hvalues (by rintro limit ⟨⟩; decide) hbody
  have hless : Derives (.of rules) 0 (.terms context [.operator 2 .less]
      [.value .one, .reference "x" 0]) s' (.ok [.value .one] s') {} := .operator rfl .noTerms
  have hlate : Run.evaluate rules 0 ⟨context, t.postorder⟩ s = .ok .one s' := by
    rw [hterms]
    exact (Derives.evaluate (.name (.callValue hcall hless))).run_eq
  have ⟨hvalue, _⟩ := late_binding_is_unobservable rules 0 context ht
  exact ⟨ht, hlate, (hvalue s .one s').mp hlate⟩

end Tree

end Abacus
