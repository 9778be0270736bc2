import Abacus.Proofs.Run.Interpretation
import Abacus.Proofs.Script.Programs

/-!
No defect can come about.

Where the variables and the numbers of a script fit the calculator's format, and its expressions
are the postorders of trees, evaluation ends in a value or in a failure that is the script's own:
the stack always holds the operands of the operator that is applied and, at the end, the value, and
every value that is printed can be shown. The variables still fit afterwards.
-/
namespace Abacus

open Format (calculator)

namespace Table

/-- Every entry has the property. -/
def All {α : Type} (holds : α → Prop) (t : Table α) : Prop := ∀ e ∈ t, holds e.2

theorem All.find? {α : Type} {holds : α → Prop} {t : Table α} (h : t.All holds) {name : String}
    {a : α} (ha : t.find? name = some a) : holds a := by
  induction t with
  | nil => cases ha
  | cons e rest ih =>
    rw [Table.find?] at ha
    split at ha
    · cases ha
      exact h e (by simp)
    · exact ih (fun e he => h e (by simp [he])) ha

theorem All.put {α : Type} {holds : α → Prop} {t : Table α} (h : t.All holds) (name : String)
    {a : α} (ha : holds a) : (t.put name a).All holds := by
  induction t with
  | nil => exact List.forall_mem_cons.mpr ⟨ha, by simp⟩
  | cons e rest ih =>
    obtain ⟨hfirst, hrest⟩ := List.forall_mem_cons.mp h
    rw [Table.put]
    split
    · exact List.forall_mem_cons.mpr ⟨ha, hrest⟩
    split
    · exact List.forall_mem_cons.mpr ⟨ha, h⟩
    · exact List.forall_mem_cons.mpr ⟨hfirst, ih hrest⟩

theorem All.ofEntries {α : Type} {holds : α → Prop} {entries : List (String × α)}
    (h : ∀ e ∈ entries, holds e.2) : (Table.ofEntries entries).All holds := by
  have hfold : ∀ t : Table α, t.All holds →
      (entries.foldl (fun t e => t.put e.1 e.2) t).All holds := by
    induction entries with
    | nil => exact fun t ht => ht
    | cons e rest ih =>
      obtain ⟨hfirst, hrest⟩ := List.forall_mem_cons.mp h
      exact fun t ht => ih hrest _ (ht.put e.1 hfirst)
  exact hfold [] (by simp [All])

end Table

namespace Store

/-- Every variable fits the calculator's format, those of callers included. -/
structure InRange (s : Store) : Prop where
  globals : s.globals.All calculator.Fits
  frames : ∀ frame ∈ s.frames, Table.All calculator.Fits frame

namespace InRange

variable {s : Store} (h : s.InRange)
include h

theorem get? {name : String} {x : Decimal} (hx : s.get? name = some x) : calculator.Fits x := by
  unfold Store.get? active at hx
  cases hframes : s.frames with
  | nil =>
    rw [hframes] at hx
    exact h.globals.find? hx
  | cons frame rest =>
    rw [hframes] at hx
    exact (h.frames frame (by simp [hframes])).find? hx

theorem set (name : String) {x : Decimal} (hx : calculator.Fits x) : (s.set name x).InRange := by
  unfold Store.set
  split
  · exact ⟨h.globals.put name hx, h.frames⟩
  · next frame rest hframes =>
    have hall := h.frames
    rw [hframes] at hall
    obtain ⟨hframe, hrest⟩ := List.forall_mem_cons.mp hall
    exact ⟨h.globals, List.forall_mem_cons.mpr ⟨Table.All.put hframe name hx, hrest⟩⟩

theorem push {frame : Table Decimal} (hframe : frame.All calculator.Fits) :
    (s.push frame).InRange :=
  ⟨h.globals, List.forall_mem_cons.mpr ⟨hframe, h.frames⟩⟩

theorem pop : s.pop.InRange :=
  ⟨h.globals, fun frame hframe => h.frames frame (List.mem_of_mem_tail hframe)⟩

end InRange

end Store

def Operand.InRange : Operand → Prop
  | value x => calculator.Fits x
  | reference _ _ => True

def Signal.InRange : Signal → Prop
  | value x => calculator.Fits x
  | returned x => calculator.Fits x
  | _ => True

def Ending.InRange : Ending → Prop
  | finished last => ∀ x ∈ last, calculator.Fits x
  | returned x => calculator.Fits x
  | broke last => ∀ x ∈ last, calculator.Fits x

theorem fits_some {x : Decimal} (h : calculator.Fits x) : ∀ y ∈ some x, calculator.Fits y := by
  rintro y ⟨⟩
  exact h

theorem Signal.inRange_ofLast {last : Option Decimal} (h : ∀ x ∈ last, calculator.Fits x) :
    (Signal.ofLast last).InRange := by
  cases last with
  | none => trivial
  | some x => exact h x rfl

namespace Run

/-- From variables that fit, `m` ends with variables that fit, and in a result with the property or
in a failure that is not a defect. -/
def Safe {α : Type} (m : Run α) (holds : α → Prop) : Prop :=
  ∀ s : State, s.store.InRange → match m s with
    | .ok a s' => s'.store.InRange ∧ holds a
    | .error e s' => s'.store.InRange ∧ ∀ d, e ≠ .defect d

section Steps

variable {α β : Type} {holds : α → Prop} {holds' : β → Prop}

theorem safe_pure {a : α} (h : holds a) : Safe (pure a) holds := fun _ hs => ⟨hs, h⟩

theorem safe_throw {e : Failure} (h : ∀ d, e ≠ .defect d) : Safe (throw e : Run α) holds :=
  fun _ hs => ⟨hs, h⟩

theorem safe_fail (context : String) (p : Int) (kind : ErrorKind) :
    Safe (fail context p kind : Run α) holds := safe_throw fun _ h => by cases h

theorem Safe.bind {m : Run α} {f : α → Run β} (hm : Safe m holds)
    (hf : ∀ a, holds a → Safe (f a) holds') : Safe (m >>= f) holds' := by
  intro s hs
  have h := hm s hs
  simp only [Bind.bind, EStateM.bind]
  cases hr : m s with
  | ok a s' =>
    rw [hr] at h
    exact hf a h.2 s' h.1
  | error e s' =>
    rw [hr] at h
    exact h

theorem safe_get_bind {f : State → Run α} (hf : ∀ s, s.store.InRange → Safe (f s) holds) :
    Safe (get >>= f) holds := fun s hs => hf s hs s hs

theorem Safe.inFrame {m : Run α} (hm : Safe m holds) {frame : Table Decimal}
    (hframe : frame.All calculator.Fits) : Safe (inFrame frame m) holds := by
  intro s hs
  have h := hm { s with store := s.store.push frame } (hs.push hframe)
  rw [Run.inFrame]
  cases hr : m { s with store := s.store.push frame } with
  | ok a s' =>
    rw [hr] at h
    exact ⟨h.1.pop, h.2⟩
  | error e s' =>
    rw [hr] at h
    exact ⟨h.1.pop, h.2⟩

end Steps

theorem record_safe (e : Event) : Safe (record e) fun _ => True := fun _ hs => ⟨hs, trivial⟩

theorem print_safe (text : String) : Safe (print text) fun _ => True := fun _ hs => ⟨hs, trivial⟩

theorem set_safe (name : String) {x : Decimal} (hx : calculator.Fits x) :
    Safe (modify fun s => { s with store := s.store.set name x } : Run PUnit) fun _ => True :=
  fun _ hs => ⟨hs.set name hx, trivial⟩

theorem resolve_safe (context : String) {a : Operand} (ha : a.InRange) :
    Safe (resolve context a) calculator.Fits := by
  cases a with
  | value x => exact safe_pure ha
  | reference name p =>
    refine safe_get_bind fun s hs => ?_
    split
    · next x hx => exact safe_pure (hs.get? hx)
    · exact safe_fail context p _

theorem arithmetic_safe (context : String) (p : Int) {r : Numeric.Checked} (h : Numeric.InRange r) :
    Safe (arithmetic context p r) calculator.Fits := by
  cases r with
  | ok x => exact safe_pure (h x rfl)
  | error kind => exact safe_fail context p kind

theorem display_safe (settings : Settings) {x : Decimal} (hx : calculator.Fits x) :
    Safe (display settings x) fun _ => True := by
  obtain ⟨text, htext⟩ := Decimal.display?_of_fits hx settings.displayPlaces
  unfold display
  rw [htext]
  exact safe_pure trivial

/-! ### Trees -/

/-- Calls are safe if their arguments fit the calculator's format. -/
def SafeCallees (callee? : String → Option Callee) : Prop :=
  ∀ name f, callee? name = some f → ∀ text xs, (∀ x ∈ xs, calculator.Fits x) →
    Safe (f.run text xs) fun last => ∀ x ∈ last, calculator.Fits x

section Trees

variable {callee? : String → Option Callee}

theorem invoke_safe (hcallees : SafeCallees callee?) (context : String) (p : Int)
    (n text : String) (count : Nat) {values : Run (List Decimal)}
    (hvalues : Safe values fun xs => ∀ x ∈ xs, calculator.Fits x) :
    Safe (Tree.invoke callee? context p n text count values)
      fun last => ∀ x ∈ last, calculator.Fits x := by
  unfold Tree.invoke
  split
  · exact safe_fail context p _
  next f hf =>
    split
    · exact safe_fail context p _
    · exact hvalues.bind fun xs hxs => hcallees n f hf text xs hxs

mutual

theorem operand_safe (hcallees : SafeCallees callee?) (context : String) (t : Tree)
    (ht : t.Sound) :
    Safe (t.operand callee? context) Operand.InRange := by
  match t with
  | .number p x =>
    rw [Tree.operand]
    exact safe_pure ht
  | .name p n =>
    rw [Tree.operand]
    exact safe_pure trivial
  | .call p n text arguments =>
    rw [Tree.operand]
    refine (invoke_safe hcallees context p n text _ (values_safe hcallees arguments ht)).bind
      fun result hresult => ?_
    cases result with
    | some x => exact safe_pure (hresult x rfl)
    | none => exact safe_fail context p _
  | .unary p op h t =>
    rw [Tree.operand]
    refine (operand_safe hcallees context t ht).bind fun a ha => ?_
    refine (resolve_safe context ha).bind fun x hx => ?_
    have hrange := Operator.unary_inRange (Operator.meaning_eq_unary h) hx
    exact (arithmetic_safe context p hrange).bind fun y hy => safe_pure hy
  | .binary p op h l r =>
    rw [Tree.operand]
    refine (operand_safe hcallees context l ht.1).bind fun a ha => ?_
    refine (operand_safe hcallees context r ht.2).bind fun b hb => ?_
    refine (resolve_safe context hb).bind fun y _ => ?_
    refine (resolve_safe context ha).bind fun x _ => ?_
    have hrange := Operator.binary_inRange (Operator.meaning_eq_binary h) x y
    exact (arithmetic_safe context p hrange).bind fun z hz => safe_pure hz
  | .assignment p l r =>
    rw [Tree.operand]
    refine (operand_safe hcallees context l ht.1).bind fun a _ => ?_
    refine (operand_safe hcallees context r ht.2).bind fun b hb => ?_
    refine (resolve_safe context hb).bind fun x hx => ?_
    cases a with
    | value _ => exact safe_fail context p _
    | reference n q => exact (set_safe n hx).bind fun _ _ => safe_pure trivial

theorem values_safe (hcallees : SafeCallees callee?) (arguments : List (String × Tree))
    (h : Tree.SoundArguments arguments) :
    Safe (Tree.values callee? arguments) fun xs => ∀ x ∈ xs, calculator.Fits x := by
  match arguments with
  | [] =>
    rw [Tree.values]
    exact safe_pure (by simp)
  | (context, t) :: rest =>
    rw [Tree.values]
    refine (operand_safe hcallees context t h.1).bind fun a ha => ?_
    refine (resolve_safe context ha).bind fun x hx => ?_
    refine (values_safe hcallees rest h.2).bind fun xs hxs => ?_
    exact safe_pure (List.forall_mem_cons.mpr ⟨hx, hxs⟩)

end

end Trees

/-! ### Expressions and statements -/

section Statements

variable {rules : Rules} {depth : Nat}

theorem evaluate_safe (hcallees : SafeCallees (rules.callee? depth)) {e : Expression}
    (he : Expression.Sound e) : Safe (evaluate rules depth e) calculator.Fits := by
  obtain ⟨context, ts⟩ := e
  obtain ⟨t, rfl, ht⟩ := he
  rw [Tree.evaluate_postorder]
  exact (operand_safe hcallees context t ht).bind fun a ha => resolve_safe context ha

theorem evaluateStatement_safe (hcallees : SafeCallees (rules.callee? depth)) {e : Expression}
    (he : Expression.Sound e) :
    Safe (evaluateStatement rules depth e) fun last => ∀ x ∈ last, calculator.Fits x := by
  obtain ⟨context, ts⟩ := e
  obtain ⟨t, rfl, ht⟩ := he
  have hvalue := (evaluate_safe hcallees ⟨t, rfl, ht⟩ : Safe (evaluate rules depth ⟨context, _⟩) _)
  rw [Tree.evaluate_postorder] at hvalue
  rw [Tree.evaluateStatement_postorder]
  cases t with
  | call p n text arguments =>
    exact invoke_safe hcallees context p n text _ (values_safe hcallees arguments ht)
  | _ => exact hvalue.bind fun x hx => safe_pure (fits_some hx)

mutual

theorem statement_safe (hcallees : SafeCallees (rules.callee? depth)) {s : Statement}
    (hs : s.Sound) : Safe (statement rules depth s) Signal.InRange := by
  match s with
  | .expression e =>
    cases hs with
    | expression he =>
      rw [statement]
      refine (evaluateStatement_safe hcallees he).bind fun last hlast => ?_
      exact safe_pure (Signal.inRange_ofLast hlast)
  | .branch condition body none =>
    cases hs with
    | branch hcondition hbody hother =>
      rw [statement]
      refine (evaluate_safe hcallees hcondition).bind fun x _ => ?_
      split
      · exact block_safe hcallees hbody
      · exact safe_pure trivial
  | .branch condition body (some other) =>
    cases hs with
    | branch hcondition hbody hother =>
      rw [statement]
      refine (evaluate_safe hcallees hcondition).bind fun x _ => ?_
      split
      · exact block_safe hcallees hbody
      · exact block_safe hcallees (hother other rfl)
  | .loop text condition body =>
    cases hs with
    | loop _ hcondition hbody =>
      rw [statement]
      exact loop_safe hcallees text hcondition hbody _ (by simp)
  | .returning e =>
    cases hs with
    | returning he =>
      rw [statement]
      exact (evaluate_safe hcallees he).bind fun x hx => safe_pure hx
  | .printing e =>
    cases hs with
    | printing he =>
      rw [statement]
      refine (evaluate_safe hcallees he).bind fun x hx => ?_
      refine (display_safe rules.settings hx).bind fun text _ => ?_
      exact (print_safe _).bind fun _ _ => safe_pure trivial
  | .breaking =>
    rw [statement]
    exact safe_pure trivial
termination_by (sizeOf s, 0)

theorem statements_safe (hcallees : SafeCallees (rules.callee? depth)) {last : Option Decimal}
    (hlast : ∀ x ∈ last, calculator.Fits x) {ss : List Statement} (hss : ∀ s ∈ ss, s.Sound) :
    Safe (statements rules depth last ss) Ending.InRange := by
  match ss with
  | [] =>
    rw [statements]
    exact safe_pure hlast
  | s :: rest =>
    obtain ⟨hs, hrest⟩ := List.forall_mem_cons.mp hss
    rw [statements]
    refine (statement_safe hcallees hs).bind fun signal hsignal => ?_
    cases signal with
    | value x => exact statements_safe hcallees (fits_some hsignal) hrest
    | nothing => exact statements_safe hcallees hlast hrest
    | returned x => exact safe_pure hsignal
    | broke => exact safe_pure hlast
termination_by (sizeOf ss, 0)

theorem block_safe (hcallees : SafeCallees (rules.callee? depth)) {body : List Statement}
    (hbody : ∀ s ∈ body, s.Sound) :
    Safe (block rules depth body) Signal.InRange := by
  rw [block]
  refine (statements_safe hcallees (by simp) hbody).bind fun ending hending => ?_
  cases ending with
  | finished last => exact safe_pure (Signal.inRange_ofLast hending)
  | returned x => exact safe_pure hending
  | broke last => exact safe_pure trivial
termination_by (sizeOf body, 1)

theorem loop_safe (hcallees : SafeCallees (rules.callee? depth)) (text : String)
    {condition : Expression} (hcondition : Expression.Sound condition) {body : List Statement}
    (hbody : ∀ s ∈ body, s.Sound) (remaining : Nat) {last : Option Decimal}
    (hlast : ∀ x ∈ last, calculator.Fits x) :
    Safe (loop rules depth text condition body remaining last) Signal.InRange := by
  have := sizeOf_expression_pos condition
  match remaining with
  | 0 =>
    rw [loop]
    refine (evaluate_safe hcallees hcondition).bind fun x _ => ?_
    split
    · exact (record_safe _).bind fun _ _ => safe_throw fun _ h => by cases h
    · exact safe_pure (Signal.inRange_ofLast hlast)
  | remaining + 1 =>
    rw [loop]
    refine (evaluate_safe hcallees hcondition).bind fun x _ => ?_
    split
    · refine (statements_safe hcallees hlast hbody).bind fun ending hending => ?_
      cases ending with
      | finished last => exact loop_safe hcallees text hcondition hbody remaining hending
      | returned x => exact safe_pure hending
      | broke last => exact safe_pure (Signal.inRange_ofLast hending)
    · exact safe_pure (Signal.inRange_ofLast hlast)
termination_by (sizeOf condition + sizeOf body, remaining)

end

end Statements

theorem entering_safe {limit depth : Nat} (parameters : List String)
    {body : depth < limit → Run Ending} (hbody : ∀ h, Safe (body h) Ending.InRange) (text : String)
    {xs : List Decimal} (hxs : ∀ x ∈ xs, calculator.Fits x) :
    Safe ((Callee.entering limit depth parameters body).run text xs)
      fun last => ∀ x ∈ last, calculator.Fits x := by
  unfold Callee.entering
  simp only
  split
  · next hlimit =>
    have hframe : (Table.ofEntries (parameters.zip xs)).All calculator.Fits :=
      .ofEntries fun e he => hxs e.2 (List.of_mem_zip he).2
    refine Safe.inFrame ((record_safe _).bind fun _ _ => ?_) hframe
    refine (hbody hlimit).bind fun ending hending => ?_
    cases ending with
    | finished last => exact safe_pure hending
    | broke last => exact safe_pure hending
    | returned x => exact safe_pure (fits_some hending)
  · exact (record_safe _).bind fun _ _ => safe_throw fun _ h => by cases h

/-- Calls can only nest so deep, so the functions are safe at every depth. -/
theorem safeCallees {rules : Rules} (hrules : rules.functions.All Function.Sound) (depth : Nat) :
    SafeCallees (rules.callee? depth) := by
  intro name callee hcallee text xs hxs
  obtain ⟨f, hf, rfl⟩ := Option.map_eq_some_iff.mp hcallee
  refine entering_safe f.parameters (fun hlimit => ?_) text hxs
  exact statements_safe (safeCallees hrules (depth + 1)) (by simp) (hrules.find? hf)
termination_by rules.settings.callLimit - depth

end Run

end Abacus
