import Abacus.Proofs.Run.Answers

/-!
The rules by which scripts run.

A derivation by these rules shows how a piece of a program ends: in which result or failure, in
which state, and, as a record, how many rounds a loop in it took at most and how deep its calls
went. The guards against long loops and deep calls can be put up or left out. Without them the rules
are those of the bare language, where a loop or a recursion that has no end has no derivation. With
the guards of a session, what the rules derive is what the interpreter computes.
-/
namespace Abacus

/-- What a block results in, if its statements ended in the given way. -/
def Ending.signal : Ending → Signal
  | finished last => .ofLast last
  | returned x => .returned x
  | broke _ => .broke

namespace Run

/-! ### How computations end -/

/-- How a computation ended, and in which state. -/
abbrev Ended (α : Type) := EStateM.Result Failure State α

/-- The result or the failure, without the state. -/
def outcome {α : Type} : Ended α → Except Failure α
  | .ok a _ => .ok a
  | .error e _ => .error e

/-- Goes on from a result; a failure stays as it is. -/
def andThen {α β : Type} (o : Ended α) (f : α → Run β) : Ended β :=
  match o with
  | .ok a s => f a s
  | .error e s => .error e s

/-- Leaves a function whose body ended in the given way. -/
def leave : Ended Ending → Ended (Option Decimal)
  | .ok ending s => .ok ending.value? { s with store := s.store.pop }
  | .error e s => .error e { s with store := s.store.pop }

/-- Prints a value on a line of its own. -/
def printValue (places : Nat) (x : Decimal) : Run Signal := do
  let text ← display { displayPlaces := places } x
  print (text ++ "\n")
  pure .nothing

/-! ### Guards and what they watch -/

/-- The limits that are watched. -/
structure Guards where
  /-- Rounds of one run of a loop. -/
  rounds : Option Nat
  /-- Calls that are active at the same time. -/
  calls : Option Nat

namespace Guards

/-- No limit is watched. -/
def off : Guards := ⟨none, none⟩

def of (settings : Settings) : Guards := ⟨some settings.loopLimit, some settings.callLimit⟩

def AllowRounds (g : Guards) (n : Nat) : Prop := ∀ limit ∈ g.rounds, n ≤ limit

def AllowDepth (g : Guards) (n : Nat) : Prop := ∀ limit ∈ g.calls, n ≤ limit

end Guards

/-- The greatest number of rounds that one run of a loop took, and of calls that were active. -/
structure Usage where
  rounds : Nat := 0
  depth : Nat := 0

namespace Usage

def join (u v : Usage) : Usage := ⟨max u.rounds v.rounds, max u.depth v.depth⟩

/-- The guards have no objection. -/
structure Within (u : Usage) (g : Guards) : Prop where
  rounds : g.AllowRounds u.rounds
  depth : g.AllowDepth u.depth

theorem join_within {u v : Usage} {g : Guards} :
    (u.join v).Within g ↔ u.Within g ∧ v.Within g := by
  constructor
  · rintro ⟨hrounds, hdepth⟩
    refine ⟨⟨fun l hl => ?_, fun l hl => ?_⟩, fun l hl => ?_, fun l hl => ?_⟩
    · exact Nat.le_trans (Nat.le_max_left _ _) (hrounds l hl)
    · exact Nat.le_trans (Nat.le_max_left _ _) (hdepth l hl)
    · exact Nat.le_trans (Nat.le_max_right _ _) (hrounds l hl)
    · exact Nat.le_trans (Nat.le_max_right _ _) (hdepth l hl)
  · rintro ⟨hu, hv⟩
    refine ⟨fun l hl => ?_, fun l hl => ?_⟩
    · exact Nat.max_le.mpr ⟨hu.rounds l hl, hv.rounds l hl⟩
    · exact Nat.max_le.mpr ⟨hu.depth l hl, hv.depth l hl⟩

theorem within_none (g : Guards) : Usage.Within {} g :=
  ⟨fun l _ => Nat.zero_le l, fun l _ => Nat.zero_le l⟩

theorem within_rounds {n : Nat} {g : Guards} :
    Usage.Within { rounds := n } g ↔ g.AllowRounds n :=
  ⟨fun h => h.rounds, fun h => ⟨h, fun l _ => Nat.zero_le l⟩⟩

theorem within_depth {n : Nat} {g : Guards} : Usage.Within { depth := n } g ↔ g.AllowDepth n :=
  ⟨fun h => h.depth, fun h => ⟨fun l _ => Nat.zero_le l, h⟩⟩

theorem within_off (u : Usage) : u.Within .off := by
  refine ⟨?_, ?_⟩
  · rintro l ⟨⟩
  · rintro l ⟨⟩

end Usage

/-! ### The rules -/

/-- What the rules speak about. A loop comes with the number of rounds it has taken. -/
inductive Piece where
  | terms (context : String) (ts : List Term) (stack : List Operand)
  | evaluate (e : Expression)
  | evaluateStatement (e : Expression)
  | evaluateAll (es : List Expression)
  | call (context : String) (position : Int) (name text : String) (arguments : List Expression)
  | statement (s : Statement)
  | statements (last : Option Decimal) (ss : List Statement)
  | block (body : List Statement)
  | loop (text : String) (condition : Expression) (body : List Statement) (rounds : Nat)
      (last : Option Decimal)

@[reducible]
def Piece.Result : Piece → Type
  | terms _ _ _ => List Operand
  | evaluate _ => Decimal
  | evaluateStatement _ => Option Decimal
  | evaluateAll _ => List Decimal
  | call _ _ _ _ _ => Option Decimal
  | statement _ => Signal
  | statements _ _ => Ending
  | block _ => Signal
  | loop _ _ _ _ _ => Signal

/-- What a piece of a program runs under. -/
structure Regime where
  guards : Guards
  functions : Table Function
  /-- Decimal places of values that are printed. -/
  places : Nat

namespace Regime

/-- With the guards of a session. -/
def of (rules : Rules) : Regime :=
  ⟨.of rules.settings, rules.functions, rules.settings.displayPlaces⟩

/-- The bare language. -/
def unguarded (r : Regime) : Regime := { r with guards := .off }

end Regime

/-- From the given state, at the given depth of active calls, the piece ends in the given way. -/
inductive Derives (r : Regime) : Nat → (q : Piece) → State → Ended q.Result → Usage → Prop
  -- terms
  | noTerms {d c stack s} : Derives r d (.terms c [] stack) s (.ok stack s) {}
  | number {d c p x rest stack s o u}
      (h : Derives r d (.terms c rest (.value x :: stack)) s o u) :
      Derives r d (.terms c (.number p x :: rest) stack) s o u
  | name {d c p n rest stack s o u}
      (h : Derives r d (.terms c rest (.reference n p :: stack)) s o u) :
      Derives r d (.terms c (.name p n :: rest) stack) s o u
  | callStops {d c p n text es rest stack s e s' u}
      (h : Derives r d (.call c p n text es) s (.error e s') u) :
      Derives r d (.terms c (.call p n text es :: rest) stack) s (.error e s') u
  | callMissing {d c p n text es rest stack s s' u}
      (h : Derives r d (.call c p n text es) s (.ok none s') u) :
      Derives r d (.terms c (.call p n text es :: rest) stack) s
        (.error (.diagnosed ⟨c, p, .missingValue⟩) s') u
  | callValue {d c p n text es rest stack s x s' o u v}
      (h : Derives r d (.call c p n text es) s (.ok (some x) s') u)
      (hrest : Derives r d (.terms c rest (.value x :: stack)) s' o v) :
      Derives r d (.terms c (.call p n text es :: rest) stack) s o (u.join v)
  | operatorStops {d c p op rest stack s e s'} (h : apply c p op stack s = .error e s') :
      Derives r d (.terms c (.operator p op :: rest) stack) s (.error e s') {}
  | operator {d c p op rest stack stack' s s' o u} (h : apply c p op stack s = .ok stack' s')
      (hrest : Derives r d (.terms c rest stack') s' o u) :
      Derives r d (.terms c (.operator p op :: rest) stack) s o u
  | parenthesis {d c p side rest stack s} :
      Derives r d (.terms c (.parenthesis p side :: rest) stack) s
        (.error (.defect .strayParenthesis) s) {}
  -- expressions
  | evaluate {d c ts s o u} (h : Derives r d (.terms c ts []) s o u) :
      Derives r d (.evaluate ⟨c, ts⟩) s (andThen o (conclude c)) u
  | singleCall {d c p n text es s o u} (h : Derives r d (.call c p n text es) s o u) :
      Derives r d (.evaluateStatement ⟨c, [.call p n text es]⟩) s o u
  | statementValue {d e s o u} (he : ∀ c p n text es, e ≠ ⟨c, [.call p n text es]⟩)
      (h : Derives r d (.evaluate e) s o u) :
      Derives r d (.evaluateStatement e) s (andThen o fun x => pure (some x)) u
  | noValues {d s} : Derives r d (.evaluateAll []) s (.ok [] s) {}
  | valueStops {d e rest s f s' u} (h : Derives r d (.evaluate e) s (.error f s') u) :
      Derives r d (.evaluateAll (e :: rest)) s (.error f s') u
  | values {d e rest s x s' o u v} (h : Derives r d (.evaluate e) s (.ok x s') u)
      (hrest : Derives r d (.evaluateAll rest) s' o v) :
      Derives r d (.evaluateAll (e :: rest)) s (andThen o fun xs => pure (x :: xs)) (u.join v)
  -- calls
  | unknown {d c p n text es s} (hf : r.functions.find? n = none) :
      Derives r d (.call c p n text es) s (.error (.diagnosed ⟨c, p, .unknownName⟩) s) {}
  | wrongCount {d c p n text es f s} (hf : r.functions.find? n = some f)
      (harity : f.arity ≠ es.length) :
      Derives r d (.call c p n text es) s (.error (.diagnosed ⟨c, p, .argumentCount⟩) s) {}
  | argumentStops {d c p n text es f s e s' u} (hf : r.functions.find? n = some f)
      (harity : f.arity = es.length) (h : Derives r d (.evaluateAll es) s (.error e s') u) :
      Derives r d (.call c p n text es) s (.error e s') u
  | body {d c p n text es f s xs s' o u v} (hf : r.functions.find? n = some f)
      (harity : f.arity = es.length) (h : Derives r d (.evaluateAll es) s (.ok xs s') u)
      (hdepth : r.guards.AllowDepth (d + 1))
      (hbody : Derives r (d + 1) (.statements none f.body)
        (Activity.entered d text (Table.ofEntries (f.parameters.zip xs)) s') o v) :
      Derives r d (.call c p n text es) s (leave o) ((u.join v).join { depth := d + 1 })
  | tooDeep {d c p n text es f s xs s' u limit} (hf : r.functions.find? n = some f)
      (harity : f.arity = es.length) (h : Derives r d (.evaluateAll es) s (.ok xs s') u)
      (hlimit : r.guards.calls = some limit) (hdepth : limit ≤ d) :
      Derives r d (.call c p n text es) s
        (.error .limit { s' with events := .callLimit limit :: s'.events }) u
  -- single statements
  | expression {d e s o u} (h : Derives r d (.evaluateStatement e) s o u) :
      Derives r d (.statement (.expression e)) s (andThen o fun last => pure (.ofLast last)) u
  | branchStops {d e body otherwise s f s' u} (h : Derives r d (.evaluate e) s (.error f s') u) :
      Derives r d (.statement (.branch e body otherwise)) s (.error f s') u
  | branchBody {d e body otherwise s x s' o u v}
      (h : Derives r d (.evaluate e) s (.ok x s') u) (hx : Numeric.isTrue x = true)
      (hbody : Derives r d (.block body) s' o v) :
      Derives r d (.statement (.branch e body otherwise)) s o (u.join v)
  | branchOther {d e body other s x s' o u v}
      (h : Derives r d (.evaluate e) s (.ok x s') u) (hx : Numeric.isTrue x = false)
      (hother : Derives r d (.block other) s' o v) :
      Derives r d (.statement (.branch e body (some other))) s o (u.join v)
  | branchNothing {d e body s x s' u}
      (h : Derives r d (.evaluate e) s (.ok x s') u) (hx : Numeric.isTrue x = false) :
      Derives r d (.statement (.branch e body none)) s (.ok .nothing s') u
  | loop {d text e body s o u} (h : Derives r d (.loop text e body 0 none) s o u) :
      Derives r d (.statement (.loop text e body)) s o u
  | returning {d e s o u} (h : Derives r d (.evaluate e) s o u) :
      Derives r d (.statement (.returning e)) s (andThen o fun x => pure (.returned x)) u
  | printing {d e s o u} (h : Derives r d (.evaluate e) s o u) :
      Derives r d (.statement (.printing e)) s (andThen o (printValue r.places)) u
  | breaking {d s} : Derives r d (.statement .breaking) s (.ok .broke s) {}
  -- lists of statements
  | finished {d last s} : Derives r d (.statements last []) s (.ok (.finished last) s) {}
  | statementStops {d last t rest s e s' u}
      (h : Derives r d (.statement t) s (.error e s') u) :
      Derives r d (.statements last (t :: rest)) s (.error e s') u
  | afterValue {d last t rest s x s' o u v}
      (h : Derives r d (.statement t) s (.ok (.value x) s') u)
      (hrest : Derives r d (.statements (some x) rest) s' o v) :
      Derives r d (.statements last (t :: rest)) s o (u.join v)
  | afterNothing {d last t rest s s' o u v}
      (h : Derives r d (.statement t) s (.ok .nothing s') u)
      (hrest : Derives r d (.statements last rest) s' o v) :
      Derives r d (.statements last (t :: rest)) s o (u.join v)
  | returned {d last t rest s x s' u}
      (h : Derives r d (.statement t) s (.ok (.returned x) s') u) :
      Derives r d (.statements last (t :: rest)) s (.ok (.returned x) s') u
  | broke {d last t rest s s' u} (h : Derives r d (.statement t) s (.ok .broke s') u) :
      Derives r d (.statements last (t :: rest)) s (.ok (.broke last) s') u
  | block {d body s o u} (h : Derives r d (.statements none body) s o u) :
      Derives r d (.block body) s (andThen o fun ending => pure ending.signal) u
  -- loops
  | conditionStops {d text e body n last s f s' u}
      (h : Derives r d (.evaluate e) s (.error f s') u) :
      Derives r d (.loop text e body n last) s (.error f s') u
  | loopDone {d text e body n last s x s' u}
      (h : Derives r d (.evaluate e) s (.ok x s') u) (hx : Numeric.isTrue x = false) :
      Derives r d (.loop text e body n last) s (.ok (.ofLast last) s') u
  | tooLong {d text e body n last s x s' u limit}
      (h : Derives r d (.evaluate e) s (.ok x s') u) (hx : Numeric.isTrue x = true)
      (hlimit : r.guards.rounds = some limit) (hrounds : limit ≤ n) :
      Derives r d (.loop text e body n last) s
        (.error .limit { s' with events := .loopLimit limit text :: s'.events }) u
  | roundStops {d text e body n last s x s' f s'' u v}
      (h : Derives r d (.evaluate e) s (.ok x s') u) (hx : Numeric.isTrue x = true)
      (hrounds : r.guards.AllowRounds (n + 1))
      (hbody : Derives r d (.statements last body) s' (.error f s'') v) :
      Derives r d (.loop text e body n last) s (.error f s'') ((u.join v).join { rounds := n + 1 })
  | roundReturned {d text e body n last s x s' y s'' u v}
      (h : Derives r d (.evaluate e) s (.ok x s') u) (hx : Numeric.isTrue x = true)
      (hrounds : r.guards.AllowRounds (n + 1))
      (hbody : Derives r d (.statements last body) s' (.ok (.returned y) s'') v) :
      Derives r d (.loop text e body n last) s (.ok (.returned y) s'')
        ((u.join v).join { rounds := n + 1 })
  | roundBroke {d text e body n last s x s' last' s'' u v}
      (h : Derives r d (.evaluate e) s (.ok x s') u) (hx : Numeric.isTrue x = true)
      (hrounds : r.guards.AllowRounds (n + 1))
      (hbody : Derives r d (.statements last body) s' (.ok (.broke last') s'') v) :
      Derives r d (.loop text e body n last) s (.ok (.ofLast last') s'')
        ((u.join v).join { rounds := n + 1 })
  | round {d text e body n last s x s' last' s'' o u v w}
      (h : Derives r d (.evaluate e) s (.ok x s') u) (hx : Numeric.isTrue x = true)
      (hrounds : r.guards.AllowRounds (n + 1))
      (hbody : Derives r d (.statements last body) s' (.ok (.finished last') s'') v)
      (hloop : Derives r d (.loop text e body (n + 1) last') s'' o w) :
      Derives r d (.loop text e body n last) s o
        (((u.join v).join { rounds := n + 1 }).join w)

/-! ### What the interpreter does -/

/-- Carries out a piece at the given depth of active calls. -/
def Piece.run (rules : Rules) (depth : Nat) : (q : Piece) → Run q.Result
  | terms context ts stack => Run.terms rules depth context ts stack
  | evaluate e => Run.evaluate rules depth e
  | evaluateStatement e => Run.evaluateStatement rules depth e
  | evaluateAll es => Run.evaluateAll rules depth es
  | call context p n text arguments => Run.call rules depth context p n text arguments
  | statement s => Run.statement rules depth s
  | statements last ss => Run.statements rules depth last ss
  | block body => Run.block rules depth body
  | loop text condition body rounds last =>
    Run.loop rules depth text condition body (rules.settings.loopLimit - rounds) last

theorem bind_run {α β : Type} (m : Run α) (f : α → Run β) (s : State) :
    (m >>= f) s = andThen (m s) f := by
  simp only [bind, EStateM.bind, andThen]
  cases m s with
  | ok a s' => rfl
  | error e s' => rfl

theorem bind_eq_ok_iff {α β : Type} {m : Run α} {f : α → Run β} {s t : State} {b : β} :
    (m >>= f) s = .ok b t ↔ ∃ a u, m s = .ok a u ∧ f a u = .ok b t := by
  rw [bind_run]
  cases m s with
  | ok a u =>
    refine ⟨fun h => ⟨a, u, rfl, h⟩, ?_⟩
    rintro ⟨a', u', heq, h⟩
    cases heq
    exact h
  | error e u => simp [andThen]

theorem bind_eq_error_iff {α β : Type} {m : Run α} {f : α → Run β} {s t : State} {e : Failure} :
    (m >>= f) s = .error e t ↔
      m s = .error e t ∨ ∃ a s', m s = .ok a s' ∧ f a s' = .error e t := by
  rw [bind_run]
  cases m s with
  | ok a s' =>
    refine ⟨fun h => .inr ⟨a, s', rfl, h⟩, ?_⟩
    rintro (h | ⟨a', u, heq, h⟩)
    · cases h
    · cases heq
      exact h
  | error e' s' => simp [andThen]

/-- Calls a function with the given values, unless that is too deep. -/
def enter (rules : Rules) (depth : Nat) (text : String) (f : Function) (xs : List Decimal) :
    Run (Option Decimal) :=
  (Callee.entering rules.settings.callLimit depth f.parameters fun _ =>
    statements rules (depth + 1) none f.body).run text xs

section Calls

variable {rules : Rules} {d : Nat} {n : String} {f : Function} {es : List Expression}

theorem call_of_unknown (hf : rules.functions.find? n = none) (c : String) (p : Int)
    (text : String) : call rules d c p n text es = fail c p .unknownName := by
  rw [call, hf]

theorem call_of_wrongCount (hf : rules.functions.find? n = some f) (harity : f.arity ≠ es.length)
    (c : String) (p : Int) (text : String) :
    call rules d c p n text es = fail c p .argumentCount := by
  rw [call, hf]
  exact if_pos harity

theorem call_of_known (hf : rules.functions.find? n = some f) (harity : f.arity = es.length)
    (c : String) (p : Int) (text : String) :
    call rules d c p n text es = evaluateAll rules d es >>= enter rules d text f := by
  rw [Tree.call_eq_invoke, Tree.invoke, Rules.callee?, hf]
  exact if_neg (not_not_intro harity)

theorem enter_of_lt (h : d < rules.settings.callLimit) (text : String) (f : Function)
    (xs : List Decimal) (s : State) :
    enter rules d text f xs s = leave (statements rules (d + 1) none f.body
      (Activity.entered d text (Table.ofEntries (f.parameters.zip xs)) s)) := by
  let frame := Table.ofEntries (f.parameters.zip xs)
  have hrecord : ∀ k : Unit → Run (Option Decimal),
      (record (.calling text (d + 1)) >>= k) { s with store := s.store.push frame }
        = k () (Activity.entered d text frame s) := fun _ => rfl
  rw [enter, Callee.entering]
  simp only [dif_pos h, inFrame]
  rw [hrecord, bind_run]
  cases statements rules (d + 1) none f.body (Activity.entered d text frame s) with
  | error e s' => rfl
  | ok ending s' =>
    cases ending with
    | finished last => rfl
    | broke last => rfl
    | returned x => rfl

theorem enter_of_le (h : rules.settings.callLimit ≤ d) (text : String) (f : Function)
    (xs : List Decimal) (s : State) :
    enter rules d text f xs s =
      .error .limit { s with events := .callLimit rules.settings.callLimit :: s.events } := by
  rw [enter, Callee.entering]
  simp only [dif_neg (Nat.not_lt.mpr h)]
  rfl

end Calls

theorem block_eq (rules : Rules) (d : Nat) (body : List Statement) :
    block rules d body = statements rules d none body >>= fun ending => pure ending.signal := by
  rw [block]
  refine bind_congr fun ending => ?_
  cases ending with
  | finished last => rfl
  | returned x => rfl
  | broke last => rfl

theorem statement_branch (rules : Rules) (d : Nat) (e : Expression) (body : List Statement)
    (otherwise : Option (List Statement)) :
    statement rules d (.branch e body otherwise) = evaluate rules d e >>= fun x =>
      if Numeric.isTrue x then block rules d body
      else match otherwise with
        | some other => block rules d other
        | none => pure .nothing := by
  cases otherwise with
  | none => rw [statement]
  | some other => rw [statement]

/-- What a loop does once its condition has been found true. -/
def takeRound (rules : Rules) (d : Nat) (text : String) (e : Expression) (body : List Statement)
    (last : Option Decimal) : Nat → Run Signal
  | 0 => do
    record (.loopLimit rules.settings.loopLimit text)
    throw .limit
  | remaining + 1 => do
    match ← statements rules d last body with
    | .finished last => loop rules d text e body remaining last
    | .returned x => pure (.returned x)
    | .broke last => pure (.ofLast last)

theorem loop_eq (rules : Rules) (d : Nat) (text : String) (e : Expression)
    (body : List Statement) (remaining : Nat) (last : Option Decimal) :
    loop rules d text e body remaining last = evaluate rules d e >>= fun x =>
      if Numeric.isTrue x then takeRound rules d text e body last remaining
      else pure (.ofLast last) := by
  cases remaining with
  | zero =>
    rw [loop]
    rfl
  | succ remaining =>
    rw [loop]
    rfl

/-- A loop that may take one round more has one round left. -/
theorem left_succ {settings : Settings} {n : Nat} (h : (Guards.of settings).AllowRounds (n + 1)) :
    settings.loopLimit - n = settings.loopLimit - (n + 1) + 1 := by
  have hle : n + 1 ≤ settings.loopLimit := h _ rfl
  omega

/-- What the rules derive under the guards of a session is what the interpreter computes. -/
theorem Derives.run_eq {rules : Rules} {d : Nat} {q : Piece} {s : State} {o : Ended q.Result}
    {u : Usage} (h : Derives (.of rules) d q s o u) : q.run rules d s = o := by
  induction h with
  | noTerms =>
    rw [Piece.run, terms]
    rfl
  | number _ ih =>
    rw [Piece.run, terms]
    exact ih
  | name _ ih =>
    rw [Piece.run, terms]
    exact ih
  | callStops _ ih =>
    rw [Piece.run] at ih
    rw [Piece.run, terms, bind_run, ih]
    rfl
  | callMissing _ ih =>
    rw [Piece.run] at ih
    rw [Piece.run, terms, bind_run, ih]
    rfl
  | callValue _ _ ih ihrest =>
    rw [Piece.run] at ih
    rw [Piece.run, terms, bind_run, ih]
    exact ihrest
  | operatorStops h =>
    rw [Piece.run, terms, bind_run, h]
    rfl
  | operator h _ ih =>
    rw [Piece.run, terms, bind_run, h]
    exact ih
  | parenthesis =>
    rw [Piece.run, terms]
    rfl
  | evaluate _ ih =>
    rw [Piece.run] at ih
    rw [Piece.run, Run.evaluate, bind_run, ih]
  | singleCall _ ih =>
    rw [Piece.run, evaluateStatement]
    exact ih
  | statementValue he _ ih =>
    rw [Piece.run] at ih
    rw [Piece.run, evaluateStatement, bind_run, ih]
    exact fun c p n text es h => he c p n text es h
  | noValues =>
    rw [Piece.run, evaluateAll]
    rfl
  | valueStops _ ih =>
    rw [Piece.run] at ih
    rw [Piece.run, evaluateAll, bind_run, ih]
    rfl
  | values _ _ ih ihrest =>
    rw [Piece.run] at ih
    rw [Piece.run] at ihrest
    rw [Piece.run, evaluateAll, bind_run, ih]
    simp only [andThen]
    rw [bind_run, ihrest]
    rfl
  | unknown hf =>
    rw [Piece.run, call_of_unknown hf]
    rfl
  | wrongCount hf harity =>
    rw [Piece.run, call_of_wrongCount hf harity]
    rfl
  | argumentStops hf harity _ ih =>
    rw [Piece.run] at ih
    rw [Piece.run, call_of_known hf harity, bind_run, ih]
    rfl
  | body hf harity _ hdepth _ ih ihbody =>
    rw [Piece.run] at ih
    rw [Piece.run] at ihbody
    rw [Piece.run, call_of_known hf harity, bind_run, ih]
    simp only [andThen]
    rw [enter_of_lt (hdepth _ rfl), ihbody]
  | tooDeep hf harity _ hlimit hdepth ih =>
    rw [Piece.run] at ih
    cases hlimit
    rw [Piece.run, call_of_known hf harity, bind_run, ih]
    exact enter_of_le hdepth _ _ _ _
  | expression _ ih =>
    rw [Piece.run] at ih
    rw [Piece.run, statement, bind_run, ih]
  | branchStops _ ih =>
    rw [Piece.run] at ih
    rw [Piece.run, statement_branch, bind_run, ih]
    rfl
  | branchBody _ hx _ ih ihbody =>
    rw [Piece.run] at ih
    rw [Piece.run, statement_branch, bind_run, ih]
    simp only [andThen, hx]
    exact ihbody
  | branchOther _ hx _ ih ihother =>
    rw [Piece.run] at ih
    rw [Piece.run, statement_branch, bind_run, ih]
    simp only [andThen, hx]
    exact ihother
  | branchNothing _ hx ih =>
    rw [Piece.run] at ih
    rw [Piece.run, statement_branch, bind_run, ih]
    simp only [andThen, hx]
    rfl
  | loop _ ih =>
    rw [Piece.run, statement]
    exact ih
  | returning _ ih =>
    rw [Piece.run] at ih
    rw [Piece.run, statement, bind_run, ih]
  | printing _ ih =>
    rw [Piece.run] at ih
    rw [Piece.run, statement, bind_run, ih]
    rfl
  | breaking =>
    rw [Piece.run, statement]
    rfl
  | finished =>
    rw [Piece.run, statements]
    rfl
  | statementStops _ ih =>
    rw [Piece.run] at ih
    rw [Piece.run, statements, bind_run, ih]
    rfl
  | afterValue _ _ ih ihrest =>
    rw [Piece.run] at ih
    rw [Piece.run, statements, bind_run, ih]
    exact ihrest
  | afterNothing _ _ ih ihrest =>
    rw [Piece.run] at ih
    rw [Piece.run, statements, bind_run, ih]
    exact ihrest
  | returned _ ih =>
    rw [Piece.run] at ih
    rw [Piece.run, statements, bind_run, ih]
    rfl
  | broke _ ih =>
    rw [Piece.run] at ih
    rw [Piece.run, statements, bind_run, ih]
    rfl
  | block _ ih =>
    rw [Piece.run] at ih
    rw [Piece.run, block_eq, bind_run, ih]
  | conditionStops _ ih =>
    rw [Piece.run] at ih
    rw [Piece.run, loop_eq, bind_run, ih]
    rfl
  | loopDone _ hx ih =>
    rw [Piece.run] at ih
    rw [Piece.run, loop_eq, bind_run, ih]
    simp only [andThen, hx]
    rfl
  | tooLong _ hx hlimit hrounds ih =>
    rw [Piece.run] at ih
    cases hlimit
    rw [Piece.run, Nat.sub_eq_zero_of_le hrounds, loop_eq, bind_run, ih]
    simp only [andThen, hx]
    rfl
  | roundStops _ hx hrounds _ ih ihbody =>
    rw [Piece.run] at ih
    rw [Piece.run] at ihbody
    rw [Piece.run, left_succ hrounds, loop_eq, bind_run, ih]
    simp only [andThen, hx, if_true, takeRound]
    rw [bind_run, ihbody]
    rfl
  | roundReturned _ hx hrounds _ ih ihbody =>
    rw [Piece.run] at ih
    rw [Piece.run] at ihbody
    rw [Piece.run, left_succ hrounds, loop_eq, bind_run, ih]
    simp only [andThen, hx, if_true, takeRound]
    rw [bind_run, ihbody]
    rfl
  | roundBroke _ hx hrounds _ ih ihbody =>
    rw [Piece.run] at ih
    rw [Piece.run] at ihbody
    rw [Piece.run, left_succ hrounds, loop_eq, bind_run, ih]
    simp only [andThen, hx, if_true, takeRound]
    rw [bind_run, ihbody]
    rfl
  | round _ hx hrounds _ _ ih ihbody ihloop =>
    rw [Piece.run] at ih
    rw [Piece.run] at ihbody
    rw [Piece.run, left_succ hrounds, loop_eq, bind_run, ih]
    simp only [andThen, hx, if_true, takeRound]
    rw [bind_run, ihbody]
    exact ihloop

end Run

end Abacus
